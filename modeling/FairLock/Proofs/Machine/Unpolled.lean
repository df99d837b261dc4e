import FairLock.Proofs.Machine.Polls

/-!
# Futures that are not polled

A future that is stored is left where it is by everything but a poll of it, or it is dropped: it
makes room for another future of its name, or an action takes it out and drops it.  This holds of
all futures, also of those that have not asked for access yet, and of those that hold their grants.

## Main definitions

- `World.Houses`: a future is left where it is stored, or it is dropped.
- `Machine.PollOf`: a transition polls what is stored under a name.
- `Machine.DropsStored`: a transition drops a stored future.

## Main statements

- `Machine.Next.houses`: a transition that does not poll a future.
-/

namespace FairLock

namespace World

variable {w v : World} {name : String} {f : Future}

/-- The future is dropped, after something was done that concerns no lock. -/
def Drops (w : World) (name : String) (f : Future) (v : World) : Prop :=
  ∃ u : World, w.Apart u ∧ v = (u.dropFuture name f).world

/-- The future that is stored under a name is left there, or it is dropped. -/
def Houses (w : World) (name : String) (f : Future) (v : World) : Prop :=
  v.futures.get? name = some f ∨ w.Drops name f v

theorem Houses.of_eq (h : w.futures.get? name = some f) (hfutures : v.futures = w.futures) :
    w.Houses name f v :=
  .inl (hfutures ▸ h)

/-- Something is done first that concerns no lock. -/
theorem Houses.after {u : World} (h : v.Houses name f u) (hv : w.Apart v) : w.Houses name f u :=
  h.imp_right fun ⟨x, hx, heq⟩ => ⟨x, hv.trans hx, heq⟩

/-! ## Operations -/

/-- A future that is stored under the same name drives the other one out. -/
theorem houses_storeFuture (h : w.futures.get? name = some f) (other : String) (f' : Future) :
    w.Houses name f (w.storeFuture other f').world := by
  by_cases hname : other = name
  · subst hname
    simp only [storeFuture, h]
    exact .inr ⟨{ w with futures := w.futures.put other f' }, .of_eq rfl rfl rfl rfl, rfl⟩
  · refine .inl ?_
    rw [futures_storeFuture, Table.get?_put_of_ne (Ne.symm hname)]
    exact h

theorem houses_dropStored (h : w.futures.get? name = some f) (other : String) :
    w.Houses name f (w.dropStored other).world := by
  unfold dropStored
  -- the future that is dropped is this one, or it is stored under another name
  by_cases hname : other = name
  · subst hname
    simp only [h]
    exact .inr ⟨{ w with futures := w.futures.remove other }, .of_eq rfl rfl rfl rfl, rfl⟩
  · cases hother : w.futures.get? other with
    | none => exact .inl h
    | some f' =>
      refine .inl ?_
      have hspared := spares_dropFuture (c := 0)
        { w with futures := w.futures.remove other } other f'
      show (dropFuture _ other f').world.futures.get? name = _
      rw [hspared.futures]
      show (w.futures.remove other).get? name = _
      rw [Table.get?_remove_of_ne (Ne.symm hname)]
      exact h

theorem houses_acquired (h : w.futures.get? name = some f) (other : String) (c : ChannelId)
    (answer : Reply) : w.Houses name f (w.acquired other c answer).world := by
  unfold acquired
  cases answer with
  | failed failure =>
    have hclosed : (w.setChannel c .gone).futures.get? name = some f := h
    exact (houses_storeFuture hclosed other _).after (.of_eq rfl rfl rfl rfl)
  | _ => exact houses_storeFuture h other _

/-- A look into a channel concerns neither futures nor locks. -/
theorem receive_same (w : World) (c : ChannelId) (future : String) :
    (w.receive c future).1.futures = w.futures ∧ w.Apart (w.receive c future).1 := by
  unfold receive
  cases w.channel c <;> exact ⟨rfl, .of_eq rfl rfl rfl rfl⟩

theorem houses_awaitGrant (h : w.futures.get? name = some f) (other : String) (work : Work)
    (c : ChannelId) : w.Houses name f (w.awaitGrant other work c).world := by
  obtain ⟨hfutures, hapart⟩ := w.receive_same c other
  unfold awaitGrant
  generalize w.receive c other = p at hfutures hapart ⊢
  obtain ⟨v, received⟩ := p
  have hstored : v.futures.get? name = some f := by rwa [hfutures]
  cases received with
  | notYet => exact (houses_storeFuture hstored other (.run work (.waiting c))).after hapart
  | _ => exact .inl hstored

theorem houses_submitted (h : w.futures.get? name = some f) (other : String) (work : Work)
    (c : ChannelId) (answer : Reply) :
    w.Houses name f (w.submitted other work c answer).world := by
  unfold submitted
  cases answer with
  | failed failure => exact .inl h
  | _ => exact houses_awaitGrant h other work c

/-- A poll of another future. -/
theorem houses_poll (h : w.futures.get? name = some f) {other : String} (hother : other ≠ name) :
    w.Houses name f (w.poll other).world := by
  unfold poll
  cases hget : w.futures.get? other with
  | none => exact .inl h
  -- another future that is polled writes to its own place at most
  | some f' =>
    cases f' with
    | acquire acquisition =>
      cases acquisition with
      | refused failure =>
        refine .inl ?_
        show (w.futures.put other _).get? name = _
        rw [Table.get?_put_of_ne (Ne.symm hother)]
        exact h
      | accepted c =>
        obtain ⟨r, hgives⟩ := poll_gives (w := w) hget
        have hpolled : w.poll other = w.pollAcquire other (.accepted c) := by simp [poll, hget]
        refine .of_eq h ?_
        rw [hpolled] at hgives
        exact hgives.futures
    | run work stage =>
      have hremoved :
          ({ w with futures := w.futures.remove other } : World).futures.get? name = some f := by
        show (w.futures.remove other).get? name = _
        rw [Table.get?_remove_of_ne (Ne.symm hother)]
        exact h
      cases stage with
      | unstarted =>
        have hspared := spares_request (c := 0) { w with futures := w.futures.remove other }
          work.lock work.mode [.awaiting other work w.channels.length]
        exact .inl ((congrArg (Table.get? · name) hspared.futures).trans hremoved)
      | waiting c =>
        exact (houses_awaitGrant hremoved other work c).after (.of_eq rfl rfl rfl rfl)
      | working g rest => exact .inl hremoved

/-- Every action but a poll of the future. -/
theorem houses_perform (h : w.futures.get? name = some f) (context : Context) {a : Action}
    (ha : a ≠ .poll name) : w.Houses name f (w.perform context a).world := by
  cases htouches : a.touchesFutures with
  | false => exact .of_eq h (w.spares_perform (c := 0) context htouches).futures
  | true =>
    -- only these three actions touch the table,
    -- and each of them another place or this one as allowed
    cases a with
    | run handle mode other work output =>
      simp only [perform, withLock]
      cases w.lockOf? handle with
      | none => exact .inl h
      | some lock => exact houses_storeFuture h other _
    | poll other => exact houses_poll h fun heq => ha (heq ▸ rfl)
    | dropFuture other => exact houses_dropStored h other
    | _ => cases htouches

theorem houses_work (h : w.futures.get? name = some f) (other : String) (work : Work) (g : Grant)
    {rest : List Action} (hrest : rest.head? ≠ some (.poll name)) :
    w.Houses name f (w.work other work g rest).world := by
  -- work that pauses stores itself, under its own name
  cases rest with
  | nil => exact .of_eq h (w.aside_release (c := 0) g).futures
  | cons a rest =>
    have ha : a ≠ .poll name := fun heq => hrest (by rw [heq]; rfl)
    cases a with
    | pause => exact houses_storeFuture h other _
    | _ => exact houses_perform h _ ha

end World

/-! ## Transitions -/

namespace Frame

variable {w : World} {name : String} {f : Future}

/-- The frame begins an action next, which is a poll of the given name. -/
def Polls (name : String) : Frame → Prop
  | .actions _ _ rest => rest.head? = some (.poll name)
  | .working _ _ _ _ rest => rest.head? = some (.poll name)
  | _ => False

theorem houses_resume (h : w.futures.get? name = some f) (reply : Reply) {frame : Frame}
    (hpoll : ¬frame.Polls name) : w.Houses name f (frame.resume w reply).world := by
  have hlogged : ∀ context last, (w.logReply context last reply).futures.get? name = some f := by
    intro context last
    rw [(w.aside_logReply (c := 0) context last reply).futures]
    exact h
  cases htouches : frame.touchesFutures with
  | false => exact .of_eq h (spares_resume (c := 0) w reply htouches).futures
  | true =>
    -- only these frames touch the table
    cases frame with
    | actions context last rest =>
      refine World.Houses.after ?_ (w.apart_logReply context last reply).1
      cases rest with
      | nil => exact .inl (hlogged context last)
      | cons a rest =>
        exact World.houses_perform (hlogged context last) context fun heq => hpoll (heq ▸ rfl)
    | acquiring other c => exact World.houses_acquired h other c reply
    | awaiting other work c => exact World.houses_submitted h other work c reply
    | working other work g last rest =>
      refine World.Houses.after ?_ (w.apart_logReply { tag := other } last reply).1
      exact World.houses_work (hlogged _ last) other work g hpoll
    | _ => cases htouches

end Frame

namespace Machine

variable {m m' : Machine} {name : String} {f : Future}

/-- The transition is a poll of what is stored under a name. -/
inductive PollOf (name : String) : Machine → Machine → Prop where
  | mk {m : Machine} {w : World} {context : Context} {below : List Frame}
      (h : m.Begins w context (.poll name) below) :
      PollOf name m (ofMove (w.perform context (.poll name)) below)

/-- The transition drops the future that is stored under a name. -/
structure DropsStored (name : String) (f : Future) (m m' : Machine) : Prop where
  stored : m.world.futures.get? name = some f
  unpolled : ¬PollOf name m m'
  drops : m.world.Drops name f m'.world

/-- A transition that does not poll a future leaves it where it is stored, or drops it. -/
theorem Next.houses (hn : Next m m') (hstored : m.world.futures.get? name = some f)
    (hno : ¬PollOf name m m') : m.world.Houses name f m'.world := by
  cases hn with
  | step =>
    obtain ⟨w, frames, control⟩ := m
    cases frames with
    | nil => exact .inl hstored
    | cons frame below =>
      cases control with
      | returned reply =>
        refine Frame.houses_resume hstored reply fun hpoll => hno ?_
        -- a frame that polls begins the poll
        cases frame with
        | actions context last rest =>
          cases rest with
          | nil => cases hpoll
          | cons a rest =>
            obtain rfl := Option.some.inj hpoll
            have hbegins : Begins ⟨w, .actions context last (.poll name :: rest) :: below,
                .returned reply⟩ _ _ (.poll name) _ := .action
            rw [hbegins.step_eq nofun]
            exact .mk hbegins
        | working other work g last rest =>
          cases rest with
          | nil => cases hpoll
          | cons a rest =>
            obtain rfl := Option.some.inj hpoll
            have hbegins : Begins ⟨w, .working other work g last (.poll name :: rest) :: below,
                .returned reply⟩ _ _ (.poll name) _ := .work nofun
            rw [hbegins.step_eq nofun]
            exact .mk hbegins
        | _ => cases hpoll
      | unwinding fault => exact .of_eq hstored (frame.spares_unwind (c := 0) w fault).futures
      | aborted => exact .inl hstored
  | @call w control a hcontrol =>
    refine World.houses_perform hstored {} fun heq => hno ?_
    subst heq
    exact .mk (.call (.poll name) hcontrol)

end Machine

end FairLock
