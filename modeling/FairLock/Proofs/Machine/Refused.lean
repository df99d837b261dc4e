import FairLock.Proofs.Machine.Polls

/-!
# Futures whose request was refused

A future whose request was refused has the failure to give, and gives it to its first poll.  No
other transition takes the failure out of it: the future may be dropped with the failure, or make
room for another one, but those that are stored have not been polled.

## Main definitions

- `World.Untold`: no failure is given out.

## Main statements

- `Machine.Next.tells`: only a poll takes the failure out.
-/

namespace FairLock

theorem Table.get?_remove_self {β : Type} (t : Table β) (name : String) :
    (t.remove name).get? name = none := by
  induction t with
  | nil => rfl
  | cons entry rest ih =>
    obtain ⟨n, v⟩ := entry
    -- the entries of the name are left out, and the others are looked through in order
    by_cases hn : n = name
    · simpa [Table.remove, hn] using ih
    · have hkept : Table.remove ((n, v) :: rest) name = (n, v) :: Table.remove rest name := by
        simp [Table.remove, hn]
      rw [hkept, get?_cons, if_neg (Ne.symm hn), ih]

namespace World

variable {w v u : World} {name other : String} {f : Future}

/-- If there is a future under the name that has given out its failure, it had done so before. -/
def Untold (name : String) (w v : World) : Prop :=
  v.futures.get? name = some (.acquire (.refused none)) →
    w.futures.get? name = some (.acquire (.refused none))

namespace Untold

theorem of_eq (h : v.futures = w.futures) : w.Untold name v := fun hv => by rwa [h] at hv

theorem trans (h : w.Untold name v) (h' : v.Untold name u) : w.Untold name u := fun hu => h (h' hu)

/-- Something is done first that leaves the stored futures alone. -/
theorem after (h : v.Untold name u) (hfutures : v.futures = w.futures) : w.Untold name u :=
  (of_eq hfutures).trans h

end Untold

/-! ## Places -/

theorem untold_storeFuture (w : World) (other : String) (hf : f ≠ .acquire (.refused none)) :
    w.Untold name (w.storeFuture other f).world := by
  intro htold
  rw [futures_storeFuture] at htold
  by_cases hname : name = other
  · subst hname
    rw [Table.get?_put_self] at htold
    exact absurd (Option.some.inj htold) hf
  · rwa [Table.get?_put_of_ne hname] at htold

theorem untold_remove (w : World) (other : String) :
    w.Untold name { w with futures := w.futures.remove other } := by
  intro htold
  have htold' : (w.futures.remove other).get? name = some (.acquire (.refused none)) := htold
  by_cases hname : name = other
  · subst hname
    rw [Table.get?_remove_self] at htold'
    cases htold'
  · rwa [Table.get?_remove_of_ne hname] at htold'

theorem untold_dropStored (w : World) (other : String) :
    w.Untold name (w.dropStored other).world := by
  unfold dropStored
  cases w.futures.get? other with
  | none => exact .of_eq rfl
  | some f =>
    exact (untold_remove w other).trans (.of_eq (spares_dropFuture (c := 0) _ other f).futures)

theorem untold_acquired (w : World) (other : String) (c : ChannelId) (answer : Reply) :
    w.Untold name (w.acquired other c answer).world := by
  unfold acquired
  cases answer with
  | failed failure =>
    have hstored : (w.setChannel c .gone).Untold name ((w.setChannel c .gone).storeFuture other
        (.acquire (.refused (some failure)))).world := untold_storeFuture _ other nofun
    exact hstored.after rfl
  | _ => exact untold_storeFuture w other nofun

/-! ## Polls -/

theorem futures_receive (w : World) (c : ChannelId) (future : String) :
    (w.receive c future).1.futures = w.futures := by
  unfold receive
  cases w.channel c <;> rfl

theorem untold_awaitGrant (w : World) (other : String) (work : Work) (c : ChannelId) :
    w.Untold name (w.awaitGrant other work c).world := by
  have hreceive := w.futures_receive c other
  unfold awaitGrant
  generalize w.receive c other = p at hreceive ⊢
  obtain ⟨v, received⟩ := p
  -- work that waits comes back into the table, but as work and not as a refusal
  cases received with
  | notYet =>
    have hstored : v.Untold name (v.storeFuture other (.run work (.waiting c))).world :=
      untold_storeFuture v other nofun
    exact hstored.after hreceive
  | _ => exact .of_eq hreceive

theorem untold_submitted (w : World) (other : String) (work : Work) (c : ChannelId)
    (answer : Reply) : w.Untold name (w.submitted other work c answer).world := by
  unfold submitted
  cases answer with
  | failed failure => exact .of_eq rfl
  | _ => exact w.untold_awaitGrant other work c

/-- A poll gives out the failure that there is under its own name. -/
theorem untold_poll (h : ∀ failure, name = other →
      w.futures.get? name ≠ some (.acquire (.refused (some failure)))) :
    w.Untold name (w.poll other).world := by
  unfold poll
  cases hget : w.futures.get? other with
  | none => exact .of_eq rfl
  | some f =>
    -- a refusal is told once; what is left in its place tells nothing more
    cases f with
    | acquire acquisition =>
      cases acquisition with
      | accepted c =>
        obtain ⟨r, hgives⟩ := poll_gives (w := w) hget
        have hfutures := hgives.futures
        simp only [poll, hget] at hfutures
        exact .of_eq hfutures
      | refused failure =>
        intro htold
        have htold' : (w.futures.put other (.acquire (.refused none))).get? name = _ := htold
        by_cases hname : name = other
        · subst hname
          cases failure with
          | some failure => exact absurd hget (h failure rfl)
          | none => exact hget
        · rwa [Table.get?_put_of_ne hname] at htold'
    | run work stage =>
      -- work is taken out of the table while it is polled
      refine (untold_remove w other).trans ?_
      cases stage with
      | unstarted => exact .of_eq (spares_request (c := 0) _ _ _ _).futures
      | waiting c => exact untold_awaitGrant _ other work c
      | working g rest => exact .of_eq rfl

/-! ## Actions and frames -/

/-- No action gives out a failure but a poll. -/
theorem untold_perform (w : World) (context : Context) {a : Action}
    (h : ∀ failure, a = .poll name →
      w.futures.get? name ≠ some (.acquire (.refused (some failure)))) :
    w.Untold name (w.perform context a).world := by
  -- only the three actions about futures write to the table
  cases htouches : a.touchesFutures with
  | false => exact .of_eq (w.spares_perform (c := 0) context htouches).futures
  | true =>
    cases a with
    | run handle mode other work output =>
      simp only [perform, withLock]
      cases w.lockOf? handle with
      | none => exact .of_eq rfl
      | some lock => exact untold_storeFuture w other fun hrefused => by cases hrefused
    | poll other =>
      refine untold_poll fun failure hname => h failure ?_
      rw [hname]
    | dropFuture other => exact w.untold_dropStored other
    | _ => cases htouches

end World

/-- So it is with the frames that perform no action. -/
theorem Frame.untold_resume {name : String} (w : World) (reply : Reply) {f : Frame}
    (hactions : ∀ context last a rest, f ≠ .actions context last (a :: rest))
    (hwork : ∀ name work g last a rest, f = .working name work g last (a :: rest) → a = .pause) :
    w.Untold name (f.resume w reply).world := by
  -- only the frames of a request and of work write to the table
  cases htouches : f.touchesFutures with
  | false => exact .of_eq (spares_resume (c := 0) w reply htouches).futures
  | true =>
    cases f with
    | actions context last rest =>
      cases rest with
      | nil => cases htouches
      | cons a rest => exact absurd rfl (hactions context last a rest)
    | acquiring other c => exact w.untold_acquired other c reply
    | awaiting other work c => exact w.untold_submitted other work c reply
    | working other work g last rest =>
      have hlog : w.Untold name (w.logReply { tag := other } last reply) :=
        .of_eq (w.aside_logReply (c := 0) _ last reply).futures
      refine hlog.trans ?_
      cases rest with
      | nil => exact .of_eq (World.aside_release (c := 0) _ g).futures
      | cons a rest =>
        obtain rfl := hwork other work g last a rest rfl
        exact World.untold_storeFuture _ other nofun
    | _ => cases htouches

namespace Machine

variable {m m' : Machine} {name : String} {r : Reply} {failure : Failure}

/-- A transition performs an action, or it gives out no failure. -/
theorem Next.begins_or_untold (h : Next m m') (name : String) :
    (∃ w context a below, m.Begins w context a below ∧
      m' = ofMove (w.perform context a) below) ∨ m.world.Untold name m'.world := by
  cases h with
  | @call w control a hcontrol => exact .inl ⟨w, {}, a, [], .call a hcontrol, rfl⟩
  | step =>
    obtain ⟨w, frames, control⟩ := m
    cases frames with
    | nil => exact .inr (.of_eq rfl)
    | cons f below =>
      cases control with
      | unwinding fault => exact .inr (.of_eq (f.spares_unwind (c := 0) w fault).futures)
      | aborted => exact .inr (.of_eq rfl)
      | returned reply =>
        -- an action is performed by a list of actions, or by work that is not paused
        by_cases hactions : ∃ context last a rest, f = .actions context last (a :: rest)
        · obtain ⟨context, last, a, rest, rfl⟩ := hactions
          have hbegins : Begins ⟨w, .actions context last (a :: rest) :: below, .returned reply⟩ _ _
            a _ := .action
          exact .inl ⟨_, _, a, _, hbegins, hbegins.step_eq nofun⟩
        by_cases hwork : ∃ other work g last a rest, f = .working other work g last (a :: rest) ∧
            a ≠ .pause
        · obtain ⟨other, work, g, last, a, rest, rfl, ha⟩ := hwork
          have hbegins : Begins ⟨w, .working other work g last (a :: rest) :: below, .returned reply⟩
            _ _ a _ := .work ha
          exact .inl ⟨_, _, a, _, hbegins, hbegins.step_eq nofun⟩
        · refine .inr (f.untold_resume w reply ?_ ?_)
          · exact fun context last a rest hf => hactions ⟨context, last, a, rest, hf⟩
          · intro other work g last a rest hf
            by_contra ha
            exact hwork ⟨other, work, g, last, a, rest, hf, ha⟩

/-- Nothing else takes the failure out of the future. -/
theorem Next.tells (h : Next m m')
    (htold : m'.world.futures.get? name = some (.acquire (.refused none))) :
    m.world.futures.get? name = some (.acquire (.refused none)) ∨
      ∃ failure, Polls name (.refused (some failure)) m m' (.failed failure) := by
  rcases h.begins_or_untold name with ⟨w, context, a, below, hbegins, rfl⟩ | huntold
  · -- of the actions, only a poll of this very future gives out its failure
    by_cases hpoll : ∃ failure, a = .poll name ∧
        w.futures.get? name = some (.acquire (.refused (some failure)))
    · obtain ⟨failure, rfl, hstored⟩ := hpoll
      exact .inr ⟨failure, .mk hbegins hstored (World.poll_refused hstored).1⟩
    · left
      rw [← hbegins.same.1]
      refine World.untold_perform w context (fun failure ha hstored => ?_) htold
      exact hpoll ⟨failure, ha, hstored⟩
  · exact .inl (huntold htold)

end Machine

end FairLock
