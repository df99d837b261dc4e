import FairLock.Proofs.Machine.Traffic
import FairLock.Report.Spans

/-!
# Capabilities in trust

A capability that was sent to a future is in trust: it lies in a channel until it is received, and
then, if the future has work to do, with the future for as long as it works.  No action can name it
there.  All other capabilities are with tasks: those of entry points with these, and those that were
given out by futures for access under a name.

By a change of the world capabilities in trust stay where they are, change hands, or get lost, and
only a grant ends whose capability gets lost or is with a task.

## Main definitions

- `World.trust`, `Frame.held`: the grants whose capabilities are in trust.
- `World.Owns`: a task has the capability of a grant.
- `World.Custody`: what becomes of capabilities in trust between two worlds.
- `Move.Keeps`: what becomes of them by a move.

## Main statements

- `World.isUnended_endGrant`: no other grant ends with a grant.
- `World.Custody.endGrant`, `World.Custody.keep`: ending a grant, and keeping a capability.
-/

namespace FairLock

/-! ## Where capabilities are -/

/-- The grants whose capabilities were sent and have not been received. -/
def sentIn (channels : List Channel) : Multiset Grant :=
  (channels.map fun ch => (ch.held : Multiset Grant)).sum

/-- The grants under which stored futures work. -/
def workingsIn (t : Table Future) : Multiset Grant :=
  t.gathered fun f => (f.held : Multiset Grant)

/-- The grant under which a frame does the work of a future. -/
def Frame.held : Frame → Multiset Grant
  | .working _ _ g _ _ => {g}
  | _ => 0

def workingsOf (frames : List Frame) : Multiset Grant := (frames.map Frame.held).sum

@[simp] theorem workingsOf_nil : workingsOf [] = 0 := rfl

@[simp] theorem workingsOf_cons (f : Frame) (rest : List Frame) :
    workingsOf (f :: rest) = f.held + workingsOf rest := by
  simp [workingsOf]

@[simp] theorem workingsOf_append (frames more : List Frame) :
    workingsOf (frames ++ more) = workingsOf frames + workingsOf more := by
  simp [workingsOf]

/-- Two grants of one lock with one number. -/
def Grant.Like (g g' : Grant) : Prop := g.lock = g'.lock ∧ g.id = g'.id

theorem Grant.Like.refl (g : Grant) : g.Like g := ⟨rfl, rfl⟩

namespace World

variable {w v u : World} {given born born' left left' lost lost' : Multiset Grant} {g : Grant}
  {c : ChannelId}

/-- The grants whose capabilities are in trust in a world. -/
def trust (w : World) : Multiset Grant := sentIn w.channels + workingsIn w.futures

/-- A task has the capability, with its entry point or under a name. -/
def Owns (w : World) (g : Grant) : Prop := g ∈ w.owned ∨ ∃ name, (name, g) ∈ w.store

/-- What becomes of capabilities in trust, when some are given into hand, some are sent or handed to
    an entry point, some are left in hand, and some get lost.  Those that tasks have then they had
    before, or they got lost; and if a grant ends, its capability is with a task or got lost. -/
structure Custody (w : World) (given born : Multiset Grant) (v : World)
    (left lost : Multiset Grant) : Prop where
  balance : v.trust + left + lost ≤ w.trust + given + born
  owns : ∀ g, v.Owns g → w.Owns g ∨ g ∈ lost
  alive : ∀ g, w.isUnended g = true ∨ g ∈ born →
    v.isUnended g = true ∨ ∃ g', g'.Like g ∧ (w.Owns g' ∨ g' ∈ lost)

/-- The same, whatever gets lost. -/
def Keeps (w : World) (given born : Multiset Grant) (v : World) (left : Multiset Grant) : Prop :=
  ∃ lost, w.Custody given born v left lost

namespace Custody

theorem refl (w : World) (given : Multiset Grant) : w.Custody given 0 w given 0 where
  balance := by simp
  owns _ h := .inl h
  alive _ h := .inl (h.resolve_right (Multiset.notMem_zero _))

theorem trans (h : w.Custody given born v left lost) (h' : v.Custody left born' u left' lost') :
    w.Custody given (born + born') u left' (lost + lost') where
  -- what is lost on the first part stays apart while the second one is balanced
  balance :=
    calc u.trust + left' + (lost + lost') = u.trust + left' + lost' + lost := by ac_rfl
      _ ≤ v.trust + left + born' + lost := add_le_add_left h'.balance lost
      _ = v.trust + left + lost + born' := by ac_rfl
      _ ≤ w.trust + given + born + born' := add_le_add_left h.balance born'
      _ = w.trust + given + (born + born') := by ac_rfl
  owns g hg := by
    rcases h'.owns g hg with hg | hg
    · exact (h.owns g hg).imp_right (Multiset.mem_add.2 ∘ .inl)
    · exact .inr (Multiset.mem_add.2 (.inr hg))
  alive g hg := by
    -- whoever is owned in the middle was owned before, or was born on the first part
    have hmore : ∀ g', v.Owns g' ∨ g' ∈ lost' → w.Owns g' ∨ g' ∈ lost + lost' := by
      rintro g' (hg' | hg')
      · exact (h.owns g' hg').imp_right (Multiset.mem_add.2 ∘ .inl)
      · exact .inr (Multiset.mem_add.2 (.inr hg'))
    have hgo : v.isUnended g = true ∨ g ∈ born' →
        u.isUnended g = true ∨ ∃ g', g'.Like g ∧ (w.Owns g' ∨ g' ∈ lost + lost') := fun hv =>
      (h'.alive g hv).imp_right fun ⟨g', hlike, hg'⟩ => ⟨g', hlike, hmore g' hg'⟩
    have hstart : w.isUnended g = true ∨ g ∈ born →
        u.isUnended g = true ∨ ∃ g', g'.Like g ∧ (w.Owns g' ∨ g' ∈ lost + lost') := by
      intro hw
      rcases h.alive g hw with hv | ⟨g', hlike, hg'⟩
      · exact hgo (.inl hv)
      · exact .inr ⟨g', hlike, hg'.imp_right (Multiset.mem_add.2 ∘ .inl)⟩
    -- alive at the beginning or born on the way,
    -- a grant lives on unless one of the two parts ended it
    rcases hg with hw | hb
    · exact hstart (.inl hw)
    · exact (Multiset.mem_add.1 hb).elim (hstart ∘ .inr) (hgo ∘ .inr)

/-- What is in other hands stays there. -/
theorem beside (h : w.Custody given born v left lost) (more : Multiset Grant) :
    w.Custody (given + more) born v (left + more) lost where
  balance :=
    calc v.trust + (left + more) + lost = v.trust + left + lost + more := by ac_rfl
      _ ≤ w.trust + given + born + more := add_le_add_left h.balance more
      _ = w.trust + (given + more) + born := by ac_rfl
  owns := h.owns
  alive := h.alive

/-- A change that concerns no capability and ends no grant. -/
theorem of_eq (hchannels : v.channels = w.channels) (hfutures : v.futures = w.futures)
    (howned : v.owned = w.owned) (hstore : v.store = w.store)
    (hunended : ∀ g, w.isUnended g = true → v.isUnended g = true) :
    w.Custody given 0 v given 0 where
  balance := by rw [trust, hchannels, hfutures, trust, add_zero]
  owns g hg := by
    rw [Owns, howned, hstore] at hg
    exact .inl hg
  alive g hg := .inl (hunended g (hg.resolve_right (Multiset.notMem_zero _)))

/-- Nothing is done with the locks either. -/
theorem of_locks (hlocks : v.locks = w.locks) (hchannels : v.channels = w.channels)
    (hfutures : v.futures = w.futures) (howned : v.owned = w.owned) (hstore : v.store = w.store) :
    w.Custody given 0 v given 0 := by
  refine .of_eq hchannels hfutures howned hstore fun g hg => ?_
  rw [isUnended, World.lock, hlocks]
  exact hg

end Custody

namespace Keeps

theorem refl (w : World) (given : Multiset Grant) : w.Keeps given 0 w given := ⟨0, .refl w given⟩

theorem trans (h : w.Keeps given born v left) (h' : v.Keeps left born' u left') :
    w.Keeps given (born + born') u left' := by
  obtain ⟨lost, h⟩ := h
  obtain ⟨lost', h'⟩ := h'
  exact ⟨lost + lost', h.trans h'⟩

/-- Something is done first by which nothing is sent. -/
theorem after (h : v.Keeps left born u left') (hv : w.Keeps given 0 v left) :
    w.Keeps given born u left' := by
  simpa using hv.trans h

theorem of_locks (hlocks : v.locks = w.locks) (hchannels : v.channels = w.channels)
    (hfutures : v.futures = w.futures) (howned : v.owned = w.owned) (hstore : v.store = w.store) :
    w.Keeps given 0 v given :=
  ⟨0, .of_locks hlocks hchannels hfutures howned hstore⟩

end Keeps

/-! ## Ending grants -/

end World

/-- A release ends no other grant. -/
theorem Lock.isUnended_release {l l' : Lock Entry} {id other : GrantId} {mode : Mode}
    {batch : List (Request Entry)} (h : l.release id mode = (l', batch))
    (hother : l.isUnended other = true) (hne : id ≠ other) : l'.isUnended other = true := by
  -- the release takes out what has its own number, and a drain may add to the rest
  have hkept : ∃ more, l'.unended = (l.unended.filter fun e => e.1 != id) ++ more := by
    rcases release_cases h with ⟨-, -, rfl⟩ | ⟨-, -, rfl⟩
    · exact ⟨[], (List.append_nil _).symm⟩
    · exact ⟨_, rfl⟩
  obtain ⟨more, hmore⟩ := hkept
  simp only [isUnended, hmore, List.any_append, Bool.or_eq_true, List.any_eq_true,
    List.mem_filter] at hother ⊢
  obtain ⟨e, he, hsame⟩ := hother
  refine .inl ⟨e, ⟨he, ?_⟩, hsame⟩
  rw [eq_of_beq hsame]
  simpa using Ne.symm hne

namespace World

variable {w v u : World} {given born left lost : Multiset Grant} {g : Grant} {c : ChannelId}

/-- Ending a grant changes locks and the history only. -/
theorem endGrant_world (w : World) (g : Grant) :
    ∃ locks history, (w.endGrant g).world = { w with locks := locks, history := history } := by
  unfold endGrant
  split
  · rename_i hunended
    cases hrelease : (w.lock g.lock).release g.id g.mode with
    | mk l batch =>
      exact ⟨_, _, (endUnended_eq (lock_lt_of_isUnended hunended) hrelease).1⟩
  · exact ⟨w.locks, w.history, rfl⟩

/-- No other grant ends with it. -/
theorem isUnended_endGrant {g' : Grant} (h : w.isUnended g' = true) :
    (w.endGrant g).world.isUnended g' = true ∨ g.Like g' := by
  unfold endGrant
  split
  · rename_i hunended
    have hid := lock_lt_of_isUnended hunended
    cases hrelease : (w.lock g.lock).release g.id g.mode with
    | mk l batch =>
      rw [(endUnended_eq hid hrelease).1]
      -- a grant with another number or of another lock stays; one with the same number is like it
      by_cases hlock : g.lock = g'.lock
      · by_cases hnumber : g.id = g'.id
        · exact .inr ⟨hlock, hnumber⟩
        · refine .inl ?_
          show (World.lock (w.setLock g.lock (l.deferBatch w.thread batch)) g'.lock).isUnended
            g'.id = true
          rw [isUnended, ← hlock] at h
          rw [← hlock, lock_setLock_self hid, l.deferBatch_eq]
          show l.isUnended g'.id = true
          exact Lock.isUnended_release hrelease h hnumber
      · refine .inl ?_
        show (World.lock (w.setLock g.lock (l.deferBatch w.thread batch)) g'.lock).isUnended
          g'.id = true
        rwa [lock_setLock_of_ne hlock]
  · exact .inl h

/-- What leaves the unended grants of a lock alone ends none. -/
theorem isUnended_setLock {id : LockId} {l : Lock Entry}
    (hl : ∀ n, (w.lock id).isUnended n = true → l.isUnended n = true) {g' : Grant}
    (h : w.isUnended g' = true) : (w.setLock id l).isUnended g' = true := by
  have hid := lock_lt_of_isUnended h
  by_cases hlock : id = g'.lock
  · subst hlock
    rw [isUnended, lock_setLock_self hid]
    exact hl _ h
  · rwa [isUnended, lock_setLock_of_ne hlock]

/-- A grant ends whose capability a task has or that gets lost. -/
theorem Custody.ends (h : w.Custody given born v left lost) (hg : w.Owns g ∨ g ∈ lost) :
    w.Custody given born (v.endGrant g).world left lost := by
  obtain ⟨locks, history, hworld⟩ := v.endGrant_world g
  refine ⟨?_, ?_, ?_⟩
  · rw [hworld]
    exact h.balance
  · rw [hworld]
    exact h.owns
  -- what was alive is alive still, or it is this grant that has ended
  · intro g' hg'
    rcases h.alive g' hg' with hv | hv
    · exact (isUnended_endGrant hv).imp_right fun hlike => ⟨g, hlike, hg⟩
    · exact .inr hv

/-- So it is when it is released, which may come too late. -/
theorem Custody.releases (h : w.Custody given born v left lost) (hg : w.Owns g ∨ g ∈ lost) :
    w.Custody given born (v.release g).1.world left lost := by
  -- a release that comes too late raises a counter, and no grant ends by it
  cases hunended : v.isUnended g with
  | true =>
    have hends : (v.release g).1 = v.endGrant g := by simp [release, endGrant, hunended]
    rw [hends]
    exact h.ends hg
  | false =>
    have hcount : v.Custody left 0 (v.release g).1.world left 0 := by
      simp only [release, hunended, Bool.false_eq_true, if_false]
      have hsame : ∀ g', v.isUnended g' = true →
          (v.setLock g.lock (v.lock g.lock).countRedundant).isUnended g' = true := by
        intro g' hg'
        refine isUnended_setLock ?_ hg'
        exact fun _ hn => hn
      exact .of_eq rfl rfl rfl rfl hsame
    simpa using h.trans hcount

/-! ## Channels and stored futures -/

/-- What was in a channel makes room for what comes in. -/
theorem sentIn_set (channels : List Channel) (c : ChannelId) (new : Channel) :
    -- along the channels, to the one that is set; the others hold what they held
    sentIn (channels.set c new) + ((channels.getD c .gone).held : Multiset Grant) ≤
      sentIn channels + (new.held : Multiset Grant) := by
  induction channels generalizing c with
  | nil => exact Multiset.zero_le _
  | cons first rest ih =>
    cases c with
    | zero =>
      simp only [sentIn, List.set_cons_zero, List.getD_cons_zero, List.map_cons, List.sum_cons]
      exact le_of_eq (by ac_rfl)
    | succ c =>
      have hrest := ih c
      simp only [sentIn, List.set_cons_succ, List.getD_cons_succ, List.map_cons, List.sum_cons,
        add_assoc] at hrest ⊢
      exact add_le_add_right hrest _

theorem trust_setChannel (w : World) (c : ChannelId) (new : Channel) :
    (w.setChannel c new).trust + ((w.channel c).held : Multiset Grant) ≤
      w.trust + (new.held : Multiset Grant) := by
  have hset := add_le_add_left (sentIn_set w.channels c new) (workingsIn w.futures)
  calc (w.setChannel c new).trust + ((w.channel c).held : Multiset Grant)
      = sentIn (w.channels.set c new) + ((w.channels.getD c .gone).held : Multiset Grant) +
          workingsIn w.futures := by
        -- only the sum over the channels changes
        simp only [trust, setChannel, channel]
        ac_rfl
    _ ≤ sentIn w.channels + (new.held : Multiset Grant) + workingsIn w.futures := hset
    _ = w.trust + (new.held : Multiset Grant) := by
        simp only [trust]
        ac_rfl

/-- What is found in a channel is in hand or gets lost. -/
theorem custody_setChannel {new : Channel}
    (h : left + lost + (new.held : Multiset Grant) ≤ given + born +
      ((w.channel c).held : Multiset Grant)) (hborn : ∀ g ∈ born, w.isUnended g = true) :
    w.Custody given born (w.setChannel c new) left lost where
  balance := by
    -- what the channel held is added on both sides, so that it can be traded for what comes in
    refine le_of_add_le_add_right (a := ((w.channel c).held : Multiset Grant)) ?_
    calc (w.setChannel c new).trust + left + lost + ((w.channel c).held : Multiset Grant)
        = (w.setChannel c new).trust + ((w.channel c).held : Multiset Grant) + (left + lost) := by
          ac_rfl
      _ ≤ w.trust + (new.held : Multiset Grant) + (left + lost) :=
          add_le_add_left (w.trust_setChannel c new) _
      _ = w.trust + (left + lost + (new.held : Multiset Grant)) := by ac_rfl
      _ ≤ w.trust + (given + born + ((w.channel c).held : Multiset Grant)) :=
          add_le_add_right h _
      _ = w.trust + given + born + ((w.channel c).held : Multiset Grant) := by ac_rfl
  owns g hg := .inl hg
  alive g hg := .inl (hg.elim id (hborn g))

/-- What holds no grant can be put in the place of any content. -/
theorem keeps_setChannel (c : ChannelId) {new : Channel} (hnew : new.held = []) :
    w.Keeps given 0 (w.setChannel c new) given := by
  refine ⟨0, custody_setChannel ?_ (by simp)⟩
  simp only [hnew, Multiset.coe_nil, add_zero]
  exact Multiset.le_add_right _ _

theorem keeps_newChannel (w : World) : w.Keeps given 0 w.newChannel.1 given := by
  refine ⟨0, ?_, fun g hg => .inl hg, fun g hg => .inl (hg.resolve_right (Multiset.notMem_zero _))⟩
  have hnew : sentIn (w.channels ++ [.open none]) = sentIn w.channels := by
    simp [sentIn, Channel.held]
  simp [trust, newChannel, hnew]

theorem keeps_wake (w : World) (waker : Option String) : w.Keeps given 0 (w.wake waker) given := by
  cases waker <;> exact .of_locks rfl rfl rfl rfl rfl

/-- What a future has that is stored leaves the hand, and what the one had comes into it that made
    room. -/
theorem keeps_stored (hsorted : Table.Sorted w.futures) (name : String) (f : Future) :
    w.Keeps (f.held : Multiset Grant) 0 { w with futures := w.futures.put name f }
      ((w.futures.get? name).elim 0 fun old => (old.held : Multiset Grant)) := by
  refine ⟨0, ?_, fun g hg => .inl hg, fun g hg => .inl (hg.resolve_right (Multiset.notMem_zero _))⟩
  have hput := Table.gathered_put (fun f => (f.held : Multiset Grant)) hsorted name f
  simp only [trust, workingsIn, add_zero, add_assoc]
  exact le_of_eq (congrArg _ hput)

theorem keeps_fetched (hsorted : Table.Sorted w.futures) {name : String} {f : Future}
    (h : w.futures.get? name = some f) :
    w.Keeps 0 0 { w with futures := w.futures.remove name } (f.held : Multiset Grant) := by
  refine ⟨0, ?_, fun g hg => .inl hg, fun g hg => .inl (hg.resolve_right (Multiset.notMem_zero _))⟩
  have hremove := Table.gathered_remove (fun f => (f.held : Multiset Grant)) hsorted h
  simp only [trust, workingsIn, add_zero, add_assoc]
  exact le_of_eq (congrArg _ hremove)

end World

/-! ## Moves -/

/-- The frame neither does the work of a future nor is it a boundary around an entry point. -/
def Frame.isOrdinary : Frame → Bool
  | .invocation _ => false
  | .working .. => false
  | _ => true

/-- The frames below the boundary that has just been entered or left, if one is on top. -/
def pastHead : Control → List Frame → List Frame
  | .returned _, frames => frames.tail
  | _, frames => frames

theorem mem_of_mem_pastHead {control : Control} {frames : List Frame} {f : Frame}
    (h : f ∈ pastHead control frames) : f ∈ frames := by
  cases control with
  | returned reply => exact List.mem_of_mem_tail h
  | _ => exact h

/-- Below frames there are no others past the head than there are. -/
theorem mem_pastHead_append {control : Control} {frames below : List Frame} {f : Frame}
    (h : f ∈ pastHead control (frames ++ below)) : f ∈ pastHead control frames ∨ f ∈ below := by
  cases control with
  | returned reply =>
    cases frames with
    | nil => exact .inr (List.mem_of_mem_tail h)
    | cons first rest => exact List.mem_append.1 h
  | _ => exact List.mem_append.1 h

theorem workingsOf_of_ordinary {frames : List Frame} (h : ∀ f ∈ frames, f.isOrdinary = true) :
    workingsOf frames = 0 := by
  induction frames with
  | nil => rfl
  | cons f rest ih =>
    have hf : f.held = 0 := by
      have hordinary := h f List.mem_cons_self
      cases f with
      | working => cases hordinary
      | _ => rfl
    rw [workingsOf_cons, hf, zero_add, ih fun f hf => h f (List.mem_cons_of_mem _ hf)]

/-- What becomes of capabilities in trust by a move: those in hand afterwards are with frames that
    it puts on the stack.  Whoever it starts inside a boundary has the capability then, or it got
    lost, unless the boundary is left at once. -/
def Move.Keeps (m : Move) (w : World) (given born : Multiset Grant) : Prop :=
  ∃ lost, w.Custody given born m.world (workingsOf m.frames) lost ∧
    ∀ g, .invocation g ∈ pastHead m.control m.frames → w.Owns g ∨ g ∈ lost

namespace Move.Keeps

variable {m : Move} {w v : World} {given born left lost : Multiset Grant}

theorem of_ordinary (h : w.Keeps given born m.world 0)
    (hframes : ∀ f ∈ m.frames, f.isOrdinary = true) : m.Keeps w given born := by
  obtain ⟨lost, h⟩ := h
  rw [← workingsOf_of_ordinary hframes] at h
  refine ⟨lost, h, fun g hg => ?_⟩
  exact absurd (hframes _ (mem_of_mem_pastHead hg)) Bool.false_ne_true

/-- A move that only changes the world. -/
theorem of_world (h : w.Keeps given born v 0) {control : Control} :
    Move.Keeps { world := v, control := control } w given born :=
  .of_ordinary h (by simp)

theorem after (h : m.Keeps v left born) (hv : w.Keeps given 0 v left) : m.Keeps w given born := by
  obtain ⟨lost, h, hbounds⟩ := h
  obtain ⟨lost', hv⟩ := hv
  refine ⟨lost' + lost, by simpa using hv.trans h, fun g hg => ?_⟩
  rcases hbounds g hg with howns | hlost
  · exact (hv.owns g howns).imp_right (Multiset.mem_add.2 ∘ .inl)
  · exact .inr (Multiset.mem_add.2 (.inr hlost))

/-- What frames below have is in hand all along. -/
theorem beside (h : m.Keeps w given born) {frames : List Frame}
    (hframes : ∀ g, .invocation g ∉ frames) :
    (m.before frames).Keeps w (given + workingsOf frames) born := by
  obtain ⟨lost, h, hbounds⟩ := h
  refine ⟨lost, ?_, fun g hg => hbounds g ?_⟩
  · rw [Move.frames_before, workingsOf_append]
    exact h.beside (workingsOf frames)
  · exact (mem_pastHead_append hg).resolve_right (hframes g)

theorem before (h : m.Keeps w given born) {frames : List Frame}
    (hframes : ∀ f ∈ frames, f.isOrdinary = true) : (m.before frames).Keeps w given born := by
  have hbounds : ∀ g, .invocation g ∉ frames := fun g hmem =>
    absurd (hframes _ hmem) Bool.false_ne_true
  have hbeside := h.beside hbounds
  rwa [workingsOf_of_ordinary hframes, add_zero] at hbeside

theorem answering (h : m.Keeps w given born) (reply : Reply) :
    (m.answering reply).Keeps w given born :=
  h.before (by simp [Frame.isOrdinary])

end Move.Keeps

namespace World

variable {w v u : World} {given born left lost : Multiset Grant} {g : Grant} {c : ChannelId}

theorem ordinary_endUnended (hid : g.lock < w.locks.length) :
    ∀ f ∈ (w.endUnended g).frames, f.isOrdinary = true := by
  intro f hf
  rw [loop_of_mem_endUnended hid hf]
  rfl

theorem ordinary_endGrant (w : World) (g : Grant) :
    ∀ f ∈ (w.endGrant g).frames, f.isOrdinary = true := by
  unfold endGrant
  split
  · rename_i hunended
    exact ordinary_endUnended (lock_lt_of_isUnended hunended)
  · simp

theorem ordinary_release (w : World) (g : Grant) :
    ∀ f ∈ (w.release g).1.frames, f.isOrdinary = true := by
  unfold release
  split
  · rename_i hunended
    exact ordinary_endUnended (lock_lt_of_isUnended hunended)
  · simp

/-- The grant of a capability ends that a task has or that gets lost. -/
theorem Custody.endGrant (h : w.Custody given born v 0 lost) (hg : w.Owns g ∨ g ∈ lost) :
    (v.endGrant g).Keeps w given born :=
  .of_ordinary ⟨lost, h.ends hg⟩ (v.ordinary_endGrant g)

theorem Custody.release (h : w.Custody given born v 0 lost) (hg : w.Owns g ∨ g ∈ lost) :
    (v.release g).1.Keeps w given born :=
  .of_ordinary ⟨lost, h.releases hg⟩ (v.ordinary_release g)

/-- A capability in hand gets lost. -/
theorem custody_lost (w : World) (given : Multiset Grant) : w.Custody given 0 w 0 given where
  balance := by simp
  owns _ h := .inl h
  alive _ h := .inl (h.resolve_right (Multiset.notMem_zero _))

/-- A grant of which nobody knows beforehand is not handed over. -/
theorem custody_unsent (w : World) (g : Grant) : w.Custody 0 {g} w 0 {g} := by
  refine ⟨by simp, fun _ h => .inl h, ?_⟩
  rintro g' (hg' | hg')
  · exact .inl hg'
  · exact .inr ⟨g', .refl g', .inr hg'⟩

/-- The grant of a capability in hand ends. -/
theorem keeps_endGrant (w : World) (g : Grant) : (w.endGrant g).Keeps w {g} 0 :=
  (w.custody_lost {g}).endGrant (.inr (Multiset.mem_singleton_self g))

theorem keeps_release (w : World) (g : Grant) : (w.release g).1.Keeps w {g} 0 :=
  (w.custody_lost {g}).release (.inr (Multiset.mem_singleton_self g))

theorem keeps_dropOwned (w : World) (g : Grant) : (w.dropOwned g).Keeps w 0 0 := by
  unfold dropOwned
  split
  · rename_i howned
    have herased : w.Custody 0 0 { w with owned := w.owned.erase g } 0 0 := by
      refine ⟨by simp [trust], ?_, fun g' hg' => .inl (hg'.resolve_right (Multiset.notMem_zero _))⟩
      rintro g' (hg' | hg')
      · exact .inl (.inl (List.mem_of_mem_erase hg'))
      · exact .inl (.inr hg')
    exact herased.endGrant (.inl (.inl (by simpa using howned)))
  · exact .of_world (.refl w 0)

/-- A capability comes to be kept under a name, and the one that was there is dropped. -/
theorem Custody.keep (h : w.Custody given born v 0 lost) (name : String)
    (hg : w.Owns g ∨ g ∈ lost) : (v.keep name g).Keeps w given born := by
  have hkept : w.Custody given born { v with store := v.store.put name g } 0 lost := by
    refine ⟨h.balance, ?_, h.alive⟩
    -- whoever is owned now is the one that is kept, or was owned already
    rintro g' (hg' | ⟨other, hg'⟩)
    · exact h.owns g' (.inl hg')
    · rcases Table.eq_or_mem_of_mem_put hg' with heq | hg'
      · cases heq
        exact hg
      · exact h.owns g' (.inr ⟨other, hg'⟩)
  unfold World.keep
  cases hold : v.store.get? name with
  | none => exact .of_world ⟨lost, hkept⟩
  | some old => exact hkept.endGrant (h.owns old (.inr ⟨name, Table.mem_of_get? hold⟩))

theorem keeps_discard (w : World) (grant : Option Grant) (entry : Entry) :
    w.Keeps given 0 (w.discard grant entry) given := by
  cases entry with
  -- a sender that is discarded leaves its channel without a grant
  | task t => exact .of_locks rfl rfl rfl rfl rfl
  | sender c =>
    have hemit : w.Keeps given 0 (w.emit (.discarded grant none)) given :=
      .of_locks rfl rfl rfl rfl rfl
    unfold discard
    cases hc : (w.emit (.discarded grant none)).channel c with
    | «open» waker =>
      simp only [hc]
      exact (World.keeps_wake _ waker).after ((keeps_setChannel c rfl).after hemit)
    | _ =>
      simp only [hc]
      exact hemit

end World

end FairLock
