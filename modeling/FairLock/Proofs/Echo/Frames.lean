import FairLock.Proofs.Echo.Perform
import FairLock.Proofs.Machine.Beside

/-!
# The frames of two sides

A frame of a side makes the same step in the joint run and in the run of that side alone.  One step
is left out: a list of the outer side that comes to an operation of the inner one has nothing to do
in the run of the outer side alone.

## Main definitions

- `Pursuit.Echoes`: who goes through a list, in both runs.

## Main statements

- `Echoes.goOn`: what a list does next.
- `Frame.Echoes.pass`: what a frame does with what is passed to it.
-/

namespace FairLock

/-! ## Lists of actions -/

/-- The next action of a list is performed, unless it leaves the poll of a future. -/
theorem Pursuit.goOn_cons (P : Pursuit) (w : World) {a : Action} (ha : a ≠ .pause)
    (rest : List Action) :
    P.goOn w (a :: rest) = (w.perform P.context a).before [P.frame (some a.word) rest] := by
  cases P with
  | actions context => rfl
  | working future work g =>
    cases a with
    | pause => exact absurd rfl ha
    | _ => rfl

/-- Who goes through a list of a side. -/
inductive Pursuit.Echoes (s : Sides) (x : Side) (reach : Reach) : Pursuit → Pursuit → Prop where
  | actions {context context' : Context} (hcontext : context.Echoes s x reach context')
      (hquiet : context'.quiet = context.quiet) :
      Pursuit.Echoes s x reach (.actions context) (.actions context')
  | working {future : String} {work work' : Work} {g : Grant} (hfuture : s.name future = x)
      (hwork : work.Echoes s x work') (hg : s.lock g.lock = x) :
      Pursuit.Echoes s x reach (.working future work g) (.working future work' g)

section Lemmas

variable {s : Sides} {x : Side} {p q : Pairing} {w v u : World}

namespace Pursuit.Echoes

variable {reach : Reach} {P P' : Pursuit} (h : P.Echoes s x reach P')
include h

theorem context : P.context.Echoes s x reach P'.context ∧ P'.context.quiet = P.context.quiet := by
  cases h with
  | actions hcontext hquiet => exact ⟨hcontext, hquiet⟩
  | working hfuture hwork hg => exact ⟨.work hfuture reach, rfl⟩

theorem frame (p : Pairing) {rest rest' : List Action} (last : Option String)
    (hrest : Strips s x reach rest rest') :
    (P.frame last rest).Echoes s x p (P'.frame last rest') := by
  cases h with
  | actions hcontext hquiet => exact .actions last hcontext hquiet hrest
  | working hfuture hwork hg => exact .working last hfuture hwork hg hrest

end Pursuit.Echoes

/-- A list of a side is gone through in both runs. -/
theorem Frame.Echoes.pursuit {P : Pursuit} {last : Option String} {rest : List Action} {f' : Frame}
    (h : (P.frame last rest).Echoes s x p f') :
    ∃ reach P' rest', f' = P'.frame last rest' ∧ P.Echoes s x reach P' ∧
      Strips s x reach rest rest' := by
  -- the code of a side acts as a list or as work, and both go on with their rest
  cases P with
  | actions context =>
    cases h with
    | actions last hcontext hquiet hrest =>
      exact ⟨_, .actions _, _, rfl, .actions hcontext hquiet, hrest⟩
  | working future work g =>
    cases h with
    | working last hfuture hwork hg hrest =>
      exact ⟨_, .working _ _ _, _, rfl, .working hfuture hwork hg, hrest⟩

namespace Echoes

/-- An answer is logged in both runs or in none. -/
theorem logReply (h : Echoes s x p q w v u) {reach : Reach} {context context' : Context}
    (hcontext : context.Echoes s x reach context') (hquiet : context'.quiet = context.quiet)
    (last : Option String) (r : Reply) :
    Echoes s x p q (w.logReply context last r) (v.logReply context' last (r.alone s x)) u := by
  unfold World.logReply
  -- what is logged is the same action on both sides;
  -- whether it is logged depends on the last answer only
  cases last with
  | none => exact h
  | some word =>
    rw [Reply.isNothing_alone, hquiet]
    dsimp only
    split
    · exact h
    · exact h.emit (.acted hcontext.shown word r)

/-- A list goes on in both runs, unless it comes to an operation that is stripped off. -/
theorem goOn (h : Echoes s x p q w v u) {reach : Reach} {P P' : Pursuit}
    (hP : P.Echoes s x reach P') {rest rest' : List Action} (hrest : Strips s x reach rest rest')
    (hkept : ∀ b ∈ rest.head?, ¬ (x = .outer ∧ s.block b))
    (hassigns : s.Assigns (P.goOn w rest).world) :
    Move.Echoes s x p q u (P.goOn w rest) (P'.goOn v rest') := by
  cases hrest with
  -- nothing left, an operation of the inner side to be stripped off, or an action of both sides
  | nil =>
    cases hP with
    | actions hcontext hquiet => exact .reply h .nothing
    | working hfuture hwork hg =>
      dsimp only [Pursuit.goOn, World.work]
      rw [hwork.output]
      exact (h.release hg).1.answering (.done _)
  | strip hx hblock hpause hrest => exact absurd ⟨hx, hblock⟩ (hkept _ rfl)
  | @keep _ a a' rest rest' _ ha hrest =>
    have hbelow := hP.frame p (some a.word) hrest
    -- work that pauses goes back into the table, and is no action that is performed
    by_cases hpause : a = .pause
    · subst hpause
      cases ha
      cases hP with
      | actions hcontext hquiet =>
        exact (h.perform hcontext .pause hassigns).before (.cons hbelow .nil)
      | working hfuture hwork hg => exact h.suspend hfuture (.run hwork (.working hg hrest))
    · have hpause' : a' ≠ .pause := fun e => hpause (ha.pause_iff.2 e)
      rw [P.goOn_cons w hpause] at hassigns ⊢
      rw [P'.goOn_cons v hpause', ha.word]
      exact (h.perform hP.context.1 ha hassigns).before (.cons hbelow .nil)

/-! ## Loops -/

theorem dispatch (h : Echoes s x p q w v u) {lock : LockId} (hlock : s.lock lock = x)
    (outcome : Reply) :
    Move.Echoes s x p q u (w.dispatch lock outcome) (v.dispatch lock (outcome.alone s x)) := by
  have hl := h.own.lock lock hlock
  have hnext := hl.next h.own.threads h.running
  unfold World.dispatch
  -- the next request of the run list is there in both runs or in none
  revert hnext
  generalize (w.lock lock).next w.thread = found
  generalize (v.lock lock).next v.thread = found'
  rintro (⟨hr, hleft⟩ | _)
  · exact ((h.setLock hlock hleft).start hlock hr).before
      (.cons (.dispatching (some outcome) hlock) .nil)
  · exact .reply (h.setLock hlock (hl.close h.own.threads h.running).1) outcome

theorem unwindDispatch (h : Echoes s x p q w v u) {lock : LockId} (hlock : s.lock lock = x)
    (fault : Fault) :
    Move.Echoes s x p q u (w.unwindDispatch lock fault) (v.unwindDispatch lock fault) := by
  obtain ⟨hl, hleftover⟩ := (h.own.lock lock hlock).close h.own.threads h.running
  exact .of (h.setLock hlock hl)
    (.cons (.handingBack hlock hleftover) (.cons (.rethrowing fault) .nil)) rfl

theorem handBack (h : Echoes s x p q w v u) {lock : LockId} (hlock : s.lock lock = x)
    {items items' : List (Request Entry)} (hitems : Queue.Echoes s x p items items') :
    Move.Echoes s x p q u (w.handBack lock items) (v.handBack lock items') := by
  cases hitems with
  | nil => exact .done h
  | @cons r r' rest rest' hr hrest =>
    dsimp only [World.handBack]
    rw [hr.id, hr.mode]
    exact (h.endGrant hlock).before
      (.cons (.discarding hlock hr.payload) (.cons (.handingBack hlock hrest) .nil))

/-! ## Failures -/

theorem contain (h : Echoes s x p q w v u) {g : Grant} (hg : s.lock g.lock = x) (fault : Fault) :
    Move.Echoes s x p q u (w.contain g fault) (v.contain g fault) := by
  unfold World.contain
  cases fault.bomb? with
  | some message => exact .unwinding h _
  | none => exact (h.endGrant hg).before (.cons (.reporting _ hg) .nil)

theorem reportFailure (h : Echoes s x p q w v u) {g : Grant} (hg : s.lock g.lock = x)
    (failure : Failure) :
    Move.Echoes s x p q u (w.reportFailure g failure) (v.reportFailure g failure) := by
  have hcounted := h.setLock hg (h.own.lock g.lock hg).countFailure
  dsimp only [World.reportFailure]
  rw [(hcounted.own.lock g.lock hg).config]
  split
  · exact .reply (hcounted.notify (.entryFailed g failure) hg) (.failed failure)
  · exact .reply hcounted (.failed failure)

end Echoes

/-! ## Frames -/

namespace Frame.Echoes

variable {f f' : Frame}

/-- What a frame does after a return, it does in both runs. -/
theorem resume (hf : f.Echoes s x p f') (h : FairLock.Echoes s x p q w v u) (r : Reply)
    (hkept : ∀ b ∈ f.next?, ¬ (x = .outer ∧ s.block b))
    (hassigns : s.Assigns (f.resume w r).world) :
    Move.Echoes s x p q u (f.resume w r) (f'.resume v (r.alone s x)) := by
  -- lists first: they are the only frames that may have an operation stripped off, and both kinds
  -- of them go on alike
  have hlist : ∀ (P : Pursuit) last rest, f = P.frame last rest →
      Move.Echoes s x p q u (f.resume w r) (f'.resume v (r.alone s x)) := by
    rintro P last rest rfl
    obtain ⟨reach, P', rest', rfl, hP, hrest⟩ := hf.pursuit
    rw [Pursuit.resume_frame] at hassigns ⊢
    rw [Pursuit.resume_frame]
    refine (h.logReply hP.context.1 hP.context.2 last r).goOn hP hrest ?_ hassigns
    intro b hb
    refine hkept b ?_
    cases rest with
    | nil => cases hb
    | cons a rest => cases P <;> exact hb
  cases hf with
  | actions last hcontext hquiet hrest => exact hlist (.actions _) _ _ rfl
  | working last hfuture hwork hg hrest => exact hlist (.working _ _ _) _ _ rfl
  | answering r => exact .reply h r
  | finishing hg ht =>
    dsimp only [Frame.resume]
    rw [ht.quiet, ht.tag, ht.ending]
    split
    · exact (h.dropOwned hg).before (.cons (.concluding _) .nil)
    · exact ((h.emit (.ended _)).dropOwned hg).before (.cons (.concluding _) .nil)
  | concluding fault =>
    cases fault with
    | none => exact .reply h .nothing
    | some fault => exact .unwinding h fault
  | invocation hg => exact .reply (h.enter _ _) .ok
  | reporting failure hg => exact h.reportFailure hg failure
  | dispatching outcome hlock =>
    have hanswer : (outcome.map (Reply.alone s x)).getD (r.alone s x) =
        (outcome.getD r).alone s x := by
      cases outcome <;> rfl
    dsimp only [Frame.resume]
    rw [hanswer]
    exact h.dispatch hlock _
  | handingBack hlock hitems => exact h.handBack hlock hitems
  | discarding hg hentry =>
    refine .done (h.discard ?_ hentry)
    rintro g' ⟨⟩
    exact hg
  | rethrowing fault => exact .unwinding h fault
  | joining entered entered' hthread => exact .reply (h.join hthread entered entered') .joined
  | guarding => exact .reply h .ok
  | iterating times hcontext hquiet hbody =>
    cases times with
    | zero => exact .reply h .nothing
    | succ times =>
      exact .of h (.cons (.actions none hcontext hquiet hbody)
        (.cons (.iterating times hcontext hquiet hbody) .nil)) rfl
  | acquiring hfuture hc => exact h.acquired hfuture hc r
  | awaiting hfuture hwork hc => exact h.submitted hfuture hwork hc r
  | droppingWork future => exact .done (h.emit (.workDropped future))

/-- What a frame does after a fault, it does in both runs. -/
theorem unwind (hf : f.Echoes s x p f') (h : FairLock.Echoes s x p q w v u) (fault : Fault) :
    Move.Echoes s x p q u (f.unwind w fault) (f'.unwind v fault) := by
  have hrethrow : Stack.Echoes s x p [.rethrowing fault] [.rethrowing fault] :=
    .cons (.rethrowing fault) .nil
  -- frames that hold something let it go on both sides; the others pass the fault on
  cases hf with
  | finishing hg ht => exact (h.dropOwned hg).before hrethrow
  | invocation hg => exact (h.enter _ _).contain hg fault
  | dispatching outcome hlock => exact h.unwindDispatch hlock fault
  | rethrowing fault => exact .of h .nil rfl
  | joining entered entered' hthread => exact .reply (h.join hthread entered entered') (.unwound _)
  | guarding => exact .reply h (.unwound _)
  | acquiring hfuture hc => exact (h.dropReceiver hc).before hrethrow
  | @awaiting name _ _ _ _ hfuture hwork hc =>
    exact (h.dropReceiver hc).before (.cons (.droppingWork name) hrethrow)
  | working last hfuture hwork hg hrest =>
    exact ((h.emit (.workDropped _)).endGrant hg).before hrethrow
  | droppingWork future => exact .unwinding (h.emit (.workDropped future)) fault
  | _ => exact .unwinding h fault

/-- What a frame does with what is passed to it, it does in both runs. -/
theorem pass (hf : f.Echoes s x p f') (h : FairLock.Echoes s x p q w v u) (c : Control)
    (hkept : ∀ r b, c = .returned r → b ∈ f.next? → ¬ (x = .outer ∧ s.block b))
    (hassigns : s.Assigns (f.pass w c).world) :
    Move.Echoes s x p q u (f.pass w c) (f'.pass v (c.alone s x)) := by
  cases c with
  -- an answer goes to the frame as it is seen alone, a fault is the same on both sides
  | returned r => exact hf.resume h r (fun b => hkept r b rfl) hassigns
  | unwinding fault => exact hf.unwind h fault
  | aborted => exact .of h (.cons hf .nil) rfl

end Frame.Echoes

end Lemmas

end FairLock
