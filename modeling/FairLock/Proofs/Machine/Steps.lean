import FairLock.Proofs.Machine.Actions

/-!
# Steps of frames

A step of the machine is the step of one frame, so it is right as its move is.  Only the frames that
clean up after an unwound loop are not like the others: the grants that were taken off the run list
of the loop are with them until the last one was handed back.

## Main definitions

- `Frame.out`, `outOf`: the grants that frames still have to hand back.
- `StackOk`: every frame of a stack can rely on the world.

## Main statements

- `Frame.resume_ok`, `Frame.unwind_ok`: what a frame does after a return and for a fault.
-/

namespace FairLock

/-! ## What single frames do -/

namespace World

variable {w : World} {out : List Grant}

/-- Logging an answer concerns no lock. -/
theorem logReply_ok (h : w.WellFormed) (context : Context) (last : Option String) (reply : Reply)
    (out : List Grant) :
    (w.logReply context last reply).WellFormed ∧
      w.Leads out (w.logReply context last reply) out := by
  unfold logReply
  cases last with
  | none => exact ⟨h, .refl _ _⟩
  -- an answer is logged as an event about no lock
  | some word =>
    dsimp only
    split
    · exact ⟨h, .refl _ _⟩
    · exact ⟨h.emit _, .emit rfl⟩

theorem nextAction_ok (h : w.WellFormed) (context : Context) (rest : List Action) :
    (w.nextAction context rest).Ok w out := by
  cases rest with
  | nil => exact .reply h (.refl _ _)
  | cons a rest => exact (perform_ok h context a).under trivial

theorem dispatch_ok (h : w.WellFormed) {lock : LockId} (hid : lock < w.locks.length)
    (outcome : Reply) : (w.dispatch lock outcome).Ok w out := by
  unfold dispatch
  cases hnext : (w.lock lock).next w.thread with
  | none =>
    -- the run list that is closed is empty, so nothing is taken out
    refine Move.Ok.reply (h.setLock _ _) ?_
    have hempty : (w.lock lock).deferredOn w.thread = [] := Lock.deferredOn_of_next_eq_none hnext
    have hclosed : Ledger.Step lock (w.ledger out lock)
        ⟨((w.lock lock).close w.thread).1, w.journal lock,
          ((w.lock lock).deferredOn w.thread).map (Request.grant lock) ++
            out.filter fun g => g.lock == lock⟩ := .closed w.thread
    rw [hempty, List.map_nil, List.nil_append] at hclosed
    exact Leads.of_step _ [] hid rfl rfl (by simp) (fun _ _ => rfl) hclosed
  | some found =>
    obtain ⟨r, l⟩ := found
    have hstart : ∀ shown, w.Leads out
        ((w.setLock lock l).emit (.started (r.grant lock) w.thread shown)) out := by
      intro shown
      refine Leads.of_step l [_] hid rfl rfl ?_ (fun _ _ => rfl) ?_
      · simp [Event.lock?]
      · exact .taken w.thread shown hnext
    have hok := start_ok (h.setLock lock l) (by simpa using hid) hstart
    exact hok.under (hok.leads.lock_lt hid)

theorem contain_ok (h : w.WellFormed) {g : Grant} (hg : w.Knows g) (fault : Fault) :
    (w.contain g fault).Ok w out := by
  unfold contain
  cases fault.bomb? with
  | some message => exact .of_world h (.refl _ _)
  | none =>
    have hend : (w.endGrant g).Ok w out := endGrant_ok h hg
    exact hend.under (hg.leads hend.leads)

/-- Counting a failure is all that a report changes, apart from the history. -/
theorem reportFailure_eq {g : Grant} (hid : g.lock < w.locks.length) (failure : Failure) :
    (w.reportFailure g failure).world =
      { w with
        locks := w.locks.set g.lock (w.lock g.lock).countFailure
        history := (w.lock g.lock).failureEvents g failure w.entered ++ w.history } := by
  have hself : (w.setLock g.lock (w.lock g.lock).countFailure).lock g.lock =
      (w.lock g.lock).countFailure := lock_setLock_self hid _
  simp only [reportFailure, hself, Lock.failureEvents, reply]
  rw [show (w.lock g.lock).countFailure.config = (w.lock g.lock).config from rfl]
  split <;> simp [setLock, notify, emit]

theorem failureEvents_lock (l : Lock Entry) (g : Grant) (failure : Failure)
    (entered : List Grant) : ∀ e ∈ l.failureEvents g failure entered, e.lock? = some g.lock := by
  unfold Lock.failureEvents
  split
  · simp [Event.lock?, Notice.lock]
  · simp

theorem reportFailure_ok (h : w.WellFormed) {g : Grant} (hg : w.Knows g) (failure : Failure) :
    (w.reportFailure g failure).Ok w out := by
  have hworld := reportFailure_eq hg.1 failure
  refine ⟨?_, ?_, by simp [reportFailure, reply]⟩
  · rw [hworld]
    exact h.mono (by simp) (List.suffix_append _ _) rfl rfl rfl rfl rfl
  · rw [hworld]
    refine Leads.of_step _ _ hg.1 rfl rfl (failureEvents_lock _ _ _ _) (fun _ _ => rfl) ?_
    exact .failed failure w.entered rfl

theorem work_ok (h : w.WellFormed) (name : String) {work : Work} (hid : work.lock < w.locks.length)
    {g : Grant} (hg : w.Knows g) (rest : List Action) : (w.work name work g rest).Ok w out := by
  -- an action of the work goes with its frame below, whose lock and grant stay worthy
  have hmore : ∀ a rest,
      ((w.perform { tag := name } a).before
        [.working name work g (some a.word) rest]).Ok w out := by
    intro a rest
    have hperform : (w.perform { tag := name } a).Ok w out := perform_ok h _ a
    exact hperform.under ⟨hperform.leads.lock_lt hid, hg.leads hperform.leads⟩
  cases rest with
  | nil => exact (release_ok h hg).answering
  | cons a rest =>
    cases a with
    | pause =>
      refine suspend_ok h name ⟨?_, ?_⟩
      · simpa [Future.held] using hg
      · simpa [Future.lock?] using hid
    | _ => exact hmore _ rest

theorem join_ok (h : w.WellFormed) (thread : ThreadId) (entered : List Grant)
    (reply : Reply) : ((w.join thread entered).reply reply).Ok w out := by
  refine Move.Ok.reply ?_ ?_
  · exact h.mono rfl (List.suffix_refl _) rfl rfl rfl rfl rfl
  · exact .of_eq rfl rfl

theorem leaveSpan_ok (h : w.WellFormed) (out : List Grant) :
    w.leaveSpan.WellFormed ∧ w.Leads out w.leaveSpan out :=
  ⟨h.mono rfl (List.suffix_refl _) rfl rfl rfl rfl rfl, .of_eq rfl rfl⟩

end World

namespace Frame

variable {w : World} {out : List Grant} {f : Frame}

/-- What a frame does after a return is right. -/
theorem resume_ok (h : w.WellFormed) (hf : f.Supported w) (reply : Reply) :
    (f.resume w reply).Ok w out := by
  -- what the frames look up is worthy, since the frame was supported when it was put down
  cases f with
  | actions context last rest =>
    obtain ⟨hwell, hleads⟩ := World.logReply_ok h context last reply out
    exact (World.nextAction_ok hwell context rest).after hleads
  | answering answer => exact .reply h (.refl _ _)
  | finishing g t =>
    refine Move.Ok.under ?_ trivial
    cases t.quiet with
    | true => exact World.dropOwned_ok h g
    | false => exact (World.dropOwned_ok (h.emit _) g).after (.emit rfl)
  | concluding fault =>
    cases fault with
    | none => exact .reply h (.refl _ _)
    | some fault => exact .of_world h (.refl _ _)
  | invocation g =>
    obtain ⟨hwell, hleads⟩ := World.leaveSpan_ok h out
    exact .reply hwell hleads
  | reporting g failure => exact World.reportFailure_ok h hf failure
  | dispatching lock outcome => exact World.dispatch_ok h hf _
  | handingBack lock items => exact hf.elim
  | discarding g entry => exact hf.elim
  | rethrowing fault => exact .of_world h (.refl _ _)
  | joining thread entered => exact World.join_ok h thread entered .joined
  | guarding => exact .reply h (.refl _ _)
  | iterating context times body =>
    cases times with
    | zero => exact .reply h (.refl _ _)
    | succ times => exact World.ok_of_frames h (by simp [Frame.Supported])
  | acquiring name c => exact World.acquired_ok h name c reply
  | awaiting name work c => exact World.submitted_ok h name hf c reply
  | working name work g last rest =>
    obtain ⟨hwell, hleads⟩ := World.logReply_ok h { tag := name } last reply out
    have hid : work.lock < (w.logReply { tag := name } last reply).locks.length :=
      hleads.lock_lt hf.1
    exact (World.work_ok hwell name hid (hf.2.leads hleads) rest).after hleads
  | droppingWork name => exact .of_world (h.emit _) (.emit rfl)

/-- What a frame does for a fault is right; only a loop does more. -/
theorem unwind_ok (h : w.WellFormed) (hf : f.Supported w)
    (hloop : ∀ lock outcome, f ≠ .dispatching lock outcome) (fault : Fault) :
    (f.unwind w fault).Ok w out := by
  -- the same for what they let go of
  cases f with
  | finishing g t => exact (World.dropOwned_ok h g).under trivial
  | invocation g =>
    obtain ⟨hwell, hleads⟩ := World.leaveSpan_ok h out
    exact (World.contain_ok hwell (World.Knows.leads hf hleads) fault).after hleads
  | dispatching lock outcome => exact absurd rfl (hloop lock outcome)
  | joining thread entered => exact World.join_ok h thread entered _
  | guarding => exact .reply h (.refl _ _)
  | acquiring name c => exact (World.dropReceiver_ok h c).under trivial
  | awaiting name work c =>
    exact (World.dropReceiver_ok h c).before (by simp [Frame.Supported])
  | working name work g last rest =>
    refine Move.Ok.under ?_ trivial
    have hg : (w.emit (.workDropped name)).Knows g := hf.2.mono rfl (List.suffix_cons _ _)
    exact (World.endGrant_ok (h.emit _) hg).after (.emit rfl)
  | droppingWork name => exact .of_world (h.emit _) (.emit rfl)
  | _ => exact .of_world h (.refl _ _)

end Frame

/-! ## Stacks -/

/-- The grants that a frame still has to hand back or to drop. -/
def Frame.out : Frame → List Grant
  | .handingBack lock items => items.map (Request.grant lock)
  | .discarding g _ => [g]
  | _ => []

/-- The grants that the frames of a stack still have to hand back or to drop. -/
def outOf (frames : List Frame) : List Grant := frames.flatMap Frame.out

@[simp] theorem outOf_nil : outOf [] = [] := rfl

@[simp] theorem outOf_cons (f : Frame) (rest : List Frame) :
    outOf (f :: rest) = f.out ++ outOf rest := rfl

/-- Only frames that clean up after an unwound loop have something to hand back. -/
theorem Frame.Supported.out_eq_nil {w : World} {f : Frame} (h : f.Supported w) : f.out = [] := by
  cases f with
  | handingBack lock items => exact h.elim
  | discarding g entry => exact h.elim
  | _ => rfl

theorem outOf_append_of_supported {w : World} {frames : List Frame}
    (h : ∀ f ∈ frames, f.Supported w) (below : List Frame) :
    outOf (frames ++ below) = outOf below := by
  induction frames with
  | nil => rfl
  | cons f rest ih =>
    rw [List.cons_append, outOf_cons, (h f (by simp)).out_eq_nil, List.nil_append]
    exact ih fun f' hf' => h f' (by simp [hf'])

/-- Every frame of the stack can rely on the world, and the cleaning up after a loop is done above
    the fault that made it necessary. -/
inductive StackOk (w : World) : List Frame → Prop where
  | nil : StackOk w []
  | frame {f rest} (hf : f.Supported w) (h : StackOk w rest) : StackOk w (f :: rest)
  | handingBack {lock items fault rest} (hlock : lock < w.locks.length) (h : StackOk w rest) :
      StackOk w (.handingBack lock items :: .rethrowing fault :: rest)
  | discarding {g entry items rest} (h : StackOk w (.handingBack g.lock items :: rest)) :
      StackOk w (.discarding g entry :: .handingBack g.lock items :: rest)

namespace StackOk

variable {w w' : World} {frames below : List Frame}

theorem mono (h : StackOk w frames) (hlocks : w'.locks.length = w.locks.length)
    (hhistory : w.history <:+ w'.history) : StackOk w' frames := by
  induction h with
  | nil => exact .nil
  | frame hf _ ih => exact .frame (hf.mono hlocks hhistory) ih
  | handingBack hlock _ ih => exact .handingBack (Nat.lt_of_lt_of_eq hlock hlocks.symm) ih
  | discarding _ ih => exact .discarding ih

theorem append (hf : ∀ f ∈ frames, f.Supported w) (h : StackOk w below) :
    StackOk w (frames ++ below) := by
  induction frames with
  | nil => exact h
  | cons f rest ih =>
    exact .frame (hf f (by simp)) (ih fun f' hf' => hf f' (by simp [hf']))

end StackOk

end FairLock
