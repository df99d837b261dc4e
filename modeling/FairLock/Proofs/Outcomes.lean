import FairLock.Proofs.Acquisition
import FairLock.Proofs.Draining

/-!
# Whom a failure reaches

A submission may run any number of entry points before it returns: its own, if it is granted on the
spot, those that its own drains, and whatever these submit and release.  Its answer is about its own
entry point alone.  That one has a place on the stack, right above the loop that its submission has
put there; a failure that arrives at the boundary in this place is its own, and the loop hands on
the first answer that it gets, whatever it starts afterwards.

A failure leaves the boundary at which it is contained only if it panics when it is destroyed.  So
nothing else ever leaves a submission, a release or the drop of a capability.

## Main definitions

- `Machine.Executes`: the next thing that a machine does is to submit an entry.
- `Machine.OwnFailure`: the entry point that a submission has started in place fails.
- `Machine.Enters`: a submission, a release or the drop of a capability has just begun.
- `Machine.Defused`: no failure that arrives at a boundary panics when it is destroyed.

## Main statements

- `Machine.ComesTo.answered`: a loop returns the first answer that it gets.
- `Machine.own_or_ok`, `Machine.OwnFailure.answers`: the two answers of a request that is granted on
  the spot.
- `Machine.Executes.replies`: there is no other answer to a submission.
- `Machine.Holding.returns`: what can be destroyed leaves no call.
- `errors_reach_own_submitter`.
-/

namespace FairLock

/-- Was it returned as an error, and not thrown? -/
def Fault.isError : Fault → Bool
  | .error _ => true
  | .errorBomb _ => true
  | _ => false

/-- A returned error is reported as one, and a panic as a panic. -/
theorem Fault.failure_cases (fault : Fault) (n : GrantId) (mode : Mode) :
    (fault.isError = true ∧ ∃ reason, fault.failure n mode = .entryFailed n mode reason) ∨
      (fault.isError = false ∧
        ∃ message, fault.failure n mode = .entryPanicked n mode message) := by
  cases fault with
  | error reason => exact .inl ⟨rfl, _, rfl⟩
  | errorBomb message => exact .inl ⟨rfl, _, rfl⟩
  | panic message => exact .inr ⟨rfl, _, rfl⟩
  | panicOther => exact .inr ⟨rfl, _, rfl⟩
  | panicBomb message => exact .inr ⟨rfl, _, rfl⟩

/-! ## Submissions -/

namespace World

variable {w : World} {lock : LockId} {mode : Mode} {l : Lock Entry} {r : Request Entry}

/-- The loop that a submission puts below what it starts, unless its thread runs one already. -/
def loopUnder (w : World) (lock : LockId) : List Frame :=
  if (w.lock lock).isDispatching w.thread then [] else [.dispatching lock none]

theorem loopUnder_cases (w : World) (lock : LockId) :
    w.loopUnder lock = [] ∨ w.loopUnder lock = [.dispatching lock none] := by
  unfold loopUnder
  split
  · exact .inl rfl
  · exact .inr rfl

/-- A task that is granted on the spot runs above its boundary, and the boundary above the loop. -/
theorem frames_submit_task {t : Task} (hid : lock < w.locks.length)
    (h : (w.lock lock).submit mode (.task t) = (l, .granted r)) :
    ∃ f, (w.submit lock mode (.task t)).frames =
      f :: .finishing (r.grant lock) t :: .invocation (r.grant lock) :: w.loopUnder lock := by
  obtain ⟨-, -, rfl, -⟩ := Lock.submit_granted h
  rw [submit_of_granted hid h, Move.frames_before]
  exact ⟨_, rfl⟩

/-- A capability that somebody waits for is sent, and its entry point has returned. -/
theorem submit_sender {c : ChannelId} (hid : lock < w.locks.length) (hc : w.Hears (.sender c))
    (h : (w.lock lock).submit mode (.sender c) = (l, .granted r)) :
    (w.submit lock mode (.sender c)).frames = .invocation (r.grant lock) :: w.loopUnder lock ∧
      (w.submit lock mode (.sender c)).control = .returned .nothing := by
  obtain ⟨waker, hc⟩ := hc
  obtain ⟨-, -, rfl, -⟩ := Lock.submit_granted h
  rw [submit_of_granted hid h, Move.frames_before, Move.control_before]
  -- only that the channel is open in this world is needed of it
  generalize hv : ({ w with
    locks := w.locks.set lock (l.dispatchOn w.thread)
    history := _ :: _ :: w.history } : World) = v
  have hopen : v.channel c = .open waker := hv ▸ hc
  rw [start_of_open lock rfl hopen]
  exact ⟨rfl, rfl⟩

end World

namespace Machine

variable {m m' x : Machine} {w v : World} {lock : LockId} {mode : Mode} {entry : Entry}
  {below rest : List Frame} {g : Grant} {t : Task} {fault : Fault} {reply : Reply}

/-- The next thing that the machine does is to submit an entry, in the given world and on top of the
    given stack. -/
inductive Executes : Machine → World → LockId → Mode → Entry → List Frame → Prop where
  | task {m : Machine} {w : World} {context : Context} {below : List Frame} {handle : Nat}
      {lock : LockId} {mode : Mode} {tag : String} {body : Body} {ending : Ending} {quiet : Bool}
      (h : m.Begins w context (.submit handle mode tag body ending quiet) below)
      (hlock : w.lockOf? handle = some lock) :
      Executes m w lock mode (.task ⟨handle, tag, body, ending, quiet⟩) below
  /-- A future for access is made. -/
  | acquire {m : Machine} {w : World} {context : Context} {below : List Frame} {handle : Nat}
      {lock : LockId} {mode : Mode} {name : String}
      (h : m.Begins w context (.acquire handle mode name) below)
      (hlock : w.lockOf? handle = some lock) :
      Executes m w.newChannel.1 lock mode (.sender w.newChannel.2)
        (.acquiring name w.newChannel.2 :: below)
  /-- A future with work is polled for the first time. -/
  | run {m : Machine} {w : World} {context : Context} {below : List Frame} {name : String}
      {work : Work} (h : m.Begins w context (.poll name) below)
      (hstored : w.futures.get? name = some (.run work .unstarted)) :
      Executes m { w with futures := w.futures.remove name }.newChannel.1 work.lock work.mode
        (.sender w.newChannel.2) (.awaiting name work w.newChannel.2 :: below)

namespace Executes

theorem next (h : m.Executes w lock mode entry below) :
    Next m (ofMove (w.submit lock mode entry) below) := by
  cases h with
  | @task w context below handle lock mode tag body ending quiet h hlock =>
    -- the handle means the lock, so the submission is all that is done
    have hperform : w.perform context (.submit handle mode tag body ending quiet) =
        w.submit lock mode (.task ⟨handle, tag, body, ending, quiet⟩) := by
      simp [World.perform, World.withLock, hlock]
    exact hperform ▸ h.next
  | @acquire w context below handle lock mode name h hlock =>
    -- the new channel is made first, and the acquiring frame comes below the submission
    have hperform : w.perform context (.acquire handle mode name) =
        (w.newChannel.1.submit lock mode (.sender w.newChannel.2)).before
          [.acquiring name w.newChannel.2] := by
      simp [World.perform, World.withLock, hlock, World.acquire]
    have hnext := h.next
    rw [hperform] at hnext
    simpa [ofMove] using hnext
  | @run w context below name work h hstored =>
    -- the first poll takes the future out of the table and submits for it
    have hperform : w.perform context (.poll name) =
        ({ w with futures := w.futures.remove name }.newChannel.1.submit work.lock work.mode
          (.sender w.newChannel.2)).before [.awaiting name work w.newChannel.2] := by
      simp only [World.perform, World.poll, hstored]
      rfl
    have hnext := h.next
    rw [hperform] at hnext
    simpa [ofMove] using hnext

/-- The lock exists, and whoever is to get the capability waits for it. -/
theorem lock_lt (h : m.Executes w lock mode entry below) (hm : m.Reachable) :
    lock < w.locks.length ∧ w.Hears entry := by
  -- a handle means a lock that is there, and so does the work of a stored future
  cases h with
  | task h hlock => exact ⟨(h.wellFormed hm).lock_lt hlock, trivial⟩
  | @acquire w context below handle lock mode name h hlock =>
    exact ⟨(h.wellFormed hm).lock_lt hlock, none, w.channel_newChannel_self⟩
  | @run w context below name work h hstored =>
    have hsupports := (h.wellFormed hm).futures _ (Table.mem_of_get? hstored)
    have hopen := World.channel_newChannel_self { w with futures := w.futures.remove name }
    exact ⟨hsupports.2 _ rfl, none, hopen⟩

end Executes

/-! ## The answer of a loop -/

/-- A loop that goes on remembers the first answer that it got, and returns it in the end. -/
theorem step_loop (w : World) (lock : LockId) (outcome : Option Reply) (below : List Frame)
    (reply : Reply) :
    (∃ above, (step ⟨w, .dispatching lock outcome :: below, .returned reply⟩).frames =
        above ++ .dispatching lock (some (outcome.getD reply)) :: below) ∨
      ∃ v, step ⟨w, .dispatching lock outcome :: below, .returned reply⟩ =
        ⟨v, below, .returned (outcome.getD reply)⟩ := by
  rw [step_returned, Frame.resume, World.dispatch]
  -- a request is taken and started above the loop, or the list is empty and the loop returns
  cases hnext : (w.lock lock).next w.thread with
  | none => exact .inr ⟨_, rfl⟩
  | some found =>
    obtain ⟨r, l⟩ := found
    exact .inl ⟨((w.setLock lock l).start lock r).frames, by simp [ofMove]⟩

namespace ComesTo

/-- A loop returns the answer that it remembers. -/
theorem remembered {above : List Frame} (h : m.ComesTo x)
    (hm : m.frames = above ++ .dispatching lock (some reply) :: x.frames)
    (hreturned : x.HasReturned) : x.control = .returned reply := by
  -- along the run: above the loop it does not matter what is done,
  -- and on top of it the answer is kept
  induction h generalizing above with
  | here m =>
    have hlength := congrArg List.length hm
    simp only [List.length_append, List.length_cons] at hlength
    omega
  | @step m x f covering hframes h ih =>
    cases above with
    | cons f' above =>
      rcases frames_step hm with ⟨pushed, hpushed⟩ | hsame
      · have hcovered : m.step.frames =
            (pushed ++ above) ++ .dispatching lock (some reply) :: x.frames := by
          simpa using hpushed
        exact ih hcovered hreturned
      · exact ih (hsame ▸ hm) hreturned
    | nil =>
      obtain ⟨w, frames, control⟩ := m
      obtain rfl : frames = .dispatching lock (some reply) :: x.frames := hm
      cases control with
      | returned last =>
        rcases step_loop w lock (some reply) x.frames last with ⟨above, habove⟩ | ⟨v, hstep⟩
        · exact ih habove hreturned
        · rw [hstep] at h
          rw [← h.eq_of_frames rfl]
          rfl
      -- a loop that is left by a fault does not return
      | unwinding fault =>
        have hunwound : (Machine.step ⟨w, .dispatching lock (some reply) :: x.frames,
            .unwinding fault⟩).frames =
              [.handingBack lock _] ++ .rethrowing fault :: x.frames := rfl
        exact absurd hunwound (h.not_rethrowing hreturned _ _)
      | aborted =>
        obtain ⟨last, hlast⟩ := hreturned
        have hnot := h.not_aborted (by simp [hlast])
        exact absurd (by simp) hnot

/-- Whatever the loop of a submission starts after its own entry point, it returns the answer of
    that. -/
theorem answered (h : m.ComesTo x) (hm : m.frames = w.loopUnder lock ++ x.frames)
    (hcontrol : m.control = .returned reply) (hreturned : x.HasReturned) :
    x.control = .returned reply := by
  obtain ⟨v, frames, control⟩ := m
  cases hcontrol
  -- without a loop of its own the submission has its answer at once
  rcases w.loopUnder_cases lock with hloop | hloop
  · rw [hloop] at hm
    rw [← h.eq_of_frames hm]
  · rw [hloop] at hm
    obtain rfl : frames = .dispatching lock none :: x.frames := hm
    -- the loop takes up the answer as the first one that it hears
    have hcovered : Frame.dispatching lock none :: x.frames =
        .dispatching lock none :: [] ++ x.frames := rfl
    have hrest :
        (Machine.step ⟨v, .dispatching lock none :: x.frames, .returned reply⟩).ComesTo x :=
      h.next hcovered
    rcases step_loop v lock none x.frames reply with ⟨above, habove⟩ | ⟨u, hstep⟩
    · exact hrest.remembered habove hreturned
    · rw [hstep] at hrest
      rw [← hrest.eq_of_frames rfl]
      rfl

end ComesTo

/-! ## The own entry point -/

theorem Fails.frames (hf : m.Fails v g t fault below) :
    m.frames = .finishing g t :: .invocation g :: below := by
  cases hf <;> rfl

/-- A failure is the answer of its boundary, and its grant has ended by then. -/
theorem Fails.answers (hf : m.Fails v g t fault x.frames) (h : m.Reachable) (hx : m.ComesTo x)
    (hreturned : x.HasReturned) :
    x.control = .returned (.failed (fault.failure g.id g.mode)) ∧
      g ∈ (x.world.journal g.lock).ended := by
  -- a failure that panics again leaves the boundary unwinding, so it does not return
  cases hbomb : fault.bomb? with
  | some message =>
    obtain ⟨last, hlast⟩ := hreturned
    rw [← (hf.comesTo_bomb h hbomb).unique hx rfl] at hlast
    cases hlast
  | none =>
    rw [← (hf.comesTo_contained h hbomb).unique hx rfl]
    -- contained, the failure is the answer, and the boundary has ended the grant
    have hboundary := h.reaches (hf.comesTo_boundary h).reaches
    have hafter : (v.dropOwned g).world.Running g := hboundary.running [] rfl (by simp)
    have hafter' : (v.afterBody g).Running g := ⟨hafter.knows, hafter.loop, hafter.ended⟩
    exact ⟨rfl, World.mem_ended_contained hafter' _⟩

/-- An entry point that has done its actions fails, or its boundary answers that all went well. -/
theorem Reachable.fails_or_ok (h : m.Reachable)
    (hm : m.frames = .finishing g t :: .invocation g :: x.frames) (hx : m.ComesTo x)
    (hreturned : x.HasReturned) :
    (∃ v fault, m.Fails v g t fault x.frames) ∨ x.control = .returned .ok := by
  have hrunning := h.running [.finishing g t] hm (by simp [Frame.isPlain])
  obtain ⟨w, frames, control⟩ := m
  obtain rfl : frames = .finishing g t :: .invocation g :: x.frames := hm
  cases control with
  -- a panic is a failure of the entry point as it stands
  | unwinding fault => exact .inl ⟨w, fault, .panics⟩
  | aborted =>
    obtain ⟨last, hlast⟩ := hreturned
    have hnot := hx.not_aborted (by simp [hlast])
    exact absurd rfl hnot
  | returned reply =>
    cases hfault : t.ending.fault? with
    | some fault => exact .inl ⟨_, fault, .returns hfault⟩
    -- no fault is planned for the end, so three returns lead out of the boundary
    | none =>
      right
      obtain ⟨u, hu, hloop, hid⟩ : ∃ u, u = (if t.quiet then w else w.emit (.ended t.tag)) ∧
          (u.lock g.lock).isDispatching u.thread = true ∧ g.lock < u.locks.length := by
        refine ⟨_, rfl, ?_⟩
        split <;> exact ⟨hrunning.loop, hrunning.knows.1⟩
      have hdrop := World.dropOwned_inPlace hloop hid
      have hstep : (⟨w, .finishing g t :: .invocation g :: x.frames, .returned reply⟩ :
          Machine).step = ⟨(u.dropOwned g).world,
            .concluding none :: .invocation g :: x.frames, .returned .nothing⟩ := by
        rw [step_returned, Frame.resume, ← hu, hdrop, hfault]
        rfl
      have hcomes : ComesTo ⟨w, .finishing g t :: .invocation g :: x.frames, .returned reply⟩
          ⟨(u.dropOwned g).world.leaveSpan, x.frames, .returned .ok⟩ := by
        refine .step (.finishing g t) [.invocation g] rfl (hstep ▸ ?_)
        refine .step (.concluding none) [.invocation g] rfl ?_
        exact .step (.invocation g) [] rfl (.here _)
      rw [← hcomes.unique hx rfl]

/-- A request is granted by its own submission, which is then at the given machine, and its entry
    point fails before the submission returns. -/
structure OwnFailure (w : World) (lock : LockId) (mode : Mode) (entry : Entry)
    (below : List Frame) (x : Machine) (g : Grant) (fault : Fault) : Prop where
  granted : ∃ l r, (w.lock lock).submit mode entry = (l, .granted r) ∧ r.grant lock = g
  /-- The failing entry point lies where the submission has put it. -/
  fails : ∃ t z v, entry = .task t ∧ (ofMove (w.submit lock mode entry) below).ComesTo z ∧
    z.ComesTo x ∧ z.Fails v g t fault (w.loopUnder lock ++ below)

section OwnFailure

variable {w : World} {lock : LockId} {mode : Mode} {entry : Entry} {below : List Frame}

/-- The own failure is the answer of the submission, and the grant has ended. -/
theorem OwnFailure.answers (hfail : OwnFailure w lock mode entry x.frames x g fault)
    (h : (ofMove (w.submit lock mode entry) x.frames).Reachable) (hreturned : x.HasReturned) :
    x.control = .returned (.failed (fault.failure g.id g.mode)) ∧
      g ∈ (x.world.journal g.lock).ended := by
  obtain ⟨-, t, z, v, -, hz, hzx, hf⟩ := hfail
  have hreach := h.reaches hz.reaches
  have hframes : z.frames = [.finishing g t, .invocation g] ++ (w.loopUnder lock ++ x.frames) :=
    hf.frames
  -- the entry point ends first, and what the loop runs after it cannot change the answer
  obtain ⟨y, hzy, hyx, hy, hback⟩ := hzx.of_invoked hframes (w.loopUnder_cases lock) hreturned
  rw [← hy] at hf
  obtain ⟨hcontrol, hended⟩ := hf.answers hreach hzy hback
  refine ⟨hyx.answered hy hcontrol hreturned, ?_⟩
  exact (hreach.reaches hzy.reaches).mem_occurrences hyx.reaches hended

variable {l : Lock Entry} {r : Request Entry}

/-- A request that is granted on the spot is answered with the failure of its own entry point, or
    with `ok`. -/
theorem own_or_ok (h : (ofMove (w.submit lock mode entry) x.frames).Reachable)
    (hid : lock < w.locks.length) (hhears : w.Hears entry)
    (hsubmit : (w.lock lock).submit mode entry = (l, .granted r))
    (hx : (ofMove (w.submit lock mode entry) x.frames).ComesTo x) (hreturned : x.HasReturned) :
    (∃ g fault, OwnFailure w lock mode entry x.frames x g fault) ∨ x.control = .returned .ok := by
  cases entry with
  | task t =>
    obtain ⟨f, hf⟩ := World.frames_submit_task hid hsubmit
    have hframes : (ofMove (w.submit lock mode (.task t)) x.frames).frames =
        [f] ++ ([.finishing (r.grant lock) t, .invocation (r.grant lock)] ++ w.loopUnder lock ++
          x.frames) := by
      simp [ofMove, hf]
    -- the run passes the moment when the actions of the entry point are done
    obtain ⟨z, hz, hmz, hzx⟩ := hx.split hframes
    have hreach := h.reaches hmz.reaches
    obtain ⟨y, hzy, hyx, hy, hback⟩ :=
      hzx.of_invoked (hz.trans (List.append_assoc _ _ _)) (w.loopUnder_cases lock) hreturned
    have hz' : z.frames =
        .finishing (r.grant lock) t :: .invocation (r.grant lock) :: y.frames := by
      rw [hz, hy]
      simp
    -- what happens at the end of the entry point decides
    rcases hreach.fails_or_ok hz' hzy hback with ⟨v, fault, hfails⟩ | hok
    · rw [hy] at hfails
      exact .inl ⟨_, fault, ⟨l, r, hsubmit, rfl⟩, t, z, v, rfl, hmz, hzx, hfails⟩
    · exact .inr (hyx.answered hy hok hreturned)
  | sender c =>
    obtain ⟨hframes, hcontrol⟩ := World.submit_sender hid hhears hsubmit
    -- a sender has nothing that could fail: its start is over at once
    right
    obtain ⟨v, hv⟩ : ∃ v, ofMove (w.submit lock mode (.sender c)) x.frames =
        ⟨v, .invocation (r.grant lock) :: (w.loopUnder lock ++ x.frames), .returned .nothing⟩ := by
      refine ⟨(w.submit lock mode (.sender c)).world, ?_⟩
      simp [ofMove, hframes, hcontrol]
    rw [hv] at hx
    have hrest : ComesTo ⟨v.leaveSpan, w.loopUnder lock ++ x.frames, .returned .ok⟩ x :=
      hx.next (f := .invocation (r.grant lock)) rfl
    exact hrest.answered rfl rfl hreturned

/-- It fails as the entry point of the next grant. -/
theorem OwnFailure.eq_nextGrant (hfail : OwnFailure w lock mode entry below x g fault) :
    g = w.nextGrant lock mode := by
  obtain ⟨l, r, hsubmit, rfl⟩ := hfail.granted
  obtain ⟨-, -, rfl, -⟩ := Lock.submit_granted hsubmit
  rfl

/-- What a submission answers, by what has become of the request. -/
inductive Replies (w : World) (lock : LockId) (mode : Mode) (entry : Entry) (x : Machine) :
    Reply → Prop where
  | rejected {l : Lock Entry} {refused : Entry} {limit : Nat}
      (h : (w.lock lock).submit mode entry = (l, .rejected refused limit)) :
      Replies w lock mode entry x (.failed (.queueFull limit))
  | failed {fault : Fault}
      (h : OwnFailure w lock mode entry x.frames x (w.nextGrant lock mode) fault) :
      Replies w lock mode entry x (.failed (fault.failure (w.lock lock).core.nextId mode))
  | ok (haccepted : ∀ l refused limit,
        (w.lock lock).submit mode entry ≠ (l, .rejected refused limit))
      (hwell : ∀ g fault, ¬OwnFailure w lock mode entry x.frames x g fault) :
      Replies w lock mode entry x .ok

/-- A failure is that of the queue or that of the own entry point. -/
theorem Replies.failed_cases {failure : Failure}
    (h : Replies w lock mode entry x (.failed failure)) :
    (∃ l refused limit, (w.lock lock).submit mode entry = (l, .rejected refused limit) ∧
      failure = .queueFull limit) ∨
    ∃ fault, OwnFailure w lock mode entry x.frames x (w.nextGrant lock mode) fault ∧
      failure = fault.failure (w.lock lock).core.nextId mode := by
  cases h with
  | rejected hsubmit => exact .inl ⟨_, _, _, hsubmit, rfl⟩
  | failed hfail => exact .inr ⟨_, hfail, rfl⟩

/-- There is no other answer. -/
theorem Executes.replies (hexec : m.Executes w lock mode entry x.frames) (h : m.Reachable)
    (hx : (ofMove (w.submit lock mode entry) x.frames).ComesTo x)
    (hreply : x.control = .returned reply) : Replies w lock mode entry x reply := by
  have hstart := h.reaches (.single hexec.next)
  obtain ⟨hid, hhears⟩ := hexec.lock_lt h
  cases hsubmit : (w.lock lock).submit mode entry with
  | mk l submission =>
    cases submission with
    -- turned away, the submission has nothing on the stack and is answered at once
    | rejected refused limit =>
      have hend : ofMove (w.submit lock mode entry) x.frames = x := by
        refine hx.eq_of_frames ?_
        rw [World.submit_of_rejected hsubmit]
        rfl
      rw [← hend, World.submit_of_rejected hsubmit] at hreply
      cases hreply
      exact .rejected hsubmit
    -- so it is when the request has to wait
    | queued n pending =>
      have hend : ofMove (w.submit lock mode entry) x.frames = x := by
        refine hx.eq_of_frames ?_
        rw [World.submit_of_queued hsubmit]
        rfl
      rw [← hend, World.submit_of_queued hsubmit] at hreply
      cases hreply
      refine .ok (by simp [hsubmit]) fun g fault hfail => ?_
      obtain ⟨l', r, hgranted, -⟩ := hfail.granted
      rw [hsubmit] at hgranted
      cases hgranted
    | granted r =>
      -- granted on the spot, the answer hangs on what the own entry point does
      by_cases hown : ∃ g fault, OwnFailure w lock mode entry x.frames x g fault
      · obtain ⟨g, fault, hfail⟩ := hown
        obtain rfl := hfail.eq_nextGrant
        obtain ⟨hcontrol, -⟩ := hfail.answers hstart ⟨_, hreply⟩
        cases hreply.symm.trans hcontrol
        exact .failed hfail
      · have hok := (own_or_ok hstart hid hhears hsubmit hx ⟨_, hreply⟩).resolve_left hown
        cases hreply.symm.trans hok
        exact .ok (by simp [hsubmit]) fun g fault hfail => hown ⟨g, fault, hfail⟩

end OwnFailure

/-! ## Nothing leaves a call -/

/-- The fault that arrives at the boundary of an entry point, if one does. -/
def atBoundary? (m : Machine) : Option Fault :=
  match m.frames, m.control with
  | .invocation _ :: _, .unwinding fault => some fault
  | _, _ => none

/-- Whatever arrives at the boundary of an entry point on the way can be destroyed. -/
def Defused (m x : Machine) : Prop :=
  ∀ y fault, m.Steps y → y.ComesTo x → y.atBoundary? = some fault → fault.bomb? = none

/-- A run to its end can be looked at step by step. -/
theorem Defused.of_iterate {n : Nat} (hlast : (step^[n] m).frames = [])
    (hsteps : ∀ k < n, (step^[k] m).atBoundary?.bind Fault.bomb? = none) : m.Defused x := by
  rintro y fault ⟨k, rfl⟩ - hfault
  -- on the run itself it was looked at, and after its end the machine stands still
  rcases Nat.lt_or_ge k n with hk | hk
  · have hstep := hsteps k hk
    rwa [hfault, Option.bind_some] at hstep
  · have hfixed : (step^[n] m).step = step^[n] m := by
      generalize step^[n] m = y at hlast
      obtain ⟨w, frames, control⟩ := y
      obtain rfl : frames = [] := hlast
      rw [step_nil]
    obtain ⟨more, rfl⟩ := Nat.exists_eq_add_of_le' hk
    rw [Function.iterate_add_apply, Function.iterate_fixed hfixed, atBoundary?, hlast] at hfault
    cases hfault

/-- A submission, a release or the drop of a capability has just begun above the given stack. -/
inductive Enters : Machine → List Frame → Prop where
  | submits {w : World} {lock : LockId} (hid : lock < w.locks.length) (mode : Mode) (entry : Entry)
      (below : List Frame) : Enters (ofMove (w.submit lock mode entry) below) below
  | releases (w : World) (g : Grant) (below : List Frame) :
      Enters (ofMove (w.release g).1 below) below
  | drops (w : World) (g : Grant) (below : List Frame) : Enters (ofMove (w.endGrant g) below) below

/-- The frames are a single loop, or there are none. -/
def OneLoop (loop : List Frame) : Prop :=
  loop = [] ∨ ∃ lock outcome, loop = [.dispatching lock outcome]

theorem oneLoop_schedule (w : World) (lock : LockId) (batch : List (Request Entry)) :
    OneLoop (w.schedule lock batch).frames := by
  unfold World.schedule
  dsimp only
  split
  · exact .inr ⟨_, _, rfl⟩
  · exact .inl rfl

/-- No fault has left a call above the given stack: the call has returned, or is at its loop, or
    reports a failure, or an entry point lies right above the loop. -/
inductive Holding (rest : List Frame) : Machine → Prop where
  | inside {w : World} {control : Control} (above : List Frame) (g : Grant) {loop : List Frame}
      (hloop : OneLoop loop) :
      Holding rest ⟨w, above ++ .invocation g :: (loop ++ rest), control⟩
  | reports {w : World} {reply : Reply} (g : Grant) (failure : Failure) {loop : List Frame}
      (hloop : OneLoop loop) :
      Holding rest ⟨w, .reporting g failure :: (loop ++ rest), .returned reply⟩
  | bare {w : World} {reply : Reply} {loop : List Frame} (hloop : OneLoop loop) :
      Holding rest ⟨w, loop ++ rest, .returned reply⟩

/-- A call begins without a fault. -/
theorem Enters.holding (h : m.Enters rest) : m.Holding rest := by
  -- the end of a grant leaves a loop on the stack, or nothing
  have hends : ∀ (w : World) (g : Grant), (ofMove (w.endUnended g) rest).Holding rest := by
    intro w g
    obtain ⟨loop, hloop, hframes, hcontrol⟩ : ∃ loop, OneLoop loop ∧
        (w.endUnended g).frames = loop ∧ (w.endUnended g).control = .returned .nothing := by
      unfold World.endUnended
      dsimp only
      obtain ⟨⟨l, batch⟩, hrelease⟩ :
          ∃ p, ((w.reportHold g).lock g.lock).release g.id g.mode = p := ⟨_, rfl⟩
      rw [hrelease]
      cases batch with
      | nil => exact ⟨[], .inl rfl, rfl, rfl⟩
      | cons front batch => exact ⟨_, oneLoop_schedule _ _ _, rfl, rfl⟩
    rw [ofMove, hframes, hcontrol]
    exact .bare hloop
  cases h with
  | @submits w lock hid mode entry =>
    -- granted on the spot, the entry point lies inside the call; else the call has its answer
    cases hsubmit : (w.lock lock).submit mode entry with
    | mk l submission =>
      cases submission with
      | granted r =>
        obtain ⟨body, hbody⟩ := World.frames_submit_of_granted hid hsubmit
        have hloop : OneLoop (w.loopUnder lock) :=
          (w.loopUnder_cases lock).imp_right fun h => ⟨_, _, h⟩
        rw [ofMove, hbody, List.append_assoc]
        exact .inside body (r.grant lock) hloop
      | queued n pending =>
        rw [World.submit_of_queued hsubmit]
        exact .bare (.inl rfl)
      | rejected refused limit =>
        rw [World.submit_of_rejected hsubmit]
        exact .bare (.inl rfl)
  | releases w g =>
    unfold World.release
    split
    · exact hends w g
    · exact .bare (.inl rfl)
  | drops w g =>
    unfold World.endGrant
    split
    · exact hends w g
    · exact .bare (.inl rfl)

/-- A step lets no fault leave the call, if what arrives at a boundary can be destroyed. -/
theorem Holding.step (hh : m.Holding rest) (h : m.Reachable) (hcovered : m.frames ≠ rest)
    (hdefused : ∀ fault, m.atBoundary? = some fault → fault.bomb? = none) :
    m.step.Holding rest := by
  cases hh with
  | @inside w control above g loop hloop =>
    -- inside of the boundary anything may come, as long as the boundary stays below it
    cases above with
    | cons f above =>
      rcases frames_step (m := ⟨w, _, control⟩) (List.cons_append ..) with ⟨pushed, hpushed⟩ | hsame
      · obtain ⟨v, frames, control', hstep⟩ : ∃ v frames control', Machine.step
            ⟨w, f :: above ++ .invocation g :: (loop ++ rest), control⟩ = ⟨v, frames, control'⟩ :=
          ⟨_, _, _, rfl⟩
        rw [hstep] at hpushed ⊢
        obtain rfl : frames = _ := hpushed
        rw [← List.append_assoc]
        exact .inside (pushed ++ above) g hloop
      · rw [hsame]
        exact .inside (f :: above) g hloop
    | nil =>
      cases control with
      | returned reply => exact .bare hloop
      | unwinding fault =>
        -- here the failure is destroyed, and no second panic comes out of it
        have hbomb : fault.bomb? = none := hdefused fault rfl
        have hstep := h.step_invocation hbomb
        rw [List.nil_append, hstep]
        exact .reports g _ hloop
      | aborted =>
        rw [step_aborted]
        exact .inside [] g hloop
  | reports g failure hloop => exact .bare hloop
  | @bare w reply loop hloop =>
    rcases hloop with rfl | ⟨lock, outcome, rfl⟩
    · exact absurd rfl hcovered
    · show (ofMove (w.dispatch lock (outcome.getD reply)) rest).Holding rest
      -- the loop starts the next one inside the call, or returns
      rw [World.dispatch]
      cases hnext : (w.lock lock).next w.thread with
      | none => exact .bare (.inl rfl)
      | some found =>
        obtain ⟨r, l⟩ := found
        obtain ⟨body, hbody⟩ := (w.setLock lock l).frames_start lock r
        have hframes : (ofMove (((w.setLock lock l).start lock r).before
            [.dispatching lock (some (outcome.getD reply))]) rest).frames =
              body ++ .invocation (r.grant lock) ::
                ([.dispatching lock (some (outcome.getD reply))] ++ rest) := by
          simp [ofMove, hbody]
        rw [ofMove] at hframes ⊢
        simp only at hframes ⊢
        rw [hframes]
        exact .inside body (r.grant lock) (.inr ⟨_, _, rfl⟩)

/-- Unless a failure panics when it is destroyed, no panic leaves a call. -/
theorem Holding.returns (hh : m.Holding x.frames) (h : m.Reachable) (hx : m.ComesTo x)
    (hdefused : m.Defused x) : x.HasReturned := by
  -- along the run to its end; the failures that are met on the way can all be destroyed
  induction hx with
  | here m =>
    generalize hrest : m.frames = rest at hh
    cases hh with
    | inside above g hloop =>
      have hlength := congrArg List.length hrest
      simp only [List.length_append, List.length_cons] at hlength
      omega
    | reports g failure hloop =>
      have hlength := congrArg List.length hrest
      simp only [List.length_append, List.length_cons] at hlength
      omega
    | bare hloop => exact ⟨_, rfl⟩
  | @step m x f above hframes hx ih =>
    -- as long as something of the call is on the stack, the call has not returned
    have hcovered : m.frames ≠ x.frames := by
      intro heq
      have hlength := congrArg List.length (hframes.symm.trans heq)
      simp only [List.length_append, List.length_cons] at hlength
      omega
    have hnow : ∀ fault, m.atBoundary? = some fault → fault.bomb? = none := fun fault =>
      hdefused m fault (.refl m) (.step f above hframes hx)
    exact ih (hh.step h hcovered hnow) (h.reaches (.single (.step m)))
      fun y fault hy => hdefused y fault hy.head

/-! ## Releases -/

/-- What answers once all above it is done. -/
theorem ComesTo.answering {above : List Frame} (h : m.ComesTo x)
    (hm : m.frames = above ++ .answering reply :: x.frames) (hreturned : x.HasReturned) :
    x.control = .returned reply := by
  -- the run passes the moment when the frame is on top
  have hsplit : m.frames = above ++ ([.answering reply] ++ x.frames) := hm
  obtain ⟨⟨v, frames, control⟩, hframes, -, hrest⟩ := h.split hsplit
  obtain rfl : frames = .answering reply :: x.frames := hframes
  have hcovered : Frame.answering reply :: x.frames = .answering reply :: [] ++ x.frames := rfl
  have hstep := hrest.next hcovered
  obtain ⟨last, hlast⟩ := hreturned
  cases control with
  | returned first =>
    have hend : (⟨v, x.frames, .returned reply⟩ : Machine) = x := hstep.eq_of_frames rfl
    rw [← hend]
  | unwinding fault =>
    have hend : (⟨v, x.frames, .unwinding fault⟩ : Machine) = x := hstep.eq_of_frames rfl
    rw [← hend] at hlast
    cases hlast
  | aborted =>
    have hnot := hrest.not_aborted (by simp [hlast])
    exact absurd rfl hnot

/-- A release answers whether it has ended the grant. -/
theorem Begins.release_answers (hm : m.Reachable) {context : Context} {cap : CapRef} {place : Place}
    (h : m.Begins w context (.release cap) x.frames)
    (hcap : w.locate context cap = some (place, g))
    (hx : (ofMove (w.perform context (.release cap)) x.frames).ComesTo x)
    (hreturned : x.HasReturned) :
    x.control = .returned
      (.flag (decide (m.Releases (ofMove (w.perform context (.release cap)) x.frames) g))) := by
  have hperform : w.perform context (.release cap) =
      (w.release g).1.answering (.flag (w.release g).2) := by
    simp [World.perform, World.withCapability, hcap]
  have hknows := World.knows_of_locate (h.wellFormed hm) hcap
  have hlocks : w.locks = m.world.locks := by
    rcases h.logged with rfl | ⟨e, -, rfl⟩ <;> rfl
  have hjournal : w.journal g.lock = m.world.journal g.lock := h.same.2.2 g.lock
  -- the journal of the lock is not touched by the answer that was logged before
  have hiff : w.isUnended g = true ↔ g ∉ (m.world.journal g.lock).ended := by
    have hunended : w.isUnended g = m.world.isUnended g := by
      rw [World.isUnended, h.lock_eq]
      rfl
    rw [hunended]
    exact hm.isUnended_iff ⟨hlocks ▸ hknows.1, hjournal ▸ hknows.2⟩
  have hframes : (ofMove (w.perform context (.release cap)) x.frames).frames =
      (w.release g).1.frames ++ .answering (.flag (w.release g).2) :: x.frames := by
    simp [hperform, ofMove, Move.answering]
  rw [hx.answering hframes hreturned]
  congr 2
  show (w.release g).2 = decide (g ∉ (m.world.journal g.lock).ended ∧
    g ∈ ((w.perform context (.release cap)).world.journal g.lock).ended)
  have hworld : (w.perform context (.release cap)).world = (w.release g).1.world := by
    rw [hperform]
    rfl
  rw [hworld, World.release]
  -- the release is the end of the grant, or the grant has ended before
  split
  · rename_i hunended
    have hended := World.mem_ended_endUnended (w := w) hknows.1
    exact (decide_eq_true ⟨hiff.1 hunended, hended⟩).symm
  · rename_i hunended
    exact (decide_eq_false fun hreleases => hunended (hiff.2 hreleases.1)).symm

end Machine

/-- Errors reach only their own submitter.  Whatever entry points run before a submission returns,
    it answers with an error or a panic exactly if its request was granted on the spot and its own
    entry point failed in this way, and then the grant of this request has ended; it answers that
    the queue is full exactly if it was turned away, and `ok` in all other cases.  If whatever fails
    can be destroyed, no panic leaves a submission, a release or the drop of a capability.  And a
    release answers whether it was the one that has ended the grant. -/
theorem errors_reach_own_submitter {m : Machine} (h : m.Reachable) :
    (∀ {w : World} {lock : LockId} {mode : Mode} {entry : Entry} {below : List Frame} {x : Machine}
      {reply : Reply}, m.Executes w lock mode entry below →
      (Machine.ofMove (w.submit lock mode entry) below).ComesTo x → x.frames = below →
      x.control = .returned reply →
        (∀ n md reason, reply = .failed (.entryFailed n md reason) ↔
          ∃ fault, Machine.OwnFailure w lock mode entry below x ⟨lock, n, md⟩ fault ∧
            fault.isError = true ∧ fault.failure n md = .entryFailed n md reason) ∧
        (∀ n md message, reply = .failed (.entryPanicked n md message) ↔
          ∃ fault, Machine.OwnFailure w lock mode entry below x ⟨lock, n, md⟩ fault ∧
            fault.isError = false ∧ fault.failure n md = .entryPanicked n md message) ∧
        (∀ g fault, Machine.OwnFailure w lock mode entry below x g fault →
          g = w.nextGrant lock mode ∧ g ∈ (x.world.journal lock).ended) ∧
        (∀ limit, reply = .failed (.queueFull limit) ↔
          ∃ l refused, (w.lock lock).submit mode entry = (l, .rejected refused limit)) ∧
        (reply = .ok ↔
          (∀ l refused limit, (w.lock lock).submit mode entry ≠ (l, .rejected refused limit)) ∧
            ∀ g fault, ¬Machine.OwnFailure w lock mode entry below x g fault)) ∧
    (∀ {rest : List Frame} {x : Machine}, m.Enters rest → m.ComesTo x → x.frames = rest →
      m.Defused x → x.HasReturned) ∧
    ∀ {w : World} {context : Context} {cap : CapRef} {place : Place} {g : Grant}
      {below : List Frame} {x : Machine} {reply : Reply}, m.Begins w context (.release cap) below →
      w.locate context cap = some (place, g) →
      (Machine.ofMove (w.perform context (.release cap)) below).ComesTo x → x.frames = below →
      x.control = .returned reply →
        reply = .flag (decide
          (m.Releases (Machine.ofMove (w.perform context (.release cap)) below) g)) := by
  refine ⟨?submission, ?leaves, ?release⟩
  case submission =>
    intro w lock mode entry below x reply hexec hx hbelow hreply
    subst hbelow
    have hstart := h.reaches (.single hexec.next)
    -- who answers for its own entry point answers with its failure
    have hown : ∀ {g fault}, Machine.OwnFailure w lock mode entry x.frames x g fault →
        reply = .failed (fault.failure g.id g.mode) ∧ g ∈ (x.world.journal g.lock).ended := by
      intro g fault hfail
      obtain ⟨hcontrol, hended⟩ := hfail.answers hstart ⟨_, hreply⟩
      exact ⟨Control.returned.inj (hreply.symm.trans hcontrol), hended⟩
    have hreplies := hexec.replies h hx hreply
    refine ⟨fun n md reason => ⟨?_, ?_⟩, fun n md message => ⟨?_, ?_⟩, ?_, fun limit => ⟨?_, ?_⟩,
      ?_, ?_⟩
    -- a failure that is an error is not one of a panic, which the two names keep apart
    · rintro rfl
      obtain ⟨_, _, _, _, hfull⟩ | ⟨fault, hfail, hfailure⟩ := hreplies.failed_cases
      · cases hfull
      obtain ⟨herror, reason', hfault⟩ | ⟨-, message, hfault⟩ :=
        fault.failure_cases (w.lock lock).core.nextId mode
      · cases hfailure.trans hfault
        exact ⟨fault, hfail, herror, hfault⟩
      · cases hfailure.trans hfault
    · rintro ⟨fault, hfail, -, hfault⟩
      rw [(hown hfail).1, hfault]
    -- the same with the roles exchanged
    · rintro rfl
      obtain ⟨_, _, _, _, hfull⟩ | ⟨fault, hfail, hfailure⟩ := hreplies.failed_cases
      · cases hfull
      obtain ⟨-, reason, hfault⟩ | ⟨hpanic, message', hfault⟩ :=
        fault.failure_cases (w.lock lock).core.nextId mode
      · cases hfailure.trans hfault
      · cases hfailure.trans hfault
        exact ⟨fault, hfail, hpanic, hfault⟩
    · rintro ⟨fault, hfail, -, hfault⟩
      rw [(hown hfail).1, hfault]
    · intro g fault hfail
      obtain rfl := hfail.eq_nextGrant
      exact ⟨rfl, (hown hfail).2⟩
    -- that the queue is full is no failure of an entry point
    · rintro rfl
      obtain ⟨l, refused, limit', hsubmit, hfull⟩ | ⟨fault, -, hfailure⟩ := hreplies.failed_cases
      · cases hfull
        exact ⟨l, refused, hsubmit⟩
      obtain ⟨-, reason, hfault⟩ | ⟨-, message, hfault⟩ :=
        fault.failure_cases (w.lock lock).core.nextId mode
      · cases hfailure.trans hfault
      · cases hfailure.trans hfault
    · rintro ⟨l, refused, hsubmit⟩
      cases hreplies with
      | rejected hsubmit' =>
        cases hsubmit.symm.trans hsubmit'
        rfl
      | ok haccepted hwell => exact absurd hsubmit (haccepted _ _ _)
      | failed hfail =>
        obtain ⟨l', r, hgranted, -⟩ := hfail.granted
        cases hsubmit.symm.trans hgranted
    -- the three answers exclude each other, so what is left is that all went well
    · rintro rfl
      cases hreplies with
      | ok haccepted hwell => exact ⟨haccepted, hwell⟩
    · rintro ⟨haccepted, hwell⟩
      cases hreplies with
      | rejected hsubmit => exact absurd hsubmit (haccepted _ _ _)
      | failed hfail => exact absurd hfail (hwell _ _)
      | ok => rfl
  case leaves =>
    intro rest x henters hx hrest hdefused
    subst hrest
    exact henters.holding.returns h hx hdefused
  case release =>
    intro w context cap place g below x reply hbegins hcap hx hbelow hreply
    subst hbelow
    have hanswer := hbegins.release_answers h hcap hx ⟨_, hreply⟩
    exact Control.returned.inj (hreply.symm.trans hanswer)

/-! ## A panic after a release -/

/-- A writer releases its grant and panics. -/
def releasingPanic : Action :=
  .submit 0 .write "writer" (.actions [.release .own, .panic (.panic "boom")]) .done true

/-- The machine that performs this on one lock, after some steps. -/
def releasingPanicAfter (n : Nat) : Machine :=
  Machine.step^[n] (Machine.begin (World.initial [{}] []) releasingPanic)

/-- The panic is the answer of the submission, and nothing else leaves it; the release inside has
    ended the grant. -/
theorem errors_reach_own_submitter_releasingPanic :
    (∃ fault, Machine.OwnFailure (World.initial [{}] []) 0 .write
        (.task ⟨0, "writer", .actions [.release .own, .panic (.panic "boom")], .done, true⟩) []
        (releasingPanicAfter 9) ⟨0, 1, .write⟩ fault ∧ fault.isError = false) ∧
      (releasingPanicAfter 9).HasReturned ∧
      (releasingPanicAfter 0).Releases (releasingPanicAfter 1) ⟨0, 1, .write⟩ := by
  -- the machine that has run the entry point is reached by computing nine steps
  have hfresh : (Machine.idle (World.initial [{}] [])).Reachable := ⟨[{}], [], .refl⟩
  have hstart : (releasingPanicAfter 0).Reachable := Machine.reachable_iterate _ _ _ 0
  have hcomes : (releasingPanicAfter 0).ComesTo (releasingPanicAfter 9) :=
    .of_iterate (n := 9) (List.append_nil _).symm (by decide) rfl
  refine ⟨?_, ?_, ?_⟩
  · have hexec : (Machine.idle (World.initial [{}] [])).Executes (World.initial [{}] []) 0 .write
        (.task ⟨0, "writer", .actions [.release .own, .panic (.panic "boom")], .done, true⟩) [] :=
      .task (.call _ (by simp)) rfl
    obtain ⟨-, hpanicked, -⟩ := (errors_reach_own_submitter hfresh).1 hexec hcomes rfl rfl
    obtain ⟨fault, hfail, hpanic, -⟩ := (hpanicked 1 .write "boom").1 rfl
    exact ⟨fault, hfail, hpanic⟩
  · have hid : 0 < (World.initial [{}] []).locks.length := by decide
    have henters : (releasingPanicAfter 0).Enters [] := .submits hid .write
      (.task ⟨0, "writer", .actions [.release .own, .panic (.panic "boom")], .done, true⟩) []
    have hdefused : (releasingPanicAfter 0).Defused (releasingPanicAfter 9) :=
      .of_iterate (n := 9) rfl (by decide)
    exact (errors_reach_own_submitter hstart).2.1 henters hcomes rfl hdefused
  · obtain ⟨w, context, below, hbegins, hcap, hnext⟩ : ∃ w context below,
        (releasingPanicAfter 0).Begins w context (.release .own) below ∧
          w.locate context .own = some (.owned, ⟨0, 1, .write⟩) ∧
          Machine.ofMove (w.perform context (.release .own)) below = releasingPanicAfter 1 ∧
          below = (releasingPanicAfter 2).frames :=
      ⟨_, _, _, .action, rfl, rfl, rfl⟩
    have hback : (releasingPanicAfter 1).ComesTo (releasingPanicAfter 2) :=
      .step _ [] rfl (.here _)
    have hreply : (releasingPanicAfter 2).control = .returned (.flag true) := rfl
    have hflag := (errors_reach_own_submitter hstart).2.2 hbegins hcap (hnext.1 ▸ hback)
      hnext.2.symm hreply
    rw [hnext.1] at hflag
    exact of_decide_eq_true (Reply.flag.inj hflag).symm

end FairLock
