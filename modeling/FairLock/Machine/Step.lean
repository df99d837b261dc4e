import FairLock.Machine.Perform

/-!
# Steps

The machine takes the topmost frame off its stack and lets it do its one step: `Frame.resume` after
a return, `Frame.unwind` after a fault.  A step looks at no frame but the topmost, so what lies
below is a context that a run does not depend on.

An entry point is contained by its `invocation` frame.  A fault that arrives there ends the grant,
is counted and reported, and becomes the answer of the invocation; but destroying a bomb panics
right there, before the grant is ended, and that panic is not contained.

While a fault unwinds the stack, a frame that has to clean up puts the cleaning up on the stack,
above a `rethrowing` frame.  A panic that leaves such a clean-up meets the fault that is waiting
below and aborts the machine.

## Main definitions

- `Frame.resume`, `Frame.unwind`: the step of one frame.
- `Machine.step`: the step of a machine.
-/

namespace FairLock

namespace World

/-- Log the answer to an action, unless there is nothing to say or nobody listens. -/
def logReply (w : World) (context : Context) (last : Option String) (reply : Reply) : World :=
  match last with
  | none => w
  | some word =>
    if reply.isNothing || context.quiet then w else w.emit (.acted context.tag word reply)

/-- Begin the next action of a list. -/
def nextAction (w : World) (context : Context) : List Action → Move
  | [] => w.reply .nothing
  | a :: rest => (w.perform context a).before [.actions context (some a.word) rest]

/-- Go on with the loop that works off the run list of the running thread for a lock. -/
def dispatch (w : World) (lock : LockId) (outcome : Reply) : Move :=
  match (w.lock lock).next w.thread with
  | some (r, l) => ((w.setLock lock l).start lock r).before [.dispatching lock (some outcome)]
  | none => (w.setLock lock ((w.lock lock).close w.thread).1).reply outcome

/-- Unwind the loop of a thread: its run list is given up, and the grants on it are handed back. -/
def unwindDispatch (w : World) (lock : LockId) (fault : Fault) : Move :=
  let (l, leftover) := (w.lock lock).close w.thread
  { world := w.setLock lock l, frames := [.handingBack lock leftover, .rethrowing fault] }

/-- Hand back the grants of requests that will not be started. -/
def handBack (w : World) (lock : LockId) : List (Request Entry) → Move
  | [] => { world := w }
  | r :: rest =>
    let g : Grant := ⟨lock, r.id, r.mode⟩
    (w.endGrant g).before [.discarding g r.payload, .handingBack lock rest]

/-- Contain a fault that has left an entry point.  First the text of the fault is taken, which by
    assumption always succeeds.  Destroying a bomb comes before the grant is ended, and its panic
    goes on unwinding. -/
def contain (w : World) (g : Grant) (fault : Fault) : Move :=
  match fault.bomb? with
  -- the grant stays as it is: whoever has the capability still has to end it
  | some message => { world := w, control := .unwinding (.panic message) }
  | none => (w.endGrant g).before [.reporting g (fault.failure g.id g.mode)]

/-- Count and report a contained failure, and answer with it. -/
def reportFailure (w : World) (g : Grant) (failure : Failure) : Move :=
  let w := w.setLock g.lock (w.lock g.lock).countFailure
  let w := if (w.lock g.lock).config.logFailures then w.notify (.entryFailed g failure) else w
  w.reply (.failed failure)

/-- Go on with the work of a future.  At its end the grant is released. -/
def work (w : World) (name : String) (work : Work) (g : Grant) : List Action → Move
  | [] => (w.release g).1.answering (.done work.output)
  | .pause :: rest => w.suspend name (.run work (.working g rest))
  | a :: rest =>
    (w.perform { tag := name } a).before [.working name work g (some a.word) rest]

/-- Leave a thread: the thread that waits for it goes on. -/
def join (w : World) (thread : ThreadId) (entered : List Grant) : World :=
  { w with thread := thread, entered := entered }

end World

namespace Frame

/-- What a frame does when the frame above it has returned. -/
def resume (w : World) (reply : Reply) : Frame → Move
  | actions context last rest => (w.logReply context last reply).nextAction context rest
  | answering answer => w.reply answer
  | finishing g t =>
    -- the own capability goes before the outcome does
    ((if t.quiet then w else w.emit (.ended t.tag)).dropOwned g).before
      [.concluding t.ending.fault?]
  | concluding none => w.reply .nothing
  | concluding (some fault) => { world := w, control := .unwinding fault }
  | invocation _ => w.leaveSpan.reply .ok
  | reporting g failure => w.reportFailure g failure
  | dispatching lock outcome => w.dispatch lock (outcome.getD reply)
  | handingBack lock items => w.handBack lock items
  | discarding g entry => { world := w.discard (some g) entry }
  | rethrowing fault => { world := w, control := .unwinding fault }
  | joining thread entered => (w.join thread entered).reply .joined
  | guarding => w.reply .ok
  | iterating _ 0 _ => w.reply .nothing
  | iterating context (times + 1) body =>
    { world := w, frames := [.actions context none body, .iterating context times body] }
  | acquiring name c => w.acquired name c reply
  | awaiting name work c => w.submitted name work c reply
  | working name work g last rest =>
    (w.logReply { tag := name } last reply).work name work g rest
  | droppingWork name => { world := w.emit (.workDropped name) }

/-- What a frame does when the frame above it was unwound. -/
def unwind (w : World) (fault : Fault) : Frame → Move
  | finishing g _ => (w.dropOwned g).before [.rethrowing fault]
  | invocation g => w.leaveSpan.contain g fault
  | dispatching lock _ => w.unwindDispatch lock fault
  -- a second panic while the first is unwinding
  | rethrowing _ => { world := w, control := .aborted }
  | joining thread entered => (w.join thread entered).reply (.unwound fault.text)
  | guarding => w.reply (.unwound fault.text)
  | acquiring _ c => (w.dropReceiver c).before [.rethrowing fault]
  | awaiting name _ c => (w.dropReceiver c).before [.droppingWork name, .rethrowing fault]
  | working name _ g _ _ => ((w.emit (.workDropped name)).endGrant g).before [.rethrowing fault]
  | droppingWork name => { world := w.emit (.workDropped name), control := .unwinding fault }
  -- the others have nothing to clean up
  | _ => { world := w, control := .unwinding fault }

end Frame

/-- A machine: the world, the stack with its topmost frame first, and what is passed to that
    frame. -/
structure Machine where
  world : World
  frames : List Frame
  control : Control

namespace Machine

/-- The machine after a step that took the topmost frame off and left `below`. -/
def ofMove (m : Move) (below : List Frame) : Machine :=
  ⟨m.world, m.frames ++ below, m.control⟩

/-- One step.  A machine without frames, or one that was aborted, stays as it is. -/
def step (m : Machine) : Machine :=
  match m.frames, m.control with
  | frame :: below, .returned reply => ofMove (frame.resume m.world reply) below
  | frame :: below, .unwinding fault => ofMove (frame.unwind m.world fault) below
  | _, _ => m

@[simp] theorem step_returned (w : World) (frame : Frame) (below : List Frame) (reply : Reply) :
    step ⟨w, frame :: below, .returned reply⟩ = ofMove (frame.resume w reply) below := rfl

@[simp] theorem step_unwinding (w : World) (frame : Frame) (below : List Frame) (fault : Fault) :
    step ⟨w, frame :: below, .unwinding fault⟩ = ofMove (frame.unwind w fault) below := rfl

@[simp] theorem step_nil (w : World) (control : Control) :
    step ⟨w, [], control⟩ = ⟨w, [], control⟩ := rfl

@[simp] theorem step_aborted (w : World) (frames : List Frame) :
    step ⟨w, frames, .aborted⟩ = ⟨w, frames, .aborted⟩ := by
  cases frames <;> rfl

/-- What a step does, it does on top of any stack. -/
theorem step_append {m : Machine} (h : m.frames ≠ []) (below : List Frame) :
    step ⟨m.world, m.frames ++ below, m.control⟩ =
      ⟨m.step.world, m.step.frames ++ below, m.step.control⟩ := by
  obtain ⟨w, frames, control⟩ := m
  cases frames with
  | nil => exact absurd rfl h
  | cons frame rest =>
    cases control <;> simp [ofMove]

/-- Is there nothing left to do? -/
def isHalted (m : Machine) : Bool :=
  match m.frames, m.control with
  | [], _ => true
  | _, .aborted => true
  | _, _ => false

/-- The machine that begins an action at top level. -/
def begin (w : World) (a : Action) : Machine := ofMove (w.perform {} a) []

/-- The machine once it is halted, if that takes at most so many steps. -/
def runFor : Nat → Machine → Option Machine
  | 0, m => if m.isHalted then some m else none
  | fuel + 1, m => if m.isHalted then some m else runFor fuel m.step

theorem runFor_of_halted {m : Machine} (h : m.isHalted = true) (fuel : Nat) :
    runFor fuel m = some m := by
  cases fuel <;> simp [runFor, h]

/-- A run that comes to its end gives a halted machine. -/
theorem isHalted_of_runFor {fuel : Nat} {m final : Machine} (h : runFor fuel m = some final) :
    final.isHalted = true := by
  -- a run that has fuel left has stopped because it halted
  induction fuel generalizing m with
  | zero =>
    unfold runFor at h
    split at h
    · cases h
      assumption
    · cases h
  | succ fuel ih =>
    unfold runFor at h
    split at h
    · cases h
      assumption
    · exact ih h

/-- More steps than needed change nothing. -/
theorem runFor_add {fuel : Nat} {m final : Machine} (h : runFor fuel m = some final) (more : Nat) :
    runFor (fuel + more) m = some final := by
  induction fuel generalizing m with
  | zero =>
    unfold runFor at h
    split at h
    · rename_i halted
      cases h
      exact runFor_of_halted halted _
    · cases h
  | succ fuel ih =>
    -- the fuel is used step by step, and what is left over is never looked at
    rw [Nat.succ_add]
    unfold runFor at h ⊢
    split at h
    · rename_i halted
      rw [if_pos halted]
      exact h
    · rename_i running
      rw [if_neg running]
      exact ih h

end Machine

end FairLock
