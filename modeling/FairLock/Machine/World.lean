import FairLock.Machine.Event
import FairLock.Script.Action
import FairLock.Table

/-!
# The machine's world

The world holds everything that outlives a call: the locks and the handles on them, the places
where capabilities are kept, the futures and their channels, the counters, the thread that is
running, and the history.  What has still to be done is a stack of `Frame`s; each frame says what
it does when the frame above it returns or is unwound.

A thread that an action starts is joined at once, so one stack serves all threads: the frames above
a `joining` frame belong to the started thread.

## Main definitions

- `Entry`: what is started when a request is granted.
- `Channel`: the hand-over of a capability from an entry point to a future.
- `Future`: an acquisition, or work that runs while access is held.
- `Frame`, `Control`, `Move`: the stack, what is passed down it, and what one step does.
-/

namespace FairLock

/-- Channels are numbered in the order in which they are created. -/
abbrev ChannelId := Nat

/-- A task as it was submitted. -/
structure Task where
  /-- The handle through which it was submitted. -/
  handle : Nat
  tag : String
  body : Body
  /-- How it ends once its actions are done. -/
  ending : Ending
  /-- Does it keep its start, its end and its actions out of the log? -/
  quiet : Bool

/-- What is started when a request is granted. -/
inductive Entry where
  | task (task : Task)
  /-- A hand-over of the capability through a channel. -/
  | sender (channel : ChannelId)

/-- The hand-over of a capability from an entry point to a future. -/
inductive Channel where
  /-- Nothing was sent.  The future that waits, if its last poll left it pending. -/
  | open (waker : Option String)
  /-- The capability was sent and has not been received. -/
  | sent (grant : Grant)
  /-- The entry point was dropped without sending. -/
  | abandoned
  | taken
  /-- The receiver is gone. -/
  | gone

/-- A request for access as a future sees it. -/
inductive Acquisition where
  /-- The request was accepted; its result comes through a channel. -/
  | accepted (channel : ChannelId)
  /-- The submission failed.  The failure is handed out once. -/
  | refused (failure : Option Failure)

/-- Work that is to be done while access is held. -/
structure Work where
  lock : LockId
  mode : Mode
  body : Body
  output : Json

/-- How far a future with work has come. -/
inductive Stage where
  | unstarted
  /-- It waits for its grant. -/
  | waiting (channel : ChannelId)
  /-- It holds its grant and has these actions left. -/
  | working (grant : Grant) (rest : List Action)

/-- A future. -/
inductive Future where
  /-- It gives a capability. -/
  | acquire (acquisition : Acquisition)
  /-- It does work while it holds a grant. -/
  | run (work : Work) (stage : Stage)

/-- On whose behalf actions run. -/
structure Context where
  tag : String := ""
  /-- The grant of the entry point that runs them, whose capability is the own one. -/
  own : Option Grant := none
  /-- Are their answers kept out of the log? -/
  quiet : Bool := false

/-- What has still to be done on the stack. -/
inductive Frame where
  /-- Log the answer to the last action, then do the rest. -/
  | actions (context : Context) (last : Option String) (rest : List Action)
  | answering (reply : Reply)
  /-- The actions of a task are done: end the task. -/
  | finishing (grant : Grant) (task : Task)
  /-- Return from an entry point, with an error or without. -/
  | concluding (fault : Option Fault)
  /-- The boundary around an entry point, at which its failure is contained. -/
  | invocation (grant : Grant)
  /-- Count and report a contained failure. -/
  | reporting (grant : Grant) (failure : Failure)
  /-- The loop of a thread that works off its run list for a lock.  The outcome is what the loop
      returns; it is that of the entry point started first, if none is given. -/
  | dispatching (lock : LockId) (outcome : Option Reply)
  /-- Hand back the grants that an unwound loop left on its run list. -/
  | handingBack (lock : LockId) (items : List (Request Entry))
  /-- Drop an entry point uncalled. -/
  | discarding (grant : Grant) (entry : Entry)
  /-- Go on unwinding once the cleaning up above is done. -/
  | rethrowing (fault : Fault)
  /-- The end of a thread: the thread that waits for it goes on with its own spans. -/
  | joining (thread : ThreadId) (entered : List Grant)
  | guarding
  /-- Run the body again. -/
  | iterating (context : Context) (times : Nat) (body : List Action)
  /-- Make the future for a request that has been submitted. -/
  | acquiring (future : String) (channel : ChannelId)
  /-- Wait for the grant of a future with work. -/
  | awaiting (future : String) (work : Work) (channel : ChannelId)
  /-- Do the work of a future: log the answer to the last action, then do the rest. -/
  | working (future : String) (work : Work) (grant : Grant) (last : Option String)
      (rest : List Action)
  | droppingWork (future : String)

/-- What is passed down the stack. -/
inductive Control where
  /-- The frame above has returned. -/
  | returned (reply : Reply)
  /-- The frame above was unwound. -/
  | unwinding (fault : Fault)
  /-- A panic left a clean-up that was itself part of unwinding.  Nothing goes on from here. -/
  | aborted

/-- Everything that outlives a call. -/
structure World where
  /-- The locks, by their numbers. -/
  locks : List (Lock Entry) := []
  /-- The handles on locks; a handle that was given up is empty. -/
  handles : List (Option LockId) := []
  procedures : Table (List Action) := []
  /-- Capabilities kept under names. -/
  store : Table Grant := []
  /-- Capabilities that are with their entry points. -/
  owned : List Grant := []
  leaked : List Grant := []
  channels : List Channel := []
  futures : Table Future := []
  counts : Table Nat := []
  thread : ThreadId := 0
  /-- How many threads were started. -/
  threads : Nat := 1
  /-- The grants whose spans are entered on the running thread, the innermost first. -/
  entered : List Grant := []
  /-- What has happened, the latest first. -/
  history : List Event := []

/-- What one step does: the world after it, the frames that it puts on the stack, and what is
    passed to the topmost frame. -/
structure Move where
  world : World
  frames : List Frame := []
  control : Control := .returned .nothing

namespace Move

/-- Do more below what the step has put on the stack. -/
def before (m : Move) (frames : List Frame) : Move :=
  { m with frames := m.frames ++ frames }

/-- Answer once all that the step has put on the stack is done. -/
def answering (m : Move) (reply : Reply) : Move := m.before [.answering reply]

@[simp] theorem world_before (m : Move) (frames : List Frame) :
    (m.before frames).world = m.world := rfl

@[simp] theorem control_before (m : Move) (frames : List Frame) :
    (m.before frames).control = m.control := rfl

@[simp] theorem frames_before (m : Move) (frames : List Frame) :
    (m.before frames).frames = m.frames ++ frames := rfl

end Move

namespace World

/-- An answer without any change. -/
def reply (w : World) (r : Reply) : Move := { world := w, control := .returned r }

/-- Record an event. -/
def emit (w : World) (e : Event) : World := { w with history := e :: w.history }

/-- Record what a lock reports, with the spans that are entered. -/
def notify (w : World) (n : Notice) : World := w.emit (.notice n w.entered)

/-! ## Locks and handles -/

/-- The lock with a number; a lock that was never created counts as fresh. -/
def lock (w : World) (id : LockId) : Lock Entry := w.locks.getD id {}

/-- The world with a lock replaced. -/
def setLock (w : World) (id : LockId) (l : Lock Entry) : World :=
  { w with locks := w.locks.set id l }

theorem lock_setLock_self {w : World} {id : LockId} (h : id < w.locks.length) (l : Lock Entry) :
    (w.setLock id l).lock id = l := by
  simp [lock, setLock, List.getD_eq_getElem?_getD, List.getElem?_set_self h]

theorem lock_setLock_of_ne {w : World} {id other : LockId} (h : id ≠ other) (l : Lock Entry) :
    (w.setLock id l).lock other = w.lock other := by
  simp [lock, setLock, List.getD_eq_getElem?_getD, List.getElem?_set_ne h]

@[simp] theorem length_locks_setLock (w : World) (id : LockId) (l : Lock Entry) :
    (w.setLock id l).locks.length = w.locks.length := by
  simp [setLock]

@[simp] theorem lock_emit (w : World) (e : Event) (id : LockId) :
    (w.emit e).lock id = w.lock id := rfl

@[simp] theorem lock_notify (w : World) (n : Notice) (id : LockId) :
    (w.notify n).lock id = w.lock id := rfl

/-- The lock behind a handle. -/
def lockOf? (w : World) (handle : Nat) : Option LockId := (w.handles[handle]?).join

/-- The state of the lock behind a handle. -/
def stateOf? (w : World) (handle : Nat) : Option State :=
  (w.lockOf? handle).map fun id => (w.lock id).state

/-- Has the grant been issued and not yet ended? -/
def isUnended (w : World) (g : Grant) : Bool := (w.lock g.lock).isUnended g.id

/-- The actions of a body; an unknown procedure has none. -/
def actionsOf (w : World) : Body → List Action
  | .actions list => list
  | .procedure name => (w.procedures.get? name).getD []

/-- A counter; one that was never raised is zero. -/
def countOf (w : World) (key : String) : Nat := (w.counts.get? key).getD 0

/-! ## Channels -/

/-- The channel with a number; one that was never made has no receiver. -/
def channel (w : World) (id : ChannelId) : Channel := w.channels.getD id .gone

/-- The world with a channel replaced. -/
def setChannel (w : World) (id : ChannelId) (c : Channel) : World :=
  { w with channels := w.channels.set id c }

/-- Make a channel. -/
def newChannel (w : World) : World × ChannelId :=
  ({ w with channels := w.channels ++ [.open none] }, w.channels.length)

/-- Wake the future that waits, if there is one. -/
def wake (w : World) : Option String → World
  | none => w
  | some future => w.emit (.woken future)

/-! ## Spans -/

/-- The innermost span that counts: one that is entered again while it is entered already does not
    count a second time. -/
def currentSpan : List Grant → Option Grant
  | [] => none
  | g :: outer => if outer.contains g then currentSpan outer else some g

/-- Leave the span that was entered last. -/
def leaveSpan (w : World) : World := { w with entered := w.entered.tail }

end World

end FairLock
