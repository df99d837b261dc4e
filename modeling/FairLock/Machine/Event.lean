import FairLock.Json.Value
import FairLock.Lock

/-!
# Grants, replies and events

What the machine says: an action is answered by a `Reply`, and everything that happens is recorded
as an `Event` in one history.  The history is complete, whatever is shown of it later: quiet tasks
and reports below the wanted level are recorded like all others.

## Main definitions

- `Grant`: one issued grant; a capability is the right to end the grant that it names.
- `Notice`: what a lock reports about itself.
- `Reply`, `Event`.
-/

namespace FairLock

/-- Locks are numbered in the order in which they are created. -/
abbrev LockId := Nat

/-- One grant, by its lock and its number there.  A capability is the right to end a grant, so it
    is given by the grant. -/
structure Grant where
  /-- The lock that issued it. -/
  lock : LockId
  id : GrantId
  /-- The access that it gives. -/
  mode : Mode
  deriving DecidableEq

/-- What a lock reports about itself. -/
inductive Notice where
  | created (lock : LockId)
  /-- A submission was granted on the spot. -/
  | grantedImmediately (grant : Grant) (state : State)
  /-- A submission has to wait. -/
  | queued (request : Grant) (state : State) (pending : Nat)
  /-- A submission was turned away. -/
  | rejected (lock : LockId) (mode : Mode) (limit : Nat)
  /-- A grant ends after it was held for no longer than its lock allows. -/
  | closed (grant : Grant)
  /-- A grant ends after it was held for too long. -/
  | slow (grant : Grant)
  /-- A grant has ended; the state and the queue are those after the drain that it caused. -/
  | released (grant : Grant) (state : State) (pending : Nat)
  /-- A drain has granted waiting requests. -/
  | draining (lock : LockId) (mode : Mode) (count : Nat) (pending : Nat)
  /-- A grant was released that had ended before. -/
  | redundant (grant : Grant)
  /-- An entry point failed and its grant was ended for it. -/
  | entryFailed (grant : Grant) (failure : Failure)
  deriving DecidableEq

/-- The answer to an action. -/
inductive Reply where
  | nothing
  | ok
  /-- There was nothing to drop. -/
  | absent
  | flag (value : Bool)
  | failed (failure : Failure)
  | noLock
  | noCapability
  | noFuture
  | unknownAction
  /-- The future has given its result before. -/
  | polledAfterCompletion
  /-- A capability as it is. -/
  | capability (grant : Grant) (released : Bool)
  /-- A lock as it is. -/
  | lock (name : String) (state : State) (pending : Nat)
  | stats (stats : Stats)
  | config (config : Config)
  /-- The place of a new handle. -/
  | index (n : Nat)
  /-- A panic was stopped; its text. -/
  | unwound (text : String)
  | joined
  | pending
  /-- The future gave a capability. -/
  | granted (grant : Grant)
  | done (output : Json)

namespace Reply

/-- Is there nothing to say? -/
def isNothing : Reply → Bool
  | nothing => true
  | _ => false

end Reply

/-- What happens in a run. -/
inductive Event where
  /-- A lock reported something, while the spans of the given grants were entered on the thread,
      the innermost first. -/
  | notice (notice : Notice) (entered : List Grant)
  /-- A grant was issued; its span was opened inside that of another grant or of none. -/
  | issued (grant : Grant) (parent : Option Grant)
  /-- The entry point of a grant was started on a thread.  A task that is not quiet shows its tag
      and the state of the lock behind its handle. -/
  | started (grant : Grant) (thread : ThreadId) (shown : Option (String × Option State))
  /-- The task with the given tag came to the end of its actions. -/
  | ended (tag : String)
  /-- An entry point was dropped uncalled, after its request was turned away or its grant handed
      back.  A task shows its tag. -/
  | discarded (grant : Option Grant) (tag : Option String)
  /-- An action inside a list was answered. -/
  | acted (tag word : String) (reply : Reply)
  | logged (tag : String) (message : Json)
  | woken (future : String)
  | workStarted (future : String)
  | workDropped (future : String)

end FairLock
