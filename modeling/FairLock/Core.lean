import FairLock.Config
import FairLock.Failure
import FairLock.State

/-!
# Admission and the waiting queue

`Core` decides which requests run.  A request is granted on the spot when nobody waits and the
state admits it; otherwise it joins the end of the queue, unless the queue is full.  Only a lock
that has become free looks at its queue: it then grants the front request, and if that is a
reader, every reader that directly follows.

The payload of a request is carried along and never looked at.

## Main definitions

- `Core.submit`: admit, queue or turn away one request.
- `Core.release`: end one grant and return the batch that may start as a result.
- `batchOf`: the part of a queue that starts together.

## Main statements

- `batchOf_append_rest`: a drain takes its batch from the front and loses nothing.
- `release_of_not_free`: a release that leaves grants behind moves nothing.
-/

namespace FairLock

universe u

variable {α : Type u}

/-- An accepted request, waiting or granted. -/
structure Request (α : Type u) where
  /-- Its number in the order of acceptance. -/
  id : GrantId
  mode : Mode
  /-- What is to be started once it is granted. -/
  payload : α

/-- The outcome of a submission. -/
inductive Submission (α : Type u) where
  /-- The request is granted and must be started now. -/
  | granted (request : Request α)
  /-- The request waits, and with it `pending` requests do. -/
  | queued (id : GrantId) (pending : Nat)
  /-- The request is turned away, its payload handed back. -/
  | rejected (payload : α) (limit : Nat)

/-! ## Batches -/

/-- The part of a queue that starts together: a writer goes alone, a reader takes every directly
    following reader along. -/
def batchOf : List (Request α) → List (Request α)
  | [] => []
  | front :: rest =>
    match front.mode with
    | .read => front :: rest.takeWhile fun r => r.mode.isRead
    | .write => [front]

/-- What a batch leaves in the queue. -/
def restOf : List (Request α) → List (Request α)
  | [] => []
  | front :: rest =>
    match front.mode with
    | .read => rest.dropWhile fun r => r.mode.isRead
    | .write => rest

theorem batchOf_append_rest (q : List (Request α)) : batchOf q ++ restOf q = q := by
  cases q with
  | nil => rfl
  | cons front rest =>
    cases h : front.mode <;> simp [batchOf, restOf, h, List.takeWhile_append_dropWhile]

theorem batchOf_eq_nil_iff {q : List (Request α)} : batchOf q = [] ↔ q = [] := by
  cases q with
  | nil => simp [batchOf]
  | cons front rest => cases h : front.mode <;> simp [batchOf, h]

/-- The state of a free lock once a batch has been granted. -/
def stateOf (batch : List (Request α)) : State :=
  batch.foldl (fun s r => s.acquired r.mode) .free

/-! ## The core -/

/-- The grants and the queue of one lock, without what is started. -/
structure Core (α : Type u) where
  /-- What is held. -/
  state : State := .free
  /-- Who waits, the oldest first. -/
  queue : List (Request α) := []
  /-- The number of the next accepted request. -/
  nextId : GrantId := 1

namespace Core

/-- The number of waiting requests. -/
def pending (c : Core α) : Nat := c.queue.length

/-- Admit a request, let it wait, or turn it away.

    A request never overtakes a waiting one, even a reader that could run next to the current
    readers.  The bound applies to requests that would have to wait and to no others, and a
    request that is turned away takes no number. -/
def submit (c : Core α) (mode : Mode) (payload : α) (config : Config) : Core α × Submission α :=
  if c.queue.isEmpty && c.state.admits mode then
    ({ c with state := c.state.acquired mode, nextId := c.nextId + 1 },
      .granted ⟨c.nextId, mode, payload⟩)
  else
    -- only who would have to wait is measured against the bound
    match config.reachedLimit c.pending with
    | some limit => (c, .rejected payload limit)
    | none =>
      ({ c with queue := c.queue ++ [⟨c.nextId, mode, payload⟩], nextId := c.nextId + 1 },
        .queued c.nextId (c.pending + 1))

/-- Grant what may start: nothing unless the lock is free, then the batch at the front. -/
def drain (c : Core α) : Core α × List (Request α) :=
  if c.state.isFree then
    ({ c with state := stateOf (batchOf c.queue), queue := restOf c.queue }, batchOf c.queue)
  else
    (c, [])

/-- End one grant of the given mode and return the requests that are granted as a result. -/
def release (c : Core α) (mode : Mode) : Core α × List (Request α) :=
  { c with state := c.state.released mode }.drain

@[simp] theorem pending_eq (c : Core α) : c.pending = c.queue.length := rfl

theorem release_of_not_free {c : Core α} {mode : Mode} (h : c.state.released mode ≠ .free) :
    c.release mode = ({ c with state := c.state.released mode }, []) := by
  simp [release, drain, h]

theorem release_of_free {c : Core α} {mode : Mode} (h : c.state.released mode = .free) :
    c.release mode =
      ({ c with state := stateOf (batchOf c.queue), queue := restOf c.queue },
        batchOf c.queue) := by
  simp [release, drain, h]

end Core

end FairLock
