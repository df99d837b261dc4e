import FairLock.Core
import FairLock.Stats

/-!
# A lock

A lock is a core together with its settings and counters, the grants that have been issued and not
yet ended, and the run lists of the threads that are starting its entry points.

A drain does not start what it grants in place if its thread is starting entry points of the lock
already: the batch then joins the run list of that thread, and the loop further up the stack works
it off.  So a chain of entry points that release each other does not grow the stack.

## Main definitions

- `Lock.submit`, `Lock.release`: the operations of the core with the bookkeeping around them.
- `Lock.schedule`: put a granted batch where it will be started, opening a run list if the thread
  has none.
- `Lock.next`, `Lock.close`: take the next deferred request, give up a run list.
-/

namespace FairLock

universe u

variable {α : Type u}

/-- Threads are numbered in the order in which they are started. -/
abbrev ThreadId := Nat

/-- Granted requests of one lock that a thread has yet to start.  A run list is only ever found by
    its thread. -/
structure RunList (α : Type u) where
  /-- The thread that starts them. -/
  thread : ThreadId
  /-- What is to be started, in order. -/
  deferred : List (Request α)

/-- One lock. -/
structure Lock (α : Type u) where
  config : Config := {}
  /-- What is held and who waits. -/
  core : Core α := {}
  /-- What has happened so far. -/
  stats : Stats := {}
  /-- The grants that were issued and have not ended, the oldest first. -/
  unended : List (GrantId × Mode) := []
  /-- One run list for each thread that is starting entry points of this lock. -/
  runLists : List (RunList α) := []

namespace Lock

/-- What is held. -/
def state (l : Lock α) : State := l.core.state

/-- The number of waiting requests. -/
def pending (l : Lock α) : Nat := l.core.pending

/-- Has the grant been issued and not yet ended? -/
def isUnended (l : Lock α) (id : GrantId) : Bool :=
  l.unended.any fun g => g.1 == id

/-- Submit a request and count what becomes of it. -/
def submit (l : Lock α) (mode : Mode) (payload : α) : Lock α × Submission α :=
  let (core, submission) := l.core.submit mode payload l.config
  match submission with
  | .granted r =>
    ({ l with
        core := core
        stats := l.stats.countGranted
        unended := l.unended ++ [(r.id, r.mode)] }, submission)
  | .queued _ pending => ({ l with core := core, stats := l.stats.countQueued pending }, submission)
  | .rejected _ _ => ({ l with core := core, stats := l.stats.countRejected }, submission)

/-- Does the batch consist of readers?  Its first request tells. -/
def startsWithRead (batch : List (Request α)) : Bool :=
  match batch with
  | [] => false
  | front :: _ => front.mode.isRead

/-- End a grant, and issue the grants of the batch that becomes ready. -/
def release (l : Lock α) (id : GrantId) (mode : Mode) : Lock α × List (Request α) :=
  let (core, batch) := l.core.release mode
  let stats := l.stats.countReleased
  ({ l with
      core := core
      stats := if batch.isEmpty then stats else stats.countDrain batch.length (startsWithRead batch)
      unended := l.unended.filter (fun g => g.1 != id) ++ batch.map fun r => (r.id, r.mode) }, batch)

/-- A grant was released that had ended before. -/
def countRedundant (l : Lock α) : Lock α := { l with stats := l.stats.countRedundant }

/-- An entry point failed and was contained. -/
def countFailure (l : Lock α) : Lock α := { l with stats := l.stats.countFailure }

/-! ## Run lists -/

/-- Is the thread starting entry points of this lock? -/
def isDispatching (l : Lock α) (thread : ThreadId) : Bool :=
  l.runLists.any fun run => run.thread == thread

/-- Open a run list for a thread. -/
def openRunList (l : Lock α) (thread : ThreadId) (batch : List (Request α)) : Lock α :=
  { l with runLists := l.runLists ++ [⟨thread, batch⟩] }

/-- Append a batch to the run list of a thread. -/
def deferTo (thread : ThreadId) (batch : List (Request α)) : List (RunList α) → List (RunList α)
  | [] => []
  | run :: rest =>
    if run.thread = thread then { run with deferred := run.deferred ++ batch } :: rest
    else run :: deferTo thread batch rest

/-- Put a granted batch on the run list of a thread.  The answer tells whether the list had to be
    opened, and so has to be worked off here. -/
def schedule (l : Lock α) (thread : ThreadId) (batch : List (Request α)) : Lock α × Bool :=
  if l.isDispatching thread then ({ l with runLists := deferTo thread batch l.runLists }, false)
  else (l.openRunList thread batch, true)

/-- Take the next request off the run list of a thread. -/
def takeFrom (thread : ThreadId) : List (RunList α) → Option (Request α × List (RunList α))
  | [] => none
  | run :: rest =>
    if run.thread = thread then
      match run.deferred with
      | [] => none
      | r :: deferred => some (r, { run with deferred := deferred } :: rest)
    else (takeFrom thread rest).map fun p => (p.1, run :: p.2)

/-- The next deferred request of a thread, and the lock without it. -/
def next (l : Lock α) (thread : ThreadId) : Option (Request α × Lock α) :=
  (takeFrom thread l.runLists).map fun p => (p.1, { l with runLists := p.2 })

/-- What the run list of a thread still holds. -/
def deferredOn (l : Lock α) (thread : ThreadId) : List (Request α) :=
  match l.runLists.find? fun run => run.thread == thread with
  | none => []
  | some run => run.deferred

theorem isDispatching_eq_true_iff {l : Lock α} {thread : ThreadId} :
    l.isDispatching thread = true ↔ ∃ run ∈ l.runLists, run.thread = thread := by
  simp [isDispatching]

/-- A thread is on the run lists after it was given something to start. -/
theorem isDispatching_schedule (l : Lock α) (thread : ThreadId) (batch : List (Request α)) :
    (l.schedule thread batch).1.isDispatching thread = true := by
  unfold schedule
  split
  · rename_i h
    obtain ⟨run, hrun, rfl⟩ := isDispatching_eq_true_iff.1 h
    -- the batch is put on the list of the thread, wherever that lies
    rw [isDispatching_eq_true_iff]
    generalize l.runLists = runs at hrun
    induction runs with
    | nil => cases hrun
    | cons first rest ih =>
      by_cases hf : first.thread = run.thread
      · exact ⟨{ first with deferred := first.deferred ++ batch }, by simp [deferTo, hf], hf⟩
      · rcases List.mem_cons.1 hrun with rfl | hrest
        · exact absurd rfl hf
        · obtain ⟨r, hr, ht⟩ := ih hrest
          exact ⟨r, by simp [deferTo, hf, hr], ht⟩
  -- a list of its own is opened for the thread
  · simp [isDispatching, openRunList]

/-- Give up the run list of a thread, with what it still holds.  The other lists stay as they are.
    In which order they stand means nothing: no thread has two of them on one lock, and nothing but
    its thread is asked for when a list is looked up. -/
def close (l : Lock α) (thread : ThreadId) : Lock α × List (Request α) :=
  ({ l with runLists := l.runLists.eraseP fun run => run.thread == thread }, l.deferredOn thread)

end Lock

end FairLock
