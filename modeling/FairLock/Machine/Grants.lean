import FairLock.Machine.World

/-!
# Issuing and ending grants

The operations on grants, from submission to hand-back.  Each of them is one step: no task runs
inside it.  What is to run because of it is put on the stack.

## Main definitions

- `World.endGrant`: end a grant unless it has ended, and schedule the batch that becomes ready.
- `World.start`: start the entry point of a granted request inside its failure boundary.
- `World.submit`: submit an entry to a lock.
- `World.discard`: drop an entry uncalled.
-/

namespace FairLock.World

/-! ## Ending -/

/-- Report how long a grant was held.  The report is made inside the span of the grant.

    There is no clock here, so the answer to whether the hold was slow is an assumption: every hold
    takes some time, and less than any threshold but zero.  Only this report depends on it. -/
def reportHold (w : World) (g : Grant) : World :=
  let notice :=
    if (w.lock g.lock).config.slowHold.totalNanos = 0 then Notice.slow g else Notice.closed g
  w.emit (.notice notice (g :: w.entered))

/-- Record that the grants of a batch were issued. -/
def issue (w : World) (lock : LockId) (batch : List (Request Entry)) : World :=
  batch.foldl (fun w r => w.emit (.issued ⟨lock, r.id, r.mode⟩ (currentSpan w.entered))) w

/-- Put a batch on the run list of the running thread; if the list had to be opened for it, the
    thread works it off right here. -/
def schedule (w : World) (lock : LockId) (batch : List (Request Entry)) : Move :=
  let (l, opened) := (w.lock lock).schedule w.thread batch
  { world := w.setLock lock l
    frames := if opened then [.dispatching lock (some .nothing)] else [] }

/-- End a grant that has not ended. -/
def endUnended (w : World) (g : Grant) : Move :=
  let w := w.reportHold g
  let (l, batch) := (w.lock g.lock).release g.id g.mode
  let w := (w.setLock g.lock l).notify (.released g l.state l.pending)
  match batch with
  | [] => { world := w }
  | front :: _ =>
    let w := w.notify (.draining g.lock front.mode batch.length l.pending)
    (w.issue g.lock batch).schedule g.lock batch

/-- End a grant, unless it has ended before. -/
def endGrant (w : World) (g : Grant) : Move :=
  if w.isUnended g then w.endUnended g else { world := w }

/-- Release a grant through its capability.  The answer tells whether this ended it; a release that
    did not is counted and reported. -/
def release (w : World) (g : Grant) : Move × Bool :=
  if w.isUnended g then (w.endUnended g, true)
  else
    ({ world := (w.setLock g.lock (w.lock g.lock).countRedundant).notify (.redundant g) }, false)

/-! ## Dropping an entry uncalled -/

/-- Drop an entry without starting it.  A future that waits for it learns that it was abandoned. -/
def discard (w : World) (grant : Option Grant) : Entry → World
  | .task t => w.emit (.discarded grant (some t.tag))
  | .sender c =>
    let w := w.emit (.discarded grant none)
    match w.channel c with
    | .open waker => (w.setChannel c .abandoned).wake waker
    | _ => w

/-! ## Starting -/

/-- Start a task: its actions, its end, and the boundary around both. -/
def startTask (w : World) (g : Grant) (t : Task) : Move :=
  let shown := if t.quiet then none else some (t.tag, w.stateOf? t.handle)
  { world := { w with owned := g :: w.owned }.emit (.started g w.thread shown)
    frames :=
      [.actions ⟨t.tag, some g, t.quiet⟩ none (w.actionsOf t.body), .finishing g t, .invocation g] }

/-- Hand a capability over to a future.  If the future is gone, the capability is dropped here and
    so ends its grant. -/
def startSender (w : World) (g : Grant) (c : ChannelId) : Move :=
  let w := w.emit (.started g w.thread none)
  match w.channel c with
  | .open waker => { world := (w.setChannel c (.sent g)).wake waker, frames := [.invocation g] }
  | _ => (w.endGrant g).before [.invocation g]

/-- Start the entry point of a granted request inside its span. -/
def start (w : World) (lock : LockId) (r : Request Entry) : Move :=
  let g : Grant := ⟨lock, r.id, r.mode⟩
  let w := { w with entered := g :: w.entered }
  match r.payload with
  | .task t => w.startTask g t
  | .sender c => w.startSender g c

/-- Start a request that its own submission has granted.  It runs in place; a thread that was not
    starting entry points of this lock becomes the one that works off what the run drains. -/
def startGranted (w : World) (lock : LockId) (r : Request Entry) : Move :=
  if (w.lock lock).isDispatching w.thread then w.start lock r
  else
    ((w.setLock lock ((w.lock lock).openRunList w.thread [])).start lock r).before
      [.dispatching lock none]

/-! ## Submitting -/

/-- Submit an entry to a lock.  The move answers `ok`, or with the failure of this very
    submission. -/
def submit (w : World) (lock : LockId) (mode : Mode) (entry : Entry) : Move :=
  let (l, submission) := (w.lock lock).submit mode entry
  let w := w.setLock lock l
  match submission with
  | .granted r =>
    let g : Grant := ⟨lock, r.id, r.mode⟩
    let w := w.notify (.grantedImmediately g l.state)
    (w.issue lock [r]).startGranted lock r
  | .queued id pending => (w.notify (.queued ⟨lock, id, mode⟩ l.state pending)).reply .ok
  | .rejected entry limit =>
    ((w.notify (.rejected lock mode limit)).discard none entry).reply (.failed (.queueFull limit))

/-! ## Dropping capabilities -/

/-- Drop the capability that an entry point still has. -/
def dropOwned (w : World) (g : Grant) : Move :=
  if w.owned.contains g then { w with owned := w.owned.erase g }.endGrant g else { world := w }

/-- Keep a capability under a name; the one that was there is dropped after that. -/
def keep (w : World) (name : String) (g : Grant) : Move :=
  let kept := { w with store := w.store.put name g }
  match w.store.get? name with
  | none => { world := kept }
  | some old => kept.endGrant old

end FairLock.World
