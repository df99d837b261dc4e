import FairLock.Machine.Futures

/-!
# Performing an action

`World.perform` does the one step with which an action begins.  Whatever the action has to wait
for is put on the stack, and the answer comes once that is done.

An action means a capability by a `CapRef`; `World.locate` finds the place where it is.
-/

namespace FairLock

/-- Where a capability is. -/
inductive Place where
  /-- With its entry point. -/
  | owned
  /-- Kept under a name. -/
  | kept (name : String)

namespace World

/-! ## Capabilities -/

/-- The kept capabilities whose grants have not ended, in the order of their names. -/
def keptUnended (w : World) : List (String × Grant) :=
  w.store.filter fun entry => w.isUnended entry.2

/-- The place of the capability that an action means, and its grant. -/
def locate (w : World) (context : Context) : CapRef → Option (Place × Grant)
  | .own => (context.own.filter w.owned.contains).map fun g => (.owned, g)
  | .named name => (w.store.get? name).map fun g => (.kept name, g)
  | .nth n => w.keptUnended[n % w.keptUnended.length]?.map fun entry => (.kept entry.1, entry.2)

/-- Take a capability from its place. -/
def takeFrom (w : World) (g : Grant) : Place → World
  | .owned => { w with owned := w.owned.erase g }
  | .kept name => { w with store := w.store.remove name }

/-- Do something with the capability that an action means. -/
def withCapability (w : World) (context : Context) (cap : CapRef)
    (use : Place → Grant → Move) : Move :=
  match w.locate context cap with
  | none => w.reply .noCapability
  | some (place, g) => use place g

/-- Keep the own capability under a name, by default under the tag. -/
def park (w : World) (context : Context) (name : Option String) : Move :=
  w.withCapability context .own fun place g =>
    ((w.takeFrom g place).keep (name.getD context.tag) g).answering .nothing

/-! ## Locks -/

/-- Do something with the lock behind a handle. -/
def withLock (w : World) (handle : Nat) (use : LockId → Move) : Move :=
  match w.lockOf? handle with
  | none => w.reply .noLock
  | some lock => use lock

/-- Look at a lock. -/
def look (w : World) (lock : LockId) : Reply :=
  .lock (w.lock lock).config.name (w.lock lock).state (w.lock lock).pending

/-- Give up a handle. -/
def dropHandle (w : World) (handle : Nat) : Move :=
  match w.lockOf? handle with
  | none => w.reply .absent
  | some _ => { w with handles := w.handles.set handle none }.reply .ok

/-! ## Bodies and futures -/

/-- Run a body on a new thread.  Its answers are logged, also where those around it are not. -/
def startThread (w : World) (context : Context) (body : Body) : Move :=
  { world := { w with thread := w.threads, threads := w.threads + 1, entered := [] }
    frames :=
      [.actions { context with quiet := false } none (w.actionsOf body),
       .joining w.thread w.entered] }

/-- Drop a stored future. -/
def dropStored (w : World) (name : String) : Move :=
  match w.futures.get? name with
  | none => w.reply .absent
  | some f =>
    ({ w with futures := w.futures.remove name }.dropFuture name f).answering .ok

/-! ## The actions -/

/-- Begin an action. -/
def perform (w : World) (context : Context) : Action → Move
  | .submit handle mode tag entry ending quiet =>
    w.withLock handle fun lock => w.submit lock mode (.task ⟨handle, tag, entry, ending, quiet⟩)
  | .release cap =>
    w.withCapability context cap fun _ g =>
      let (move, ended) := w.release g
      move.answering (.flag ended)
  | .drop cap =>
    w.withCapability context cap fun place g => ((w.takeFrom g place).endGrant g).answering .ok
  | .forget cap =>
    w.withCapability context cap fun place g =>
      let taken := w.takeFrom g place
      { taken with leaked := g :: taken.leaked }.reply .ok
  | .park name => w.park context name
  | .inspect cap =>
    w.withCapability context cap fun _ g => w.reply (.capability g !(w.isUnended g))
  | .look handle => w.withLock handle fun lock => w.reply (w.look lock)
  | .stats handle => w.withLock handle fun lock => w.reply (.stats (w.lock lock).stats)
  | .config handle => w.withLock handle fun lock => w.reply (.config (w.lock lock).config)
  | .same a b => w.withLock a fun a => w.withLock b fun b => w.reply (.flag (a == b))
  | .clone handle =>
    w.withLock handle fun lock =>
      { w with handles := w.handles ++ [some lock] }.reply (.index w.handles.length)
  | .dropHandle handle => w.dropHandle handle
  | .log message => (w.emit (.logged context.tag message)).reply .nothing
  | .count key => { w with counts := w.counts.put key (w.countOf key + 1) }.reply .nothing
  | .when key below body quiet =>
    if w.countOf key < below then
      { world := w
        frames := [.actions { context with quiet := quiet } none (w.actionsOf body)] }
    else w.reply .nothing
  | .iterate times body quiet =>
    { world := w
      frames := [.iterating { context with quiet := quiet } times (w.actionsOf body)] }
  | .guard body =>
    { world := w
      frames := [.actions { context with quiet := false } none (w.actionsOf body), .guarding] }
  | .thread body => w.startThread context body
  | .panic fault => { world := w, control := .unwinding fault }
  | .acquire handle mode name => w.withLock handle fun lock => w.acquire lock mode name
  | .run handle mode name work output =>
    w.withLock handle fun lock =>
      (w.storeFuture name (.run ⟨lock, mode, work, output⟩ .unstarted)).answering .nothing
  | .poll name => w.poll name
  | .dropFuture name => w.dropStored name
  | .pause => w.reply .unknownAction
  | .unknown _ => w.reply .unknownAction

end World

end FairLock
