import FairLock.Machine.Grants

/-!
# Futures

A future for access gets its capability through a channel whose sending end is the entry point of
its request.  The request is submitted when the future is made, so its place in the queue is fixed
there; a future with work makes its request at its first poll only.

Dropping a future takes nothing out of the queue.  A capability that was sent and not received is
dropped with the channel; one that is sent later finds the receiver gone and is dropped by the
entry point itself.

## Main definitions

- `World.receive`: what a poll finds in a channel.
- `World.dropFuture`: drop a future that is stored nowhere.
- `World.poll`: poll a future by its name.
-/

namespace FairLock.World

/-! ## Channels -/

/-- Drop the receiving end of a channel, and with it a capability that was not received. -/
def dropReceiver (w : World) (c : ChannelId) : Move :=
  let closed := w.setChannel c .gone
  match w.channel c with
  | .sent g => closed.endGrant g
  | _ => { world := closed }

/-- What a poll finds in a channel. -/
inductive Received where
  /-- Nothing yet; the future will be woken. -/
  | notYet
  | grant (g : Grant)
  | abandoned
  /-- The result was received before. -/
  | again

/-- Poll a channel on behalf of a future. -/
def receive (w : World) (c : ChannelId) (future : String) : World × Received :=
  match w.channel c with
  | .open _ => (w.setChannel c (.open (some future)), .notYet)
  | .sent g => (w.setChannel c .taken, .grant g)
  | .abandoned => (w.setChannel c .taken, .abandoned)
  | .taken => (w, .again)
  | .gone => (w, .again)

/-! ## Dropping -/

/-- Drop a future that is stored nowhere.  A future with work drops what it waits for before the
    work, and the work before the grant that it holds. -/
def dropFuture (w : World) (name : String) : Future → Move
  | .acquire (.accepted c) => w.dropReceiver c
  | .acquire (.refused _) => { world := w }
  | .run _ .unstarted => { world := w.emit (.workDropped name) }
  | .run _ (.waiting c) => (w.dropReceiver c).before [.droppingWork name]
  | .run _ (.working g _) => (w.emit (.workDropped name)).endGrant g

/-- Store a future under a name; the one that was there is dropped after that. -/
def storeFuture (w : World) (name : String) (f : Future) : Move :=
  let stored := { w with futures := w.futures.put name f }
  match w.futures.get? name with
  | none => { world := stored }
  | some old => stored.dropFuture name old

/-! ## Making -/

/-- Request access as a future. -/
def acquire (w : World) (lock : LockId) (mode : Mode) (name : String) : Move :=
  let (w, c) := w.newChannel
  (w.submit lock mode (.sender c)).before [.acquiring name c]

/-- The future of a request whose submission was answered. -/
def acquired (w : World) (name : String) (c : ChannelId) (answer : Reply) : Move :=
  let move :=
    match answer with
    | .failed failure =>
      (w.setChannel c .gone).storeFuture name (.acquire (.refused (some failure)))
    | _ => w.storeFuture name (.acquire (.accepted c))
  move.answering .nothing

/-! ## Polling -/

/-- Poll a future for access that is stored under a name. -/
def pollAcquire (w : World) (name : String) : Acquisition → Move
  | .refused failure =>
    { w with futures := w.futures.put name (.acquire (.refused none)) }.reply
      (.failed (failure.getD .abandoned))
  | .accepted c =>
    match w.receive c name with
    | (w, .notYet) => w.reply .pending
    | (w, .grant g) => (w.keep name g).answering (.granted g)
    | (w, .abandoned) => w.reply (.failed .abandoned)
    | (w, .again) => w.reply .polledAfterCompletion

/-- Leave a poll as pending, with the future stored again. -/
def suspend (w : World) (name : String) (f : Future) : Move :=
  (w.storeFuture name f).answering .pending

/-- Go on with a future with work that waits for its grant. -/
def awaitGrant (w : World) (name : String) (work : Work) (c : ChannelId) : Move :=
  match w.receive c name with
  | (w, .notYet) => w.suspend name (.run work (.waiting c))
  | (w, .grant g) =>
    { world := w.emit (.workStarted name)
      frames := [.working name work g none (w.actionsOf work.body)] }
  | (w, .abandoned) => (w.emit (.workDropped name)).reply (.failed .abandoned)
  | (w, .again) => (w.emit (.workDropped name)).reply .polledAfterCompletion

/-- Go on with a future with work once its submission was answered. -/
def submitted (w : World) (name : String) (work : Work) (c : ChannelId) (answer : Reply) : Move :=
  match answer with
  | .failed failure =>
    ((w.setChannel c .gone).emit (.workDropped name)).reply (.failed failure)
  | _ => w.awaitGrant name work c

/-- Poll a future with work, which was taken out of its place for the time of the poll. -/
def pollRun (w : World) (name : String) (work : Work) : Stage → Move
  | .unstarted =>
    let (w, c) := w.newChannel
    (w.submit work.lock work.mode (.sender c)).before [.awaiting name work c]
  | .waiting c => w.awaitGrant name work c
  | .working g rest => { world := w, frames := [.working name work g none rest] }

/-- Poll a future by its name. -/
def poll (w : World) (name : String) : Move :=
  match w.futures.get? name with
  | none => w.reply .noFuture
  | some (.acquire acquisition) => w.pollAcquire name acquisition
  | some (.run work stage) =>
    { w with futures := w.futures.remove name }.pollRun name work stage

end FairLock.World
