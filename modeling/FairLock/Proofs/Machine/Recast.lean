import FairLock.Proofs.Machine.Subruns

/-!
# Other counters, another past

No decision of the machine looks at the history or at the counters of a lock.  So the counters of
the locks may be higher and the past may be longer, and every operation does what it does in the
world itself.  Only who asks a lock for its counters can tell the two apart.

## Main definitions

- `Tally`: how much higher some counters of a lock are.
- `World.recast`: a world with higher counters and with more in its past.

## Main statements

- `World.perform_recast`, and the lemmas before it: one equation for every operation.
- `Frame.resume_recast`, `Frame.unwind_recast`: what single frames do.
-/

namespace FairLock

/-! ## Counters -/

/-- How much higher counters of a lock are: those that count what changes nothing else. -/
structure Tally where
  submitted : Nat := 0
  rejected : Nat := 0
  redundant : Nat := 0
  failures : Nat := 0

/-- Both of two tallies. -/
def Tally.plus (t u : Tally) : Tally :=
  ⟨t.submitted + u.submitted, t.rejected + u.rejected, t.redundant + u.redundant,
    t.failures + u.failures⟩

namespace Stats

/-- The counters with a tally added. -/
def raised (s : Stats) (t : Tally) : Stats :=
  { s with
    submitted := s.submitted + t.submitted
    rejected := s.rejected + t.rejected
    redundantReleases := s.redundantReleases + t.redundant
    entryFailures := s.entryFailures + t.failures }

variable (s : Stats) (t u : Tally)

@[simp] theorem raised_nothing : s.raised {} = s := rfl

theorem raised_raised : (s.raised t).raised u = s.raised (t.plus u) := by
  simp [raised, Tally.plus, Nat.add_assoc]

theorem countGranted_raised : (s.raised t).countGranted = s.countGranted.raised t := by
  simp [countGranted, raised, Nat.add_right_comm]

theorem countQueued_raised (pending : Nat) :
    (s.raised t).countQueued pending = (s.countQueued pending).raised t := by
  simp [countQueued, raised, Nat.add_right_comm]

theorem countRejected_raised : (s.raised t).countRejected = s.countRejected.raised t := by
  simp [countRejected, raised, Nat.add_right_comm]

theorem countRedundant_raised : (s.raised t).countRedundant = s.countRedundant.raised t := by
  simp [countRedundant, raised, Nat.add_right_comm]

theorem countFailure_raised : (s.raised t).countFailure = s.countFailure.raised t := by
  simp [countFailure, raised, Nat.add_right_comm]

end Stats

/-! ## Locks -/

namespace Lock

variable {α : Type} (l : Lock α) (t : Tally)

/-- The lock with a tally added to its counters. -/
def raised (l : Lock α) (t : Tally) : Lock α := { l with stats := l.stats.raised t }

@[simp] theorem raised_nothing : l.raised {} = l := rfl

theorem raised_raised (u : Tally) : (l.raised t).raised u = l.raised (t.plus u) := by
  simp only [raised, Stats.raised_raised]

@[simp] theorem config_raised : (l.raised t).config = l.config := rfl
@[simp] theorem core_raised : (l.raised t).core = l.core := rfl
@[simp] theorem stats_raised : (l.raised t).stats = l.stats.raised t := rfl
@[simp] theorem unended_raised : (l.raised t).unended = l.unended := rfl
@[simp] theorem runLists_raised : (l.raised t).runLists = l.runLists := rfl
@[simp] theorem state_raised : (l.raised t).state = l.state := rfl
@[simp] theorem pending_raised : (l.raised t).pending = l.pending := rfl

@[simp] theorem isUnended_raised (id : GrantId) : (l.raised t).isUnended id = l.isUnended id := rfl

@[simp] theorem isDispatching_raised (thread : ThreadId) :
    (l.raised t).isDispatching thread = l.isDispatching thread := rfl

theorem submit_raised (mode : Mode) (payload : α) :
    (l.raised t).submit mode payload =
      ((l.submit mode payload).1.raised t, (l.submit mode payload).2) := by
  simp only [raised, submit]
  cases l.core.submit mode payload l.config with
  | mk core submission =>
    cases submission with
    | granted r => simp [Stats.countGranted_raised]
    | queued id pending => simp [Stats.countQueued_raised]
    | rejected payload limit => simp [Stats.countRejected_raised]

theorem release_raised (id : GrantId) (mode : Mode) :
    (l.raised t).release id mode = ((l.release id mode).1.raised t, (l.release id mode).2) := by
  cases hempty : (l.core.release mode).2.isEmpty <;> simp only [raised, release, hempty] <;> rfl

theorem openRunList_raised (thread : ThreadId) (batch : List (Request α)) :
    (l.raised t).openRunList thread batch = (l.openRunList thread batch).raised t := rfl

theorem schedule_raised (thread : ThreadId) (batch : List (Request α)) :
    (l.raised t).schedule thread batch =
      ((l.schedule thread batch).1.raised t, (l.schedule thread batch).2) := by
  unfold schedule
  rw [isDispatching_raised]
  split <;> rfl

theorem next_raised (thread : ThreadId) :
    (l.raised t).next thread = (l.next thread).map fun p => (p.1, p.2.raised t) := by
  unfold next
  rw [runLists_raised, Option.map_map]
  rfl

theorem close_raised (thread : ThreadId) :
    (l.raised t).close thread = ((l.close thread).1.raised t, (l.close thread).2) := rfl

theorem countRedundant_raised : (l.raised t).countRedundant = l.countRedundant.raised t := by
  simp only [raised, countRedundant, Stats.countRedundant_raised]

theorem countFailure_raised : (l.raised t).countFailure = l.countFailure.raised t := by
  simp only [raised, countFailure, Stats.countFailure_raised]

end Lock

/-! ## Worlds and moves -/

namespace World

/-- The world with higher counters and with more in its past. -/
def recast (w : World) (more : LockId → Tally) (past : List Event) : World :=
  { w with
    locks := w.locks.mapIdx fun id l => l.raised (more id)
    history := w.history ++ past }

end World

/-- The move into a world with other counters and another past. -/
def Move.recast (m : Move) (more : LockId → Tally) (past : List Event) : Move :=
  { m with world := m.world.recast more past }

namespace World

variable (w : World) (more : LockId → Tally) (past : List Event)

/-- How much higher the counters of a lock are; a lock that was never created has none. -/
def extra (id : LockId) : Tally := if id < w.locks.length then more id else {}

theorem lock_recast (id : LockId) :
    (w.recast more past).lock id = (w.lock id).raised (w.extra more id) := by
  simp only [recast, lock, List.getD_eq_getElem?_getD, extra, List.getElem?_mapIdx]
  by_cases hid : id < w.locks.length <;> simp [hid]

theorem setLock_recast (id : LockId) (l : Lock Entry) :
    (w.recast more past).setLock id (l.raised (w.extra more id)) =
      (w.setLock id l).recast more past := by
  simp only [recast, setLock, extra, World.mk.injEq, and_true]
  refine List.ext_getElem? ?_
  intro n
  simp only [List.getElem?_set, List.getElem?_mapIdx, List.length_mapIdx]
  by_cases hn : id = n
  · subst hn
    by_cases hid : id < w.locks.length <;> simp [hid]
  · simp [hn]

/-! ## The operations on grants -/

@[simp] theorem emit_recast (e : Event) :
    (w.recast more past).emit e = (w.emit e).recast more past := rfl

@[simp] theorem notify_recast (n : Notice) :
    (w.recast more past).notify n = (w.notify n).recast more past := rfl

@[simp] theorem isUnended_recast (g : Grant) :
    (w.recast more past).isUnended g = w.isUnended g := by
  simp [isUnended, lock_recast]

theorem reportHold_recast (g : Grant) :
    (w.recast more past).reportHold g = (w.reportHold g).recast more past := by
  simp only [reportHold, lock_recast, Lock.config_raised]
  rfl

theorem issue_recast (lock : LockId) (batch : List (Request Entry)) :
    (w.recast more past).issue lock batch = (w.issue lock batch).recast more past := by
  rw [issue_eq, issue_eq]
  simp [recast]

theorem schedule_recast (lock : LockId) (batch : List (Request Entry)) :
    (w.recast more past).schedule lock batch =
      (w.schedule lock batch).recast more past := by
  simp only [schedule, lock_recast, Lock.schedule_raised, setLock_recast, Move.recast]
  rfl

theorem endUnended_recast (g : Grant) :
    (w.recast more past).endUnended g = (w.endUnended g).recast more past := by
  unfold endUnended
  simp only [reportHold_recast, lock_recast, Lock.release_raised, setLock_recast]
  cases ((w.reportHold g).lock g.lock).release g.id g.mode with
  | mk l batch =>
    cases batch with
    | nil => simp [Move.recast]
    | cons front rest => simp [issue_recast, schedule_recast]

theorem endGrant_recast (g : Grant) :
    (w.recast more past).endGrant g = (w.endGrant g).recast more past := by
  unfold endGrant
  rw [isUnended_recast]
  split
  · exact endUnended_recast w more past g
  · rfl

theorem release_recast (g : Grant) :
    (w.recast more past).release g = ((w.release g).1.recast more past, (w.release g).2) := by
  unfold release
  rw [isUnended_recast]
  split
  · rw [endUnended_recast]
  · simp only [lock_recast, Lock.countRedundant_raised, setLock_recast, notify_recast]
    rfl

theorem wake_recast (waker : Option String) :
    (w.recast more past).wake waker = (w.wake waker).recast more past := by
  cases waker <;> rfl

theorem discard_recast (grant : Option Grant) (entry : Entry) :
    (w.recast more past).discard grant entry = (w.discard grant entry).recast more past := by
  cases entry with
  | task t => rfl
  | sender c =>
    -- channels are not looked at through counters or through the past
    have hchannel : ((w.recast more past).emit (.discarded grant none)).channel c =
        (w.emit (.discarded grant none)).channel c := rfl
    unfold discard
    simp only [hchannel]
    split
    · exact wake_recast ((w.emit (.discarded grant none)).setChannel c .abandoned) more past _
    · rfl

theorem stateOf?_recast (handle : Nat) :
    (w.recast more past).stateOf? handle = w.stateOf? handle := by
  have hlock : (w.recast more past).lockOf? handle = w.lockOf? handle := rfl
  simp [stateOf?, hlock, lock_recast]

theorem startTask_recast (g : Grant) (t : Task) :
    (w.recast more past).startTask g t = (w.startTask g t).recast more past := by
  simp only [startTask, stateOf?_recast]
  rfl

theorem startSender_recast (g : Grant) (c : ChannelId) :
    (w.recast more past).startSender g c = (w.startSender g c).recast more past := by
  have hchannel : ((w.recast more past).emit (.started g w.thread none)).channel c =
      (w.emit (.started g w.thread none)).channel c := rfl
  have hthread : (w.recast more past).thread = w.thread := rfl
  unfold startSender
  simp only [hthread, hchannel]
  -- the entry is sent or its grant ends; neither looks at counters
  split
  · rename_i waker _
    simp only [Move.recast, ← wake_recast]
    rfl
  · rw [emit_recast, endGrant_recast]
    rfl

theorem start_recast (lock : LockId) (r : Request Entry) :
    (w.recast more past).start lock r = (w.start lock r).recast more past := by
  unfold start
  cases r.payload with
  | task t => exact startTask_recast { w with entered := _ :: w.entered } more past _ t
  | sender c => exact startSender_recast { w with entered := _ :: w.entered } more past _ c

theorem startGranted_recast (lock : LockId) (r : Request Entry) :
    (w.recast more past).startGranted lock r = (w.startGranted lock r).recast more past := by
  have hthread : (w.recast more past).thread = w.thread := rfl
  unfold startGranted
  rw [lock_recast, Lock.isDispatching_raised, hthread]
  split
  · exact start_recast w more past lock r
  · rw [Lock.openRunList_raised, setLock_recast, start_recast]
    rfl

theorem submit_recast (lock : LockId) (mode : Mode) (entry : Entry) :
    (w.recast more past).submit lock mode entry =
      (w.submit lock mode entry).recast more past := by
  unfold submit
  simp only [lock_recast, Lock.submit_raised, setLock_recast]
  -- the decision falls on the state and the queue, which no counter is part of
  cases (w.lock lock).submit mode entry with
  | mk l submission =>
    cases submission with
    | granted r =>
      simp only [Lock.state_raised, notify_recast, issue_recast, startGranted_recast]
    | queued id pending =>
      simp only [Lock.state_raised, notify_recast]
      rfl
    | rejected entry limit =>
      simp only [notify_recast, discard_recast]
      rfl

theorem dropOwned_recast (g : Grant) :
    (w.recast more past).dropOwned g = (w.dropOwned g).recast more past := by
  have howned : (w.recast more past).owned = w.owned := rfl
  unfold dropOwned
  rw [howned]
  split
  · exact endGrant_recast { w with owned := w.owned.erase g } more past g
  · rfl

theorem keep_recast (name : String) (g : Grant) :
    (w.recast more past).keep name g = (w.keep name g).recast more past := by
  have hstore : (w.recast more past).store = w.store := rfl
  unfold keep
  rw [hstore]
  cases w.store.get? name with
  | none => rfl
  | some old => exact endGrant_recast { w with store := w.store.put name g } more past old

/-! ## Futures -/

theorem dropReceiver_recast (c : ChannelId) :
    (w.recast more past).dropReceiver c = (w.dropReceiver c).recast more past := by
  have hchannel : (w.recast more past).channel c = w.channel c := rfl
  unfold dropReceiver
  rw [hchannel]
  cases w.channel c with
  | sent g => exact endGrant_recast (w.setChannel c .gone) more past g
  | _ => rfl

theorem receive_recast (c : ChannelId) (future : String) :
    (w.recast more past).receive c future =
      ((w.receive c future).1.recast more past, (w.receive c future).2) := by
  have hchannel : (w.recast more past).channel c = w.channel c := rfl
  unfold receive
  rw [hchannel]
  cases w.channel c <;> rfl

theorem dropFuture_recast (name : String) (f : Future) :
    (w.recast more past).dropFuture name f = (w.dropFuture name f).recast more past := by
  -- a future dropped lets go of a channel or of a grant, and both are told over as they are
  cases f with
  | acquire acquisition =>
    cases acquisition with
    | accepted c => exact dropReceiver_recast w more past c
    | refused failure => rfl
  | run work stage =>
    cases stage with
    | unstarted => rfl
    | waiting c =>
      simp only [dropFuture, dropReceiver_recast]
      rfl
    | working g rest => exact endGrant_recast (w.emit (.workDropped name)) more past g

theorem storeFuture_recast (name : String) (f : Future) :
    (w.recast more past).storeFuture name f = (w.storeFuture name f).recast more past := by
  have hfutures : (w.recast more past).futures = w.futures := rfl
  unfold storeFuture
  rw [hfutures]
  cases w.futures.get? name with
  | none => rfl
  | some old =>
    exact dropFuture_recast { w with futures := w.futures.put name f } more past name old

theorem acquire_recast (lock : LockId) (mode : Mode) (name : String) :
    (w.recast more past).acquire lock mode name =
      (w.acquire lock mode name).recast more past := by
  have hsubmit := submit_recast w.newChannel.1 more past lock mode (.sender w.newChannel.2)
  have hnew : (w.recast more past).newChannel =
      (w.newChannel.1.recast more past, w.newChannel.2) := rfl
  simp only [acquire, hnew, hsubmit]
  rfl

theorem acquired_recast (name : String) (c : ChannelId) (answer : Reply) :
    (w.recast more past).acquired name c answer =
      (w.acquired name c answer).recast more past := by
  have hgone : (w.recast more past).setChannel c .gone =
      (w.setChannel c .gone).recast more past := rfl
  cases answer <;> simp only [acquired, hgone, storeFuture_recast] <;> rfl

theorem pollAcquire_recast (name : String) (acquisition : Acquisition) :
    (w.recast more past).pollAcquire name acquisition =
      (w.pollAcquire name acquisition).recast more past := by
  cases acquisition with
  | refused failure => rfl
  | accepted c =>
    simp only [pollAcquire, receive_recast]
    -- what was received is the same, and only a grant does anything more
    cases w.receive c name with
    | mk w' received =>
      cases received with
      | grant g =>
        simp only [keep_recast]
        rfl
      | _ => rfl

theorem suspend_recast (name : String) (f : Future) :
    (w.recast more past).suspend name f = (w.suspend name f).recast more past := by
  simp only [suspend, storeFuture_recast]
  rfl

theorem awaitGrant_recast (name : String) (work : Work) (c : ChannelId) :
    (w.recast more past).awaitGrant name work c =
      (w.awaitGrant name work c).recast more past := by
  simp only [awaitGrant, receive_recast]
  cases w.receive c name with
  | mk w' received =>
    cases received with
    | notYet => exact suspend_recast w' more past name _
    | _ => rfl

theorem submitted_recast (name : String) (work : Work) (c : ChannelId) (answer : Reply) :
    (w.recast more past).submitted name work c answer =
      (w.submitted name work c answer).recast more past := by
  cases answer with
  | failed failure => rfl
  | _ => exact awaitGrant_recast w more past name work c

theorem pollRun_recast (name : String) (work : Work) (stage : Stage) :
    (w.recast more past).pollRun name work stage =
      (w.pollRun name work stage).recast more past := by
  cases stage with
  | unstarted =>
    -- the new channel has the number that it has in the world that is told over
    have hsubmit :=
      submit_recast w.newChannel.1 more past work.lock work.mode (.sender w.newChannel.2)
    have hnew : (w.recast more past).newChannel =
        (w.newChannel.1.recast more past, w.newChannel.2) := rfl
    simp only [pollRun, hnew, hsubmit]
    rfl
  | waiting c => exact awaitGrant_recast w more past name work c
  | working g rest => rfl

theorem poll_recast (name : String) :
    (w.recast more past).poll name = (w.poll name).recast more past := by
  have hfutures : (w.recast more past).futures = w.futures := rfl
  unfold poll
  rw [hfutures]
  cases w.futures.get? name with
  | none => rfl
  | some f =>
    -- the two kinds of futures are polled apart
    cases f with
    | acquire acquisition => exact pollAcquire_recast w more past name acquisition
    | run work stage =>
      exact pollRun_recast { w with futures := w.futures.remove name } more past name work stage

theorem dropStored_recast (name : String) :
    (w.recast more past).dropStored name = (w.dropStored name).recast more past := by
  have hfutures : (w.recast more past).futures = w.futures := rfl
  unfold dropStored
  rw [hfutures]
  cases w.futures.get? name with
  | none => rfl
  | some f =>
    have hdrop :=
      dropFuture_recast { w with futures := w.futures.remove name } more past name f
    exact congrArg (Move.answering · .ok) hdrop

/-! ## Actions -/

theorem locate_recast (context : Context) (cap : CapRef) :
    (w.recast more past).locate context cap = w.locate context cap := by
  cases cap with
  | own => rfl
  | named name => rfl
  | nth n =>
    have hkept : (w.recast more past).keptUnended = w.keptUnended := by
      unfold keptUnended
      -- which capabilities are kept and unended is not a matter of counters
      refine List.filter_congr ?_
      intro entry _
      exact isUnended_recast w more past entry.2
    simp only [locate, hkept]

theorem withCapability_recast {context : Context} {cap : CapRef} {use use' : Place → Grant → Move}
    (huse : ∀ place g, use' place g = (use place g).recast more past) :
    (w.recast more past).withCapability context cap use' =
      (w.withCapability context cap use).recast more past := by
  unfold withCapability
  rw [locate_recast]
  cases w.locate context cap with
  | none => rfl
  | some found => exact huse found.1 found.2

theorem withLock_recast {handle : Nat} {use use' : LockId → Move}
    (huse : ∀ lock, use' lock = (use lock).recast more past) :
    (w.recast more past).withLock handle use' = (w.withLock handle use).recast more past := by
  have hlock : (w.recast more past).lockOf? handle = w.lockOf? handle := rfl
  unfold withLock
  rw [hlock]
  cases w.lockOf? handle with
  | none => rfl
  | some lock => exact huse lock

theorem takeFrom_recast (g : Grant) (place : Place) :
    (w.recast more past).takeFrom g place = (w.takeFrom g place).recast more past := by
  cases place <;> rfl

end World

/-- Does the action ask a lock for its counters? -/
def Action.isStats : Action → Bool
  | .stats _ => true
  | _ => false

namespace World

variable (w : World) (more : LockId → Tally) (past : List Event)

/-- Only an action that asks for counters has to look at them. -/
theorem perform_recast (context : Context) {a : Action} (ha : a.isStats = false) :
    (w.recast more past).perform context a = (w.perform context a).recast more past := by
  have hactions : ∀ body, (w.recast more past).actionsOf body = w.actionsOf body := by
    intro body
    cases body <;> rfl
  -- each action finds what it means in the same place and does the same with it
  cases a with
  | submit handle mode tag entry ending quiet =>
    exact withLock_recast w more past fun lock => submit_recast w more past lock mode _
  | release cap =>
    refine withCapability_recast w more past ?_
    intro place g
    simp only [release_recast]
    rfl
  | drop cap =>
    refine withCapability_recast w more past ?_
    intro place g
    simp only [takeFrom_recast, endGrant_recast]
    rfl
  | «forget» cap =>
    refine withCapability_recast w more past ?_
    intro place g
    simp only [takeFrom_recast]
    rfl
  | park name =>
    refine withCapability_recast w more past ?_
    intro place g
    simp only [takeFrom_recast, keep_recast]
    rfl
  | inspect cap =>
    refine withCapability_recast w more past ?_
    intro place g
    simp only [isUnended_recast]
    rfl
  | look handle =>
    refine withLock_recast w more past ?_
    intro lock
    simp only [look, lock_recast, Lock.config_raised, Lock.state_raised, Lock.pending_raised]
    rfl
  | stats handle => cases ha
  | config handle =>
    refine withLock_recast w more past ?_
    intro lock
    simp only [lock_recast, Lock.config_raised]
    rfl
  | same a b =>
    exact withLock_recast w more past fun a => withLock_recast w more past fun b => rfl
  | clone handle => exact withLock_recast w more past fun lock => rfl
  | dropHandle handle =>
    have hlock : (w.recast more past).lockOf? handle = w.lockOf? handle := rfl
    simp only [perform, dropHandle, hlock]
    cases w.lockOf? handle <;> rfl
  | log message => rfl
  | count key => rfl
  | «when» key below body quiet =>
    have hcount : (w.recast more past).countOf key = w.countOf key := rfl
    simp only [perform, hcount, hactions]
    split <;> rfl
  | iterate times body quiet =>
    simp only [perform, hactions]
    rfl
  | guard body =>
    simp only [perform, hactions]
    rfl
  | thread body =>
    simp only [perform, startThread, hactions]
    rfl
  | panic fault => rfl
  | acquire handle mode name =>
    exact withLock_recast w more past fun lock => acquire_recast w more past lock mode name
  | run handle mode name work output =>
    refine withLock_recast w more past ?_
    intro lock
    simp only [storeFuture_recast]
    rfl
  | poll name => exact poll_recast w more past name
  | dropFuture name => exact dropStored_recast w more past name
  | pause => rfl
  | unknown word => rfl

/-- Who asks for counters sees the one failure. -/
theorem perform_stats_recast (context : Context) (handle : Nat) :
    (w.recast more past).perform context (.stats handle) =
      { (w.perform context (.stats handle)).recast more past with
        control :=
          match w.lockOf? handle with
          | none => .returned .noLock
          | some lock =>
            .returned (.stats ((w.lock lock).raised (w.extra more lock)).stats) } := by
  -- the handle means the same lock, whose counters are then the raised ones
  have hlock : (w.recast more past).lockOf? handle = w.lockOf? handle := rfl
  simp only [perform, withLock, hlock]
  cases w.lockOf? handle with
  | none => rfl
  | some lock =>
    simp only [lock_recast]
    rfl

/-! ## Frames -/

theorem dispatch_recast (lock : LockId) (outcome : Reply) :
    (w.recast more past).dispatch lock outcome =
      (w.dispatch lock outcome).recast more past := by
  have hthread : (w.recast more past).thread = w.thread := rfl
  unfold dispatch
  rw [lock_recast, hthread, Lock.next_raised, Lock.close_raised]
  -- the run list is not touched by counters, so the same request comes next
  cases (w.lock lock).next w.thread with
  | none =>
    simp only [Option.map_none, setLock_recast]
    rfl
  | some found =>
    simp only [Option.map_some, setLock_recast, start_recast]
    rfl

theorem unwindDispatch_recast (lock : LockId) (fault : Fault) :
    (w.recast more past).unwindDispatch lock fault =
      (w.unwindDispatch lock fault).recast more past := by
  have hthread : (w.recast more past).thread = w.thread := rfl
  simp only [unwindDispatch, lock_recast, hthread, Lock.close_raised, setLock_recast]
  rfl

theorem handBack_recast (lock : LockId) (items : List (Request Entry)) :
    (w.recast more past).handBack lock items = (w.handBack lock items).recast more past := by
  cases items with
  | nil => rfl
  | cons r rest =>
    simp only [handBack, endGrant_recast]
    rfl

theorem contain_recast (g : Grant) (fault : Fault) :
    (w.recast more past).contain g fault = (w.contain g fault).recast more past := by
  unfold contain
  split
  · rfl
  · rw [endGrant_recast]
    rfl

theorem reportFailure_recast (g : Grant) (failure : Failure) :
    (w.recast more past).reportFailure g failure =
      (w.reportFailure g failure).recast more past := by
  simp only [reportFailure, lock_recast, Lock.countFailure_raised, setLock_recast,
    Lock.config_raised, notify_recast]
  split <;> rfl

theorem logReply_recast (context : Context) (last : Option String) (reply : Reply) :
    (w.recast more past).logReply context last reply =
      (w.logReply context last reply).recast more past := by
  cases last with
  | none => rfl
  -- an answer is logged or not, as it is in the world that is told over
  | some word =>
    simp only [logReply]
    split <;> rfl

end World

namespace Frame

variable (w : World) (more : LockId → Tally) (past : List Event)

/-- The action that the frame begins once the frame above it has returned. -/
def next? : Frame → Option Action
  | actions _ _ (a :: _) => some a
  | working _ _ _ _ (a :: _) => some a
  | _ => none

theorem resume_recast {f : Frame} (hf : ∀ a ∈ f.next?, a.isStats = false) (reply : Reply) :
    f.resume (w.recast more past) reply = (f.resume w reply).recast more past := by
  -- a list and work have to be told apart: with their next action they may ask for counters
  cases f with
  | actions context last rest =>
    simp only [resume, World.logReply_recast]
    cases rest with
    | nil => rfl
    | cons a rest =>
      simp only [World.nextAction, World.perform_recast _ _ _ context (hf a (by simp [next?]))]
      rfl
  | finishing g t =>
    simp only [resume]
    split
    · simp only [World.dropOwned_recast]
      rfl
    · simp only [World.emit_recast, World.dropOwned_recast]
      rfl
  | concluding fault => cases fault <;> rfl
  | reporting g failure => exact World.reportFailure_recast w more past g failure
  | dispatching lock outcome => exact World.dispatch_recast w more past lock _
  | handingBack lock items => exact World.handBack_recast w more past lock items
  | discarding g entry =>
    simp only [resume, World.discard_recast]
    rfl
  | iterating context times body => cases times <;> rfl
  | acquiring name c => exact World.acquired_recast w more past name c reply
  | awaiting name work c => exact World.submitted_recast w more past name work c reply
  | working name work g last rest =>
    simp only [resume, World.logReply_recast]
    cases rest with
    | nil =>
      simp only [World.work, World.release_recast]
      rfl
    | cons a rest =>
      have hperform := World.perform_recast (w.logReply { tag := name } last reply) more past
        { tag := name } (hf a (by simp [next?]))
      cases a with
      | pause => exact World.suspend_recast _ more past name _
      | _ =>
        simp only [World.work, hperform]
        rfl
  | _ => rfl

theorem unwind_recast (f : Frame) (fault : Fault) :
    f.unwind (w.recast more past) fault = (f.unwind w fault).recast more past := by
  -- what a frame lets go of when it is left does not depend on counters
  cases f with
  | finishing g t =>
    simp only [unwind, World.dropOwned_recast]
    rfl
  | invocation g => exact World.contain_recast w.leaveSpan more past g fault
  | dispatching lock outcome => exact World.unwindDispatch_recast w more past lock fault
  | acquiring name c =>
    simp only [unwind, World.dropReceiver_recast]
    rfl
  | awaiting name work c =>
    simp only [unwind, World.dropReceiver_recast]
    rfl
  | working name work g last rest =>
    simp only [unwind, World.emit_recast, World.endGrant_recast]
    rfl
  | _ => rfl

end Frame

end FairLock
