import FairLock.Proofs.Channels
import FairLock.Proofs.Machine.Runs
import Mathlib.Algebra.BigOperators.Group.List.Basic

/-!
# The traffic of a machine

Where the ends of channels are in a world and on a stack, and what every operation does with them.
An operation is given some ends into its hands, passes on those that are stored in the world, and
leaves others with the frames that it puts on the stack.  Nothing has to be known of the world for
that: an operation on a lock that was never created finds it empty and free.

## Main definitions

- `sendersIn`: the senders in the queues and on the run lists of locks.
- `Frame.senders`, `Frame.receivers`: the ends that a frame has in its hands.
- `World.Passes`, `Move.Passes`: what becomes of the ends.
- `Machine.traffic`.

## Main statements

- `Frame.resume_passes`, `Frame.unwind_passes`, and the lemmas before them: the operations.
- `Machine.traffic_reaches`: a run of the machine is one of its traffic.
- `Machine.Reachable.traffic_ok`.
-/

namespace FairLock

/-! ## Where senders are -/

/-- The senders among requests. -/
def sendersAmong (requests : List (Request Entry)) : Multiset ChannelId :=
  (requests.map fun r => r.payload.senders).sum

@[simp] theorem sendersAmong_nil : sendersAmong [] = 0 := rfl

@[simp] theorem sendersAmong_cons (r : Request Entry) (rest : List (Request Entry)) :
    sendersAmong (r :: rest) = r.payload.senders + sendersAmong rest := by
  simp [sendersAmong]

@[simp] theorem sendersAmong_append (requests more : List (Request Entry)) :
    sendersAmong (requests ++ more) = sendersAmong requests + sendersAmong more := by
  simp [sendersAmong]

theorem mem_sendersAmong {requests : List (Request Entry)} {r : Request Entry}
    (hr : r ∈ requests) {c : ChannelId} (hc : c ∈ r.payload.senders) :
    c ∈ sendersAmong requests := by
  induction requests with
  | nil => cases hr
  | cons first rest ih =>
    rw [sendersAmong_cons, Multiset.mem_add]
    rcases List.mem_cons.1 hr with rfl | hr
    · exact .inl hc
    · exact .inr (ih hr)

theorem sendersAmong_perm {requests requests' : List (Request Entry)}
    (h : requests.Perm requests') : sendersAmong requests = sendersAmong requests' :=
  (h.map _).sum_eq

namespace Lock

variable {l l' : Lock Entry}

/-- The senders that wait or are deferred. -/
def senders (l : Lock Entry) : Multiset ChannelId :=
  sendersAmong l.core.queue + sendersAmong (deferredIn l.runLists)

theorem senders_openRunList (l : Lock Entry) (thread : ThreadId) :
    (l.openRunList thread []).senders = l.senders := by
  simp [senders, openRunList]

/-- What is drained goes from the queue to a run list. -/
theorem senders_release {id : GrantId} {mode : Mode} {batch : List (Request Entry)}
    (h : l.release id mode = (l', batch)) (thread : ThreadId) :
    (l'.deferBatch thread batch).senders = l.senders := by
  have hdeferred := sendersAmong_perm (l'.deferredIn_deferBatch thread batch)
  have hcore : (l'.deferBatch thread batch).core = l'.core := by
    rw [l'.deferBatch_eq thread batch]
  rw [senders, hdeferred, hcore, sendersAmong_append]
  -- the batch leaves the queue and is deferred, or there is none
  rcases release_cases h with ⟨-, rfl, rfl⟩ | ⟨-, rfl, rfl⟩
  · simp [senders]
  · have hqueue : sendersAmong l.core.queue =
        sendersAmong (batchOf l.core.queue) + sendersAmong (restOf l.core.queue) := by
      rw [← sendersAmong_append, batchOf_append_rest]
    simp only [senders, hqueue]
    ac_rfl

theorem senders_next {thread : ThreadId} {r : Request Entry} (h : l.next thread = some (r, l')) :
    l.senders = r.payload.senders + l'.senders := by
  obtain ⟨before, deferred, after, -, hl, rfl⟩ := next_cases h
  simp only [senders, hl, deferredIn_append, deferredIn_cons, sendersAmong_append,
    List.cons_append, sendersAmong_cons]
  ac_rfl

theorem senders_close (l : Lock Entry) (thread : ThreadId) :
    l.senders = (l.close thread).1.senders + sendersAmong (l.deferredOn thread) := by
  have hleft : l.deferredOn thread = (l.close thread).2 := rfl
  rw [hleft]
  rcases l.close_cases thread with ⟨before, deferred, after, -, hl, he⟩ | ⟨-, he⟩
  · simp only [he, senders, hl, deferredIn_append, deferredIn_cons, sendersAmong_append]
    ac_rfl
  · simp [he]

end Lock

/-- The senders in the queues and on the run lists of locks. -/
def sendersIn (locks : List (Lock Entry)) : Multiset ChannelId := (locks.map Lock.senders).sum

/-- The senders that a frame has in its hands. -/
def Frame.senders : Frame → Multiset ChannelId
  | .handingBack _ items => sendersAmong items
  | .discarding _ entry => entry.senders
  | _ => 0

/-- The receivers that a frame has in its hands. -/
def Frame.receivers : Frame → Multiset ChannelId
  | .acquiring _ c => {c}
  | .awaiting _ _ c => {c}
  | _ => 0

def sendersOf (frames : List Frame) : Multiset ChannelId := (frames.map Frame.senders).sum

def receiversOf (frames : List Frame) : Multiset ChannelId := (frames.map Frame.receivers).sum

/-! ## Passing ends on -/

namespace World

variable {w v u : World} {S R S' R' S'' R'' : Multiset ChannelId} {c : ChannelId}

/-- The channels of a world, with the ends that are in other hands. -/
def traffic (w : World) (senders receivers : Multiset ChannelId) : Traffic :=
  ⟨w.channels, w.futures, sendersIn w.locks + senders, receivers⟩

/-- What is in hand in the first world comes to be what is in hand in the second one, whatever there
    is in other hands. -/
def Passes (w : World) (senders receivers : Multiset ChannelId) (v : World)
    (senders' receivers' : Multiset ChannelId) : Prop :=
  ∀ others others', (w.traffic (senders + others) (receivers + others')).Run
    (v.traffic (senders' + others) (receivers' + others'))

namespace Passes

theorem refl (w : World) (S R : Multiset ChannelId) : w.Passes S R w S R := fun _ _ => .refl

theorem trans (h : w.Passes S R v S' R') (h' : v.Passes S' R' u S'' R'') :
    w.Passes S R u S'' R'' :=
  fun others others' => (h others others').trans (h' others others')

/-- What is held besides stays in hand. -/
theorem beside (h : w.Passes S R v S' R') (more more' : Multiset ChannelId) :
    w.Passes (S + more) (R + more') v (S' + more) (R' + more') := by
  intro others others'
  simpa only [add_assoc] using h (more + others) (more' + others')

/-- Senders that go from the locks into hands, or from there to the locks, are the same in all. -/
theorem of_senders (hchannels : v.channels = w.channels) (hfutures : v.futures = w.futures)
    (hsenders : sendersIn v.locks + S' = sendersIn w.locks + S) : w.Passes S R v S' R := by
  intro others others'
  have hsame : v.traffic (S' + others) (R + others') = w.traffic (S + others) (R + others') := by
    simp only [traffic, hchannels, hfutures, ← add_assoc, hsenders]
  rw [hsame]

/-- What leaves channels, futures and senders alone passes everything on. -/
theorem of_eq (hchannels : v.channels = w.channels) (hfutures : v.futures = w.futures)
    (hsenders : sendersIn v.locks = sendersIn w.locks) : w.Passes S R v S R :=
  of_senders hchannels hfutures (by rw [hsenders])

end Passes

/-! ### Locks -/

theorem sendersIn_cons (first : Lock Entry) (rest : List (Lock Entry)) :
    sendersIn (first :: rest) = first.senders + sendersIn rest :=
  List.sum_cons

/-- The senders of a lock make room for those of the lock that replaces it. -/
theorem sendersIn_set (locks : List (Lock Entry)) {id : LockId} (hid : id < locks.length)
    (l : Lock Entry) :
    sendersIn (locks.set id l) + (locks.getD id {}).senders = sendersIn locks + l.senders := by
  induction locks generalizing id with
  | nil => cases hid
  -- along the locks, to the one that is replaced
  | cons first rest ih =>
    cases id with
    | zero =>
      rw [List.set_cons_zero, List.getD_cons_zero, sendersIn_cons, sendersIn_cons]
      ac_rfl
    | succ id =>
      have hrest := ih (Nat.lt_of_succ_lt_succ hid)
      rw [List.set_cons_succ, List.getD_cons_succ, sendersIn_cons, sendersIn_cons, add_assoc, hrest,
        add_assoc]

theorem sendersIn_setLock {id : LockId} (hid : id < w.locks.length) (l : Lock Entry) :
    sendersIn (w.setLock id l).locks + (w.lock id).senders = sendersIn w.locks + l.senders :=
  sendersIn_set w.locks hid l

/-- What a lock loses goes into hands, and what it gets comes from there. -/
theorem passes_setLock_of_lt {id : LockId} {l : Lock Entry} (hid : id < w.locks.length)
    (hl : l.senders + S' = (w.lock id).senders + S) : w.Passes S R (w.setLock id l) S' R := by
  refine .of_senders rfl rfl (add_right_cancel (b := (w.lock id).senders) ?_)
  calc sendersIn (w.setLock id l).locks + S' + (w.lock id).senders
      = sendersIn (w.setLock id l).locks + (w.lock id).senders + S' := add_right_comm _ _ _
    _ = sendersIn w.locks + (l.senders + S') := by rw [sendersIn_setLock hid l, add_assoc]
    _ = sendersIn w.locks + S + (w.lock id).senders := by rw [hl, add_comm _ S, add_assoc]

theorem sendersIn_setLock_of_eq {id : LockId} {l : Lock Entry}
    (hl : l.senders = (w.lock id).senders) :
    sendersIn (w.setLock id l).locks = sendersIn w.locks := by
  by_cases hid : id < w.locks.length
  · have hset := sendersIn_setLock hid l
    rw [hl] at hset
    exact add_right_cancel hset
  · rw [setLock, List.set_eq_of_length_le (Nat.le_of_not_lt hid)]

theorem passes_setLock {id : LockId} {l : Lock Entry} (hl : l.senders = (w.lock id).senders) :
    w.Passes S R (w.setLock id l) S R :=
  .of_eq rfl rfl (sendersIn_setLock_of_eq hl)

/-! ### Channels -/

theorem getElem?_of_channel {ch : Channel} (h : w.channel c = ch) (hch : ch.isGone = false) :
    w.channels[c]? = some ch := by
  rw [channel, List.getD_eq_getElem?_getD] at h
  cases hget : w.channels[c]? with
  | none =>
    rw [hget, Option.getD_none] at h
    simp [← h, Channel.isGone] at hch
  | some found =>
    rw [hget, Option.getD_some] at h
    rw [h]

/-- A sender in hand is the first of all. -/
theorem traffic_sender (w : World) (c : ChannelId) (others receivers : Multiset ChannelId) :
    w.traffic ({c} + others) receivers =
      ⟨w.channels, w.futures, c ::ₘ (sendersIn w.locks + others), receivers⟩ := by
  rw [traffic, Multiset.singleton_add, Multiset.add_cons]

/-- So is a receiver. -/
theorem traffic_receiver (w : World) (c : ChannelId) (senders others : Multiset ChannelId) :
    w.traffic senders ({c} + others) =
      ⟨w.channels, w.futures, sendersIn w.locks + senders, c ::ₘ others⟩ := by
  rw [traffic, Multiset.singleton_add]

theorem passes_newChannel (w : World) :
    w.Passes 0 0 w.newChannel.1 {w.newChannel.2} {w.newChannel.2} := by
  intro others others'
  rw [traffic_sender, zero_add, zero_add, Multiset.singleton_add]
  exact .single .created

theorem passes_sent {waker : Option String} (h : w.channel c = .open waker) (g : Grant) :
    w.Passes {c} 0 (w.setChannel c (.sent g)) 0 0 := by
  intro others others'
  rw [traffic_sender, zero_add, zero_add]
  exact .single (.sent (getElem?_of_channel h rfl) g)

theorem passes_abandoned {waker : Option String} (h : w.channel c = .open waker) :
    w.Passes {c} 0 (w.setChannel c .abandoned) 0 0 := by
  intro others others'
  rw [traffic_sender, zero_add, zero_add]
  exact .single (.abandoned (getElem?_of_channel h rfl))

/-- Senders may go without a word. -/
theorem passes_unheard (w : World) (S : Multiset ChannelId) : w.Passes S 0 w 0 0 := by
  induction S using Multiset.induction with
  | empty => exact .refl w 0 0
  | cons c rest ih =>
    intro others others'
    rw [← Multiset.singleton_add, add_assoc, traffic_sender]
    exact (ih others others').head .unheard

theorem passes_closed (w : World) (c : ChannelId) : w.Passes 0 {c} (w.setChannel c .gone) 0 0 := by
  intro others others'
  rw [traffic_receiver, zero_add, zero_add]
  exact .single .closed

theorem passes_forgotten (w : World) (c : ChannelId) : w.Passes 0 {c} w 0 0 := by
  intro others others'
  rw [traffic_receiver, zero_add, zero_add]
  exact .single .forgotten

theorem passes_wake (w : World) (waker : Option String) : w.Passes S R (w.wake waker) S R := by
  cases waker <;> exact .of_eq rfl rfl rfl

theorem passes_receive (w : World) (c : ChannelId) (future : String) :
    w.Passes S R (w.receive c future).1 S R := by
  intro others others'
  unfold receive
  cases hc : w.channel c with
  | «open» waker => exact .single (.polled (getElem?_of_channel hc rfl) (some future))
  | sent g => exact .single (.received (getElem?_of_channel hc rfl))
  | abandoned => exact .single (.told (getElem?_of_channel hc rfl))
  | taken => exact .refl
  | gone => exact .refl

/-! ### Stored futures -/

theorem passes_stored (w : World) (name : String) (f : Future) :
    w.Passes 0 f.receivers { w with futures := w.futures.put name f } 0
      (displaced w.futures name) :=
  fun _ _ => .single (.stored name f)

theorem passes_fetched {name : String} {f : Future} (h : w.futures.get? name = some f) :
    w.Passes 0 0 { w with futures := w.futures.remove name } 0 f.receivers := by
  intro others others'
  rw [zero_add (a := others')]
  exact .single (.fetched h)

end World

/-! ## Moves -/

/-- What becomes of the ends that a move is given: they are in the world after it, or with the
    frames that it puts on the stack. -/
def Move.Passes (m : Move) (w : World) (senders receivers : Multiset ChannelId) : Prop :=
  w.Passes senders receivers m.world (sendersOf m.frames) (receiversOf m.frames)

namespace Move.Passes

variable {m : Move} {w v : World} {S R S' R' : Multiset ChannelId}

theorem after (h : m.Passes v S' R') (hw : w.Passes S R v S' R') : m.Passes w S R := hw.trans h

theorem before (h : m.Passes w S R) (frames : List Frame) :
    (m.before frames).Passes w (S + sendersOf frames) (R + receiversOf frames) := by
  have hmore := World.Passes.beside h (sendersOf frames) (receiversOf frames)
  simpa [Move.Passes, sendersOf, receiversOf] using hmore

/-- Frames that have no ends in their hands. -/
theorem before_bare (h : m.Passes w S R) {frames : List Frame} (hs : sendersOf frames = 0)
    (hr : receiversOf frames = 0) : (m.before frames).Passes w S R := by
  have hmore := h.before frames
  rwa [hs, hr, add_zero, add_zero] at hmore

theorem answering (h : m.Passes w S R) (reply : Reply) : (m.answering reply).Passes w S R :=
  h.before_bare rfl rfl

/-- A move that only changes the world. -/
theorem of_world (h : w.Passes S R v 0 0) {control : Control} :
    Move.Passes { world := v, control := control } w S R := h

end Move.Passes

namespace World

variable {w : World} {g : Grant} {lock : LockId}

/-- A move that puts nothing on the stack but frames without ends. -/
theorem passes_frames (w : World) {frames : List Frame} (hs : sendersOf frames = 0)
    (hr : receiversOf frames = 0) : Move.Passes { world := w, frames := frames } w 0 0 := by
  show w.Passes 0 0 w (sendersOf frames) (receiversOf frames)
  rw [hs, hr]
  exact .refl w 0 0

/-! ### Grants -/

/-- Ending a grant moves senders from the queue to a run list at most. -/
theorem passes_endUnended (hid : g.lock < w.locks.length) : (w.endUnended g).Passes w 0 0 := by
  cases hrelease : (w.lock g.lock).release g.id g.mode with
  | mk l batch =>
    obtain ⟨hworld, -⟩ := endUnended_eq hid hrelease
    -- what an end puts on the stack is a loop at most, and a loop carries no ends of channels
    have hbare : ∀ frames : List Frame, (∀ f ∈ frames, f = .dispatching g.lock (some .nothing)) →
        sendersOf frames = 0 ∧ receiversOf frames = 0 := by
      intro frames hall
      rw [List.eq_replicate_of_mem hall]
      simp [sendersOf, receiversOf, Frame.senders, Frame.receivers]
    obtain ⟨hs, hr⟩ := hbare _ fun f => loop_of_mem_endUnended hid
    show w.Passes 0 0 (w.endUnended g).world _ _
    rw [hs, hr, hworld]
    refine .of_eq rfl rfl ?_
    exact sendersIn_setLock_of_eq (Lock.senders_release hrelease w.thread)

theorem passes_endGrant (w : World) (g : Grant) : (w.endGrant g).Passes w 0 0 := by
  unfold endGrant
  split
  · rename_i hunended
    exact passes_endUnended (lock_lt_of_isUnended hunended)
  · exact .refl w 0 0

theorem passes_release (w : World) (g : Grant) : (w.release g).1.Passes w 0 0 := by
  unfold release
  split
  · rename_i hunended
    exact passes_endUnended (lock_lt_of_isUnended hunended)
  · have hcount : w.Passes 0 0 (w.setLock g.lock (w.lock g.lock).countRedundant) 0 0 :=
      passes_setLock rfl
    exact hcount.trans (.of_eq rfl rfl rfl)

/-- An entry that is dropped uncalled lets go of its sender. -/
theorem passes_discard (w : World) (grant : Option Grant) (entry : Entry) :
    w.Passes entry.senders 0 (w.discard grant entry) 0 0 := by
  -- a task has no sender; a sender is used up when its channel hears of the drop
  cases entry with
  | task t => exact .of_eq rfl rfl rfl
  | sender c =>
    have hemit : w.Passes {c} 0 (w.emit (.discarded grant none)) {c} 0 := .of_eq rfl rfl rfl
    refine hemit.trans ?_
    unfold discard
    cases hc : (w.emit (.discarded grant none)).channel c with
    | «open» waker =>
      simp only [hc]
      exact (passes_abandoned hc).trans (passes_wake _ waker)
    | _ =>
      simp only [hc]
      exact passes_unheard _ {c}

/-- An entry that is started uses its sender up. -/
theorem passes_start (w : World) (lock : LockId) (r : Request Entry) :
    (w.start lock r).Passes w r.payload.senders 0 := by
  unfold start
  cases r.payload with
  | task t => exact .of_eq rfl rfl rfl
  | sender c =>
    have hstarted : ∀ g, w.Passes {c} 0
        (({ w with entered := g :: w.entered } : World).emit (.started g w.thread none)) {c} 0 :=
      fun g => .of_eq rfl rfl rfl
    refine Move.Passes.after ?_ (hstarted ⟨lock, r.id, r.mode⟩)
    simp only [startSender]
    generalize ({ w with entered := ⟨lock, r.id, r.mode⟩ :: w.entered } : World).emit
      (.started ⟨lock, r.id, r.mode⟩ w.thread none) = started
    cases hc : started.channel c with
    | «open» waker => exact (passes_sent hc _).trans (passes_wake _ waker)
    | _ =>
      -- nobody listens any more, and the grant ends at once
      refine Move.Passes.after ?_ (passes_unheard started {c})
      exact (passes_endGrant started _).before_bare rfl rfl

theorem passes_startGranted (w : World) (lock : LockId) (r : Request Entry) :
    (w.startGranted lock r).Passes w r.payload.senders 0 := by
  unfold startGranted
  split
  · exact passes_start w lock r
  · have hopened := passes_setLock (w := w) (S := r.payload.senders) (R := 0)
      ((w.lock lock).senders_openRunList w.thread)
    exact ((passes_start _ lock r).after hopened).before_bare rfl rfl

/-- A submission starts the entry, lets it wait, or drops it. -/
theorem passes_submit (w : World) (lock : LockId) (mode : Mode) (entry : Entry) :
    (w.submit lock mode entry).Passes w entry.senders 0 := by
  cases hsubmit : (w.lock lock).submit mode entry with
  | mk l submission =>
    cases submission with
    | granted r =>
      obtain ⟨-, -, rfl, rfl⟩ := Lock.submit_granted hsubmit
      simp only [submit, hsubmit, issue_eq]
      refine (passes_startGranted _ lock _).after ?_
      refine Passes.trans (passes_setLock ?_) (.of_eq rfl rfl rfl)
      rfl
    | queued id pending =>
      obtain ⟨hwait, -, -, -, hl⟩ := Lock.submit_queued hsubmit
      -- on a lock that is not there nobody would have to wait
      have hid : lock < w.locks.length := by
        by_contra hid
        rw [lock_of_not_lt hid] at hwait
        simpa using hwait rfl
      have hsenders : l.senders = (w.lock lock).senders + entry.senders := by
        simp only [hl, Lock.senders, sendersAmong_append, sendersAmong_cons, sendersAmong_nil,
          add_zero]
        ac_rfl
      have hwaits : w.Passes entry.senders 0 (w.setLock lock l) 0 0 :=
        passes_setLock_of_lt hid (by rw [hsenders, add_zero])
      simp only [submit, hsubmit]
      exact hwaits.trans (.of_eq rfl rfl rfl)
    | rejected refused limit =>
      obtain ⟨-, -, rfl, rfl⟩ := Lock.submit_rejected hsubmit
      simp only [submit, hsubmit]
      refine Move.Passes.of_world (Passes.trans ?_ (passes_discard _ none refused))
      refine Passes.trans (passes_setLock ?_) (.of_eq rfl rfl rfl)
      rfl

theorem passes_dropOwned (w : World) (g : Grant) : (w.dropOwned g).Passes w 0 0 := by
  unfold dropOwned
  split
  · exact (passes_endGrant _ g).after (.of_eq rfl rfl rfl)
  · exact .refl w 0 0

theorem passes_keep (w : World) (name : String) (g : Grant) : (w.keep name g).Passes w 0 0 := by
  unfold keep
  refine Move.Passes.after ?_
    (v := { w with store := w.store.put name g }) (.of_eq rfl rfl rfl)
  cases w.store.get? name with
  | none => exact .refl _ 0 0
  | some old => exact passes_endGrant _ old

/-! ### Futures -/

theorem passes_dropReceiver (w : World) (c : ChannelId) : (w.dropReceiver c).Passes w 0 {c} := by
  unfold dropReceiver
  refine Move.Passes.after ?_ (passes_closed w c)
  cases w.channel c with
  | sent g => exact passes_endGrant _ g
  | _ => exact .refl _ 0 0

theorem passes_dropFuture (w : World) (name : String) (f : Future) :
    (w.dropFuture name f).Passes w 0 f.receivers := by
  cases f with
  -- in each stage at most one receiver goes
  | acquire acquisition =>
    cases acquisition with
    | accepted c => exact passes_dropReceiver w c
    | refused failure => exact .refl w 0 0
  | run work stage =>
    cases stage with
    | unstarted => exact .of_eq rfl rfl rfl
    | waiting c => exact (passes_dropReceiver w c).before_bare rfl rfl
    | working g rest => exact (passes_endGrant _ g).after (.of_eq rfl rfl rfl)

theorem passes_storeFuture (w : World) (name : String) (f : Future) :
    (w.storeFuture name f).Passes w 0 f.receivers := by
  unfold storeFuture
  refine Move.Passes.after ?_ (passes_stored w name f)
  unfold displaced
  cases w.futures.get? name with
  | none => exact .refl _ 0 0
  | some old => exact passes_dropFuture _ name old

theorem passes_acquired (w : World) (name : String) (c : ChannelId) (answer : Reply) :
    (w.acquired name c answer).Passes w 0 {c} := by
  unfold acquired
  refine Move.Passes.answering ?_ _
  cases answer with
  | failed failure =>
    exact (passes_storeFuture _ name (.acquire (.refused (some failure)))).after
      (passes_closed w c)
  | _ => exact passes_storeFuture w name (.acquire (.accepted c))

/-- A future for access is polled where it is stored. -/
theorem passes_pollAcquire {name : String} {acquisition : Acquisition}
    (h : w.futures.get? name = some (.acquire acquisition)) :
    (w.pollAcquire name acquisition).Passes w 0 0 := by
  cases acquisition with
  | refused failure =>
    -- the future that is stored makes room for itself, and neither waits
    have hstored := passes_stored w name (.acquire (.refused none))
    rw [displaced, h] at hstored
    exact hstored
  | accepted c =>
    have hreceive : w.Passes 0 0 (w.receive c name).1 0 0 := passes_receive w c name
    simp only [pollAcquire]
    generalize w.receive c name = p at hreceive ⊢
    obtain ⟨v, received⟩ := p
    refine Move.Passes.after ?_ hreceive
    cases received with
    | grant g => exact (passes_keep v name g).answering _
    | _ => exact .refl v 0 0

theorem passes_awaitGrant (w : World) (name : String) (work : Work) (c : ChannelId) :
    (w.awaitGrant name work c).Passes w 0 {c} := by
  have hreceive : w.Passes 0 {c} (w.receive c name).1 0 {c} := passes_receive w c name
  unfold awaitGrant
  generalize w.receive c name = p at hreceive ⊢
  obtain ⟨v, received⟩ := p
  refine Move.Passes.after ?_ hreceive
  -- the future goes on waiting, or it has no use for the channel any more
  cases received with
  | notYet => exact (passes_storeFuture v name (.run work (.waiting c))).answering _
  | _ => exact (passes_forgotten v c).trans (.of_eq rfl rfl rfl)

theorem passes_submitted (w : World) (name : String) (work : Work) (c : ChannelId)
    (answer : Reply) : (w.submitted name work c answer).Passes w 0 {c} := by
  unfold submitted
  cases answer with
  | failed failure => exact (passes_closed w c).trans (.of_eq rfl rfl rfl)
  | _ => exact passes_awaitGrant w name work c

/-- A request whose capability will come through a channel, and the frame that has the receiver. -/
theorem passes_request (w : World) (lock : LockId) (mode : Mode) {frame : Frame}
    (hs : frame.senders = 0) (hr : frame.receivers = {w.newChannel.2}) :
    ((w.newChannel.1.submit lock mode (.sender w.newChannel.2)).before [frame]).Passes w 0 0 := by
  refine Move.Passes.after ?_ (passes_newChannel w)
  have hsubmit := (passes_submit w.newChannel.1 lock mode (.sender w.newChannel.2)).before [frame]
  simpa [sendersOf, receiversOf, hs, hr, Entry.senders] using hsubmit

theorem passes_pollRun (w : World) (name : String) (work : Work) (stage : Stage) :
    (w.pollRun name work stage).Passes w 0 (Future.run work stage).receivers := by
  cases stage with
  | unstarted => exact passes_request w work.lock work.mode rfl rfl
  | waiting c => exact passes_awaitGrant w name work c
  | working g rest => exact passes_frames w rfl rfl

theorem passes_poll (w : World) (name : String) : (w.poll name).Passes w 0 0 := by
  unfold poll
  cases hget : w.futures.get? name with
  | none => exact .refl w 0 0
  | some f =>
    cases f with
    | acquire acquisition => exact passes_pollAcquire hget
    | run work stage => exact (passes_pollRun _ name work stage).after (passes_fetched hget)

theorem passes_dropStored (w : World) (name : String) : (w.dropStored name).Passes w 0 0 := by
  unfold dropStored
  cases hget : w.futures.get? name with
  | none => exact .refl w 0 0
  | some f => exact ((passes_dropFuture _ name f).after (passes_fetched hget)).answering _

/-! ### Actions -/

theorem passes_withCapability (w : World) (context : Context) (cap : CapRef)
    {use : Place → Grant → Move} (huse : ∀ place g, (use place g).Passes w 0 0) :
    (w.withCapability context cap use).Passes w 0 0 := by
  unfold withCapability
  cases w.locate context cap with
  | none => exact .refl w 0 0
  | some found => exact huse found.1 found.2

theorem passes_withLock (w : World) (handle : Nat) {use : LockId → Move}
    (huse : ∀ lock, (use lock).Passes w 0 0) : (w.withLock handle use).Passes w 0 0 := by
  unfold withLock
  cases w.lockOf? handle with
  | none => exact .refl w 0 0
  | some lock => exact huse lock

theorem passes_takeFrom (w : World) (g : Grant) (place : Place) :
    w.Passes 0 0 (w.takeFrom g place) 0 0 := by
  cases place <;> exact .of_eq rfl rfl rfl

theorem passes_perform (w : World) (context : Context) (a : Action) :
    (w.perform context a).Passes w 0 0 := by
  -- an action makes, moves or drops the two ends of channels, and never copies one
  cases a with
  | submit handle mode tag entry ending quiet =>
    exact passes_withLock w handle fun lock => passes_submit w lock mode (.task _)
  | release cap =>
    exact passes_withCapability w context cap fun _ g => (passes_release w g).answering _
  | drop cap =>
    refine passes_withCapability w context cap fun place g => ?_
    exact ((passes_endGrant _ g).after (passes_takeFrom w g place)).answering _
  | «forget» cap =>
    refine passes_withCapability w context cap fun place g => ?_
    exact (passes_takeFrom w g place).trans (.of_eq rfl rfl rfl)
  | park name =>
    refine passes_withCapability w context .own fun place g => ?_
    exact ((passes_keep _ _ g).after (passes_takeFrom w g place)).answering _
  | inspect cap => exact passes_withCapability w context cap fun _ g => .refl w 0 0
  | look handle => exact passes_withLock w handle fun lock => .refl w 0 0
  | stats handle => exact passes_withLock w handle fun lock => .refl w 0 0
  | config handle => exact passes_withLock w handle fun lock => .refl w 0 0
  | same a b =>
    exact passes_withLock w a fun a => passes_withLock w b fun b => .refl w 0 0
  | clone handle => exact passes_withLock w handle fun lock => .of_eq rfl rfl rfl
  | dropHandle handle =>
    simp only [perform, dropHandle]
    split <;> exact .of_eq rfl rfl rfl
  | log message => exact .of_eq rfl rfl rfl
  | count key => exact .of_eq rfl rfl rfl
  | «when» key below body quiet =>
    simp only [perform]
    split
    · exact passes_frames w rfl rfl
    · exact .refl w 0 0
  | iterate times body quiet => exact passes_frames w rfl rfl
  | guard body => exact passes_frames w rfl rfl
  | thread body => exact .of_eq rfl rfl rfl
  | panic fault => exact .refl w 0 0
  | acquire handle mode name =>
    exact passes_withLock w handle fun lock => passes_request w lock mode rfl rfl
  | run handle mode name work output =>
    refine passes_withLock w handle fun lock => ?_
    exact (passes_storeFuture w name (.run ⟨lock, mode, work, output⟩ .unstarted)).answering _
  | poll name => exact passes_poll w name
  | dropFuture name => exact passes_dropStored w name
  | pause => exact .refl w 0 0
  | unknown word => exact .refl w 0 0

/-! ### Frames -/

theorem passes_logReply (w : World) (context : Context) (last : Option String) (reply : Reply) :
    w.Passes 0 0 (w.logReply context last reply) 0 0 := by
  unfold logReply
  cases last with
  | none => exact .refl w 0 0
  | some word =>
    dsimp only
    split <;> exact .of_eq rfl rfl rfl

theorem passes_nextAction (w : World) (context : Context) (rest : List Action) :
    (w.nextAction context rest).Passes w 0 0 := by
  cases rest with
  | nil => exact .refl w 0 0
  | cons a rest => exact (passes_perform w context a).before_bare rfl rfl

/-- A loop starts the next entry on its run list. -/
theorem passes_dispatch (w : World) (lock : LockId) (outcome : Reply) :
    (w.dispatch lock outcome).Passes w 0 0 := by
  unfold dispatch
  cases hnext : (w.lock lock).next w.thread with
  | none =>
    have hempty := Lock.deferredOn_of_next_eq_none hnext
    have hclose := (w.lock lock).senders_close w.thread
    rw [hempty, sendersAmong_nil, add_zero] at hclose
    exact passes_setLock hclose.symm
  | some found =>
    obtain ⟨r, l⟩ := found
    have hid : lock < w.locks.length := by
      by_contra hid
      rw [lock_of_not_lt hid] at hnext
      simp [Lock.next, Lock.takeFrom] at hnext
    -- the sender that was taken off the run list goes into the hands of the start
    have htaken : w.Passes 0 0 (w.setLock lock l) r.payload.senders 0 :=
      passes_setLock_of_lt hid (by rw [Lock.senders_next hnext, add_zero, add_comm])
    exact ((passes_start _ lock r).after htaken).before_bare rfl rfl

/-- An unwound loop hands what was left on its run list to the frame that cleans up. -/
theorem passes_unwindDispatch (w : World) (lock : LockId) (fault : Fault) :
    (w.unwindDispatch lock fault).Passes w 0 0 := by
  have hs : sendersOf (w.unwindDispatch lock fault).frames =
      sendersAmong ((w.lock lock).deferredOn w.thread) := by
    simp [unwindDispatch, sendersOf, Frame.senders, Lock.close]
  have hr : receiversOf (w.unwindDispatch lock fault).frames = 0 := rfl
  show w.Passes 0 0 (w.setLock lock ((w.lock lock).close w.thread).1) _ _
  rw [hs, hr]
  -- on a lock that is not there nothing was deferred and nothing is closed
  by_cases hid : lock < w.locks.length
  · refine passes_setLock_of_lt hid ?_
    rw [add_zero, ← Lock.senders_close]
  · rw [lock_of_not_lt hid]
    exact passes_setLock (by rw [lock_of_not_lt hid]; rfl)

theorem passes_handBack (w : World) (lock : LockId) (items : List (Request Entry)) :
    (w.handBack lock items).Passes w (sendersAmong items) 0 := by
  cases items with
  | nil => exact .refl w 0 0
  | cons r rest =>
    have hend := (passes_endGrant w (r.grant lock)).before
      [.discarding (r.grant lock) r.payload, .handingBack lock rest]
    have hs : sendersOf [.discarding (r.grant lock) r.payload, .handingBack lock rest] =
        sendersAmong (r :: rest) := by simp [sendersOf, Frame.senders]
    have hr : receiversOf [.discarding (r.grant lock) r.payload, .handingBack lock rest] = 0 := rfl
    rwa [hs, hr, zero_add, zero_add] at hend

theorem passes_contain (w : World) (g : Grant) (fault : Fault) :
    (w.contain g fault).Passes w 0 0 := by
  unfold contain
  split
  · exact .refl w 0 0
  · exact (passes_endGrant w g).before_bare rfl rfl

theorem passes_reportFailure (w : World) (g : Grant) (failure : Failure) :
    (w.reportFailure g failure).Passes w 0 0 := by
  have hcount : w.Passes 0 0 (w.setLock g.lock (w.lock g.lock).countFailure) 0 0 :=
    passes_setLock rfl
  refine hcount.trans ?_
  unfold reportFailure
  dsimp only
  split <;> exact .of_eq rfl rfl rfl

theorem passes_work (w : World) (name : String) (work : Work) (g : Grant) (rest : List Action) :
    (w.work name work g rest).Passes w 0 0 := by
  -- stored work has no receiver while it works
  cases rest with
  | nil => exact (passes_release w g).answering _
  | cons a rest =>
    cases a with
    | pause => exact (passes_storeFuture w name (.run work (.working g rest))).answering _
    | _ => exact (passes_perform w _ _).before_bare rfl rfl

end World

namespace Frame

/-- What a frame has in its hands when the frame above it returns is passed on. -/
theorem resume_passes (w : World) (reply : Reply) (f : Frame) :
    (f.resume w reply).Passes w f.senders f.receivers := by
  -- each frame passes on what it carries, and most of them carry nothing
  cases f with
  | actions context last rest =>
    exact (World.passes_nextAction _ context rest).after (w.passes_logReply context last reply)
  | answering answer => exact .refl w 0 0
  | finishing g t =>
    have hended : w.Passes 0 0 (if t.quiet then w else w.emit (.ended t.tag)) 0 0 := by
      split <;> exact .of_eq rfl rfl rfl
    exact ((World.passes_dropOwned _ g).after hended).before_bare rfl rfl
  | concluding fault => cases fault <;> exact .refl w 0 0
  | invocation g => exact .of_eq rfl rfl rfl
  | reporting g failure => exact w.passes_reportFailure g failure
  | dispatching lock outcome => exact w.passes_dispatch lock _
  | handingBack lock items => exact w.passes_handBack lock items
  | discarding g entry => exact w.passes_discard (some g) entry
  | rethrowing fault => exact .refl w 0 0
  | joining thread entered => exact .of_eq rfl rfl rfl
  | guarding => exact .refl w 0 0
  | iterating context times body =>
    cases times with
    | zero => exact .refl w 0 0
    | succ times => exact w.passes_frames rfl rfl
  | acquiring name c => exact w.passes_acquired name c reply
  | awaiting name work c => exact w.passes_submitted name work c reply
  | working name work g last rest =>
    exact (World.passes_work _ name work g rest).after (w.passes_logReply _ last reply)
  | droppingWork name => exact .of_eq rfl rfl rfl

/-- So it is when the frame is unwound. -/
theorem unwind_passes (w : World) (fault : Fault) (f : Frame) :
    (f.unwind w fault).Passes w f.senders f.receivers := by
  cases f with
  | finishing g t => exact (w.passes_dropOwned g).before_bare rfl rfl
  | invocation g => exact (World.passes_contain _ g fault).after (.of_eq rfl rfl rfl)
  | dispatching lock outcome => exact w.passes_unwindDispatch lock fault
  | acquiring name c => exact (w.passes_dropReceiver c).before_bare rfl rfl
  | awaiting name work c => exact (w.passes_dropReceiver c).before_bare rfl rfl
  | working name work g last rest =>
    have hemit : w.Passes 0 0 (w.emit (.workDropped name)) 0 0 := .of_eq rfl rfl rfl
    exact ((World.passes_endGrant _ g).after hemit).before_bare rfl rfl
  -- a panic has left the cleaning up, and nothing more is done for the entries
  | handingBack lock items => exact w.passes_unheard (sendersAmong items)
  | discarding g entry => exact w.passes_unheard entry.senders
  | _ => exact .of_eq rfl rfl rfl

end Frame

/-! ## Machines -/

namespace World

/-- The world in which a script begins has no channels and no futures, and nobody waits. -/
theorem traffic_initial (configs : List Config) (procedures : Table (List Action)) :
    (initial configs procedures).traffic 0 0 = ⟨[], [], 0, 0⟩ := by
  have hstart : ({ procedures := procedures } : World).traffic 0 0 = ⟨[], [], 0, 0⟩ := rfl
  unfold initial
  generalize ({ procedures := procedures } : World) = w at hstart
  -- creating a lock makes no channel and no future
  induction configs generalizing w with
  | nil => exact hstart
  | cons config rest ih =>
    refine ih (w.create config) ?_
    have hsenders : sendersIn (w.create config).locks = sendersIn w.locks := by
      simp [create, notify, emit, sendersIn, Lock.senders]
    rw [← hstart, traffic, hsenders]
    rfl

end World

namespace Machine

variable {m m' : Machine}

/-- The channels of a machine, with their ends. -/
def traffic (m : Machine) : Traffic := m.world.traffic (sendersOf m.frames) (receiversOf m.frames)

theorem traffic_ofMove {w : World} {move : Move} {S R : Multiset ChannelId}
    (h : move.Passes w S R) (below : List Frame) :
    (w.traffic (S + sendersOf below) (R + receiversOf below)).Run (ofMove move below).traffic := by
  have hrun := h (sendersOf below) (receiversOf below)
  simpa [traffic, ofMove, sendersOf, receiversOf] using hrun

theorem traffic_step (m : Machine) : m.traffic.Run m.step.traffic := by
  obtain ⟨w, frames, control⟩ := m
  cases frames with
  | nil => exact .refl
  | cons f below =>
    have htop : traffic ⟨w, f :: below, control⟩ =
        w.traffic (f.senders + sendersOf below) (f.receivers + receiversOf below) := by
      simp [traffic, sendersOf, receiversOf]
    rw [htop]
    -- passed to the frame on top: its own ends are in play, and those below stay
    cases control with
    | returned reply => exact traffic_ofMove (f.resume_passes w reply) below
    | unwinding fault => exact traffic_ofMove (f.unwind_passes w fault) below
    | aborted => exact htop ▸ .refl

theorem Next.traffic (h : Next m m') : m.traffic.Run m'.traffic := by
  cases h with
  | step => exact m.traffic_step
  | @call w control a hcontrol =>
    have hrun := traffic_ofMove (w.passes_perform {} a) []
    simpa [Machine.traffic, begin, sendersOf, receiversOf] using hrun

/-- A run of a machine is one of its traffic. -/
theorem traffic_reaches (h : Reaches m m') : m.traffic.Run m'.traffic := by
  induction h with
  | refl => exact .refl
  | tail _ hn ih => exact ih.trans hn.traffic

theorem Reachable.traffic_ok (h : m.Reachable) : m.traffic.Ok := by
  obtain ⟨configs, procedures, hr⟩ := h
  refine (traffic_reaches hr).ok ?_
  have hinitial : (idle (World.initial configs procedures)).traffic = ⟨[], [], 0, 0⟩ :=
    World.traffic_initial configs procedures
  rw [hinitial]
  exact ⟨.nil, Multiset.nodup_zero, by simp [Traffic.Each], Multiset.nodup_zero,
    by simp [Traffic.Each, receiversIn]⟩

end Machine

end FairLock
