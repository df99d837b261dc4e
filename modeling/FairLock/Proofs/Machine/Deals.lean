import FairLock.Proofs.Channels
import FairLock.Proofs.Machine.Makes

/-!
# What a move comes down to

A move may first do things that concern no lock: it logs something, passes capabilities around,
works at the receiving end of a channel.  Then it does one thing with a lock at most, and what it
puts on the stack besides only answers and goes on.  Here that is said once for every operation, and
with it for every frame but the loops and those that clean up after them; whoever wants to know
what can start an entry point, end a grant or wake a future looks at the few deeds.

Three kinds of calls are told apart from everything else, because what they answer or may do depends
on what has happened: a poll of a channel, the news that a request has failed, and a release.

## Main definitions

- `Call`; `World.Asks`, `Frame.Asks`: the calls that an action and a frame make.
- `World.Receives`: what happens before; `World.Deed`: the one thing done with a lock.
- `World.Deals`: a move that comes down to that.

## Main statements

- `World.deals_perform`, `Frame.deals_resume`, `Frame.deals_unwind`, and the lemmas before them.
- `World.Deals.makes`: how such a move is put together.
-/

namespace FairLock

/-- A call of which more has to be known than the frame that makes it. -/
inductive Call where
  /-- A future looks into its channel. -/
  | poll (channel : ChannelId) (future : String)
  /-- A future learns that its request has failed. -/
  | fail (channel : ChannelId)
  /-- A grant is released through a capability that stays where it is. -/
  | release (grant : Grant)

/-- The future that an event wakes. -/
@[simp] def Event.woken? : Event → Option String
  | woken future => some future
  | _ => none

/-- Is the frame neither a loop nor the end of a thread, and does it not clean up after a loop? -/
def Frame.isSimple : Frame → Bool
  | .dispatching _ _ => false
  | .joining _ _ => false
  | .handingBack _ _ => false
  | .discarding _ _ => false
  | _ => true

namespace World

/-! ## Calls -/

/-- The call that an action makes. -/
inductive Asks (w : World) (context : Context) : Action → Call → Prop where
  | poll {name : String} {f : Future} {c : ChannelId} (h : w.futures.get? name = some f)
      (hc : c ∈ f.receivers) : Asks w context (.poll name) (.poll c name)
  | release {cap : CapRef} {place : Place} {g : Grant}
      (h : w.locate context cap = some (place, g)) : Asks w context (.release cap) (.release g)

end World

/-- The call that a frame makes when the frame above it has returned. -/
inductive Frame.Asks (w : World) (reply : Reply) : Frame → Call → Prop where
  | action {context : Context} {last : Option String} {a : Action} {rest : List Action}
      {call : Call} (h : (w.logReply context last reply).Asks context a call) :
      Frame.Asks w reply (.actions context last (a :: rest)) call
  | work {name : String} {work : Work} {g : Grant} {last : Option String} {a : Action}
      {rest : List Action} {call : Call} (ha : a ≠ .pause)
      (h : (w.logReply { tag := name } last reply).Asks { tag := name } a call) :
      Frame.Asks w reply (.working name work g last (a :: rest)) call
  | refused {name : String} {c : ChannelId} {failure : Failure} (hreply : reply = .failed failure) :
      Frame.Asks w reply (.acquiring name c) (.fail c)
  | refusedWork {name : String} {work : Work} {c : ChannelId} {failure : Failure}
      (hreply : reply = .failed failure) : Frame.Asks w reply (.awaiting name work c) (.fail c)
  /-- A future with work looks whether its request was granted on the spot. -/
  | awaited {name : String} {work : Work} {c : ChannelId}
      (hreply : ∀ failure, reply ≠ .failed failure) :
      Frame.Asks w reply (.awaiting name work c) (.poll c name)
  /-- The work is done, and its grant is released. -/
  | worked {name : String} {work : Work} {g : Grant} {last : Option String} :
      Frame.Asks w reply (.working name work g last []) (.release g)

namespace World

/-! ## What happens before -/

/-- Locks and threads are left alone, and what is recorded concerns no lock and wakes nobody. -/
structure Apart (w v : World) : Prop where
  locks : v.locks = w.locks
  thread : v.thread = w.thread
  threads : v.threads = w.threads
  history : ∃ new, v.history = new ++ w.history ∧ ∀ e ∈ new, e.lock? = none ∧ e.woken? = none

/-- Something happens at the receiving end of a channel, or nothing to any channel. -/
inductive Receives (may : Call → Prop) : World → World → Prop where
  | apart {w v : World} (h : w.Apart v) (hchannels : v.channels = w.channels) : Receives may w v
  /-- A poll finds nothing yet. -/
  | polled {w : World} {c : ChannelId} {future : String} {waker : Option String}
      (hmay : may (.poll c future)) (h : w.channel c = .open waker) :
      Receives may w (w.setChannel c (.open (some future)))
  /-- A poll finds a capability, or that there will be none. -/
  | received {w : World} {c : ChannelId} {future : String} (hmay : may (.poll c future))
      (h : (∃ g, w.channel c = .sent g) ∨ w.channel c = .abandoned) :
      Receives may w (w.setChannel c .taken)
  /-- A receiver is dropped, and no capability with it. -/
  | closed {w : World} {c : ChannelId} (h : (∀ g, w.channel c ≠ .sent g) ∨ may (.fail c)) :
      Receives may w (w.setChannel c .gone)

/-! ## What is done with a lock -/

/-- The one thing that a move does with a lock, if it does any. -/
inductive Deed (may : Call → Prop) : World → Move → Prop where
  | done {w : World} (control : Control) : Deed may w { world := w, control := control }
  | ended {w : World} {g : Grant} (h : w.isUnended g = true) : Deed may w (w.endUnended g)
  /-- A receiver is dropped with a capability that was not received. -/
  | dropped {w : World} {c : ChannelId} {g : Grant} (h : w.channel c = .sent g) :
      Deed may w ((w.setChannel c .gone).endGrant g)
  /-- A grant is released that has ended before. -/
  | refused {w : World} {g : Grant} (hmay : may (.release g)) (hid : g.lock < w.locks.length)
      (h : w.isUnended g = false) : Deed may w (w.release g).1
  | submitted {w : World} {lock : LockId} (hid : lock < w.locks.length) (mode : Mode)
      (task : Task) : Deed may w (w.submit lock mode (.task task))
  /-- A future makes its request. -/
  | requested {w : World} {lock : LockId} (hid : lock < w.locks.length) (mode : Mode) :
      Deed may w (w.newChannel.1.submit lock mode (.sender w.newChannel.2))
  | reported {w : World} {g : Grant} (hid : g.lock < w.locks.length) (failure : Failure) :
      Deed may w (w.reportFailure g failure)
  | threaded {w : World} (context : Context) (body : Body) : Deed may w (w.startThread context body)

/-- A move comes down to one deed, with something at the receiving ends of channels before it and
    frames put below what the deed has put on the stack. -/
inductive Deals (may : Call → Prop) (w : World) : Move → Prop where
  | mk {v : World} {m : Move} (hbefore : Relation.ReflTransGen (Receives may) w v)
      (hdeed : Deed may v m) (below : List Frame)
      (hbelow : ∀ f ∈ below, f.isSimple = true ∧ f.isPlain = true) : Deals may w (m.before below)

variable {may : Call → Prop} {w v u : World} {m : Move} {g : Grant} {c : ChannelId}

namespace Apart

theorem of_eq (hlocks : v.locks = w.locks) (hthread : v.thread = w.thread)
    (hthreads : v.threads = w.threads) (hhistory : v.history = w.history) : w.Apart v :=
  ⟨hlocks, hthread, hthreads, [], hhistory, by simp⟩

theorem emit (w : World) {e : Event} (hlock : e.lock? = none) (hwoken : e.woken? = none) :
    w.Apart (w.emit e) :=
  ⟨rfl, rfl, rfl, [e], rfl, List.forall_mem_singleton.2 ⟨hlock, hwoken⟩⟩

theorem refl (w : World) : w.Apart w := of_eq rfl rfl rfl rfl

theorem trans (h : w.Apart v) (h' : v.Apart u) : w.Apart u := by
  obtain ⟨new, hnew, hsilent⟩ := h.history
  obtain ⟨more, hmore, hsilent'⟩ := h'.history
  refine ⟨h'.locks.trans h.locks, h'.thread.trans h.thread, h'.threads.trans h.threads,
    more ++ new, ?_, ?_⟩
  · rw [hmore, hnew, List.append_assoc]
  · intro e he
    exact (List.mem_append.1 he).elim (hsilent' e) (hsilent e)

theorem lock (h : w.Apart v) (id : LockId) : v.lock id = w.lock id := by
  rw [World.lock, h.locks]
  rfl

theorem isUnended (h : w.Apart v) (g : Grant) : v.isUnended g = w.isUnended g := by
  rw [World.isUnended, h.lock]
  rfl

theorem journal (h : w.Apart v) (id : LockId) : v.journal id = w.journal id := by
  obtain ⟨new, hnew, hsilent⟩ := h.history
  exact journal_of_silent hnew (fun e he => (hsilent e he).1) id

theorem sameLists (h : w.Apart v) : w.SameLists v := .of_locks h.locks h.thread h.threads

end Apart

/-- What happens at the receiving ends concerns no lock. -/
theorem Receives.toApart (h : Receives may w v) : w.Apart v := by
  cases h with
  | apart h _ => exact h
  | _ => exact .of_eq rfl rfl rfl rfl

theorem apart_of_receives (h : Relation.ReflTransGen (Receives may) w v) : w.Apart v := by
  induction h with
  | refl => exact .refl w
  | tail _ hr ih => exact ih.trans hr.toApart

theorem Receives.mono {may' : Call → Prop} (hmay : ∀ call, may call → may' call)
    (h : Receives may w v) : Receives may' w v := by
  cases h with
  | apart h hchannels => exact .apart h hchannels
  | polled hp h => exact .polled (hmay _ hp) h
  | received hp h => exact .received (hmay _ hp) h
  | closed h => exact .closed (h.imp_right (hmay _))

theorem Deed.mono {may' : Call → Prop} (hmay : ∀ call, may call → may' call)
    -- what may be asked for stands in one of the deeds only
    (h : Deed may w m) : Deed may' w m := by
  cases h with
  | done control => exact .done control
  | ended h => exact .ended h
  | dropped h => exact .dropped h
  | refused hr hid h => exact .refused (hmay _ hr) hid h
  | submitted hid mode task => exact .submitted hid mode task
  | requested hid mode => exact .requested hid mode
  | reported hid failure => exact .reported hid failure
  | threaded context body => exact .threaded context body

namespace Deals

theorem mono {may' : Call → Prop} (hmay : ∀ call, may call → may' call)
    (h : w.Deals may m) : w.Deals may' m := by
  obtain ⟨hbefore, hdeed, below, hbelow⟩ := h
  have hbefore' := Relation.ReflTransGen.mono (fun _ _ => Receives.mono hmay) _ _ hbefore
  exact .mk hbefore' (hdeed.mono hmay) below hbelow

theorem of_deed (h : Deed may w m) : w.Deals may m := by
  have hnone : m.before [] = m := by simp [Move.before]
  exact hnone ▸ .mk .refl h [] (by simp)

theorem done (w : World) (control : Control) :
    w.Deals may { world := w, control := control } :=
  of_deed (.done control)

/-- Something happens first. -/
theorem after (h : v.Deals may m) (hr : Receives may w v) : w.Deals may m := by
  obtain ⟨hbefore, hdeed, below, hbelow⟩ := h
  exact .mk (.head hr hbefore) hdeed below hbelow

theorem apart (h : v.Deals may m) (hv : w.Apart v) (hchannels : v.channels = w.channels) :
    w.Deals may m :=
  h.after (.apart hv hchannels)

/-- Frames are put below all others. -/
theorem before (h : w.Deals may m) (frames : List Frame)
    (hframes : ∀ f ∈ frames, f.isSimple = true ∧ f.isPlain = true) :
    w.Deals may (m.before frames) := by
  obtain ⟨hbefore, hdeed, below, hbelow⟩ := h
  have htwo : ∀ m : Move, (m.before below).before frames = m.before (below ++ frames) := by
    intro m
    simp [Move.before]
  rw [htwo]
  refine .mk hbefore hdeed _ ?_
  intro f hf
  exact (List.mem_append.1 hf).elim (hbelow f) (hframes f)

theorem answering (h : w.Deals may m) (reply : Reply) : w.Deals may (m.answering reply) :=
  h.before _ (by simp [Frame.isSimple, Frame.isPlain])

/-- Frames are put on the stack and nothing else is done. -/
theorem frames (w : World) (frames : List Frame)
    (hframes : ∀ f ∈ frames, f.isSimple = true ∧ f.isPlain = true) :
    w.Deals may { world := w, frames := frames } :=
  (done w (.returned .nothing)).before frames hframes

end Deals

/-! ## Operations on grants -/

theorem deals_endGrant (w : World) (g : Grant) : w.Deals may (w.endGrant g) := by
  unfold endGrant
  split
  · rename_i hunended
    exact .of_deed (.ended hunended)
  · exact .done w _

theorem deals_release (hmay : may (.release g)) (hid : g.lock < w.locks.length) :
    w.Deals may (w.release g).1 := by
  cases hunended : w.isUnended g with
  | true =>
    have hends : (w.release g).1 = w.endUnended g := by simp [release, hunended]
    exact hends ▸ .of_deed (.ended hunended)
  | false => exact .of_deed (.refused hmay hid hunended)

theorem deals_dropOwned (w : World) (g : Grant) : w.Deals may (w.dropOwned g) := by
  unfold dropOwned
  split
  · exact (deals_endGrant _ g).apart (.of_eq rfl rfl rfl rfl) rfl
  · exact .done w _

theorem deals_keep (w : World) (name : String) (g : Grant) : w.Deals may (w.keep name g) := by
  have hkept : ∀ m, ({ w with store := w.store.put name g } : World).Deals may m →
      w.Deals may m := fun m hm => hm.apart (.of_eq rfl rfl rfl rfl) rfl
  unfold keep
  cases w.store.get? name with
  | none => exact hkept _ (.done _ _)
  | some old => exact hkept _ (deals_endGrant _ old)

/-! ## Futures -/

theorem deals_dropReceiver (w : World) (c : ChannelId) : w.Deals may (w.dropReceiver c) := by
  unfold dropReceiver
  cases hc : w.channel c with
  | sent g => exact .of_deed (.dropped hc)
  | _ =>
    refine (Deals.done _ _).after (.closed (.inl ?_))
    simp [hc]

theorem deals_dropFuture (w : World) (name : String) (f : Future) :
    w.Deals may (w.dropFuture name f) := by
  have hemit : w.Apart (w.emit (.workDropped name)) := .emit w rfl rfl
  -- a channel is left or a grant is ended, in whatever stage the future is dropped
  cases f with
  | acquire acquisition =>
    cases acquisition with
    | accepted c => exact deals_dropReceiver w c
    | refused failure => exact .done w _
  | run work stage =>
    cases stage with
    | unstarted => exact (Deals.done _ _).apart hemit rfl
    | waiting c =>
      exact (deals_dropReceiver w c).before _ (by simp [Frame.isSimple, Frame.isPlain])
    | working g rest => exact (deals_endGrant _ g).apart hemit rfl

theorem deals_storeFuture (w : World) (name : String) (f : Future) :
    w.Deals may (w.storeFuture name f) := by
  have hstored : ∀ m, ({ w with futures := w.futures.put name f } : World).Deals may m →
      w.Deals may m := fun m hm => hm.apart (.of_eq rfl rfl rfl rfl) rfl
  unfold storeFuture
  cases w.futures.get? name with
  | none => exact hstored _ (.done _ _)
  | some old => exact hstored _ (deals_dropFuture _ name old)

theorem deals_acquired {name : String} {answer : Reply}
    (hmay : ∀ failure, answer = .failed failure → may (.fail c)) :
    w.Deals may (w.acquired name c answer) := by
  refine Deals.answering ?_ _
  cases answer with
  | failed failure => exact (deals_storeFuture _ name _).after (.closed (.inr (hmay failure rfl)))
  | _ => exact deals_storeFuture w name _

/-- A poll of a channel. -/
theorem receives_receive {future : String} (hmay : may (.poll c future)) :
    Receives may w (w.receive c future).1 := by
  unfold receive
  cases hc : w.channel c with
  | «open» waker => exact .polled hmay hc
  | sent g => exact .received hmay (.inl ⟨g, hc⟩)
  | abandoned => exact .received hmay (.inr hc)
  | taken => exact .apart (.refl w) rfl
  | gone => exact .apart (.refl w) rfl

theorem deals_pollAcquire {name : String} {acquisition : Acquisition}
    (hmay : ∀ c ∈ (Future.acquire acquisition).receivers, may (.poll c name)) :
    w.Deals may (w.pollAcquire name acquisition) := by
  cases acquisition with
  | refused failure => exact (Deals.done _ _).apart (.of_eq rfl rfl rfl rfl) rfl
  | accepted c =>
    -- the channel is looked at first, and the deed comes out of what it holds
    have hreceive : Receives may w (w.receive c name).1 :=
      receives_receive (hmay c (Multiset.mem_singleton_self c))
    simp only [pollAcquire]
    generalize w.receive c name = p at hreceive ⊢
    obtain ⟨v, received⟩ := p
    refine Deals.after ?_ hreceive
    cases received with
    | grant g => exact (deals_keep v name g).answering _
    | _ => exact .done v _

theorem deals_awaitGrant {name : String} {work : Work} (hmay : may (.poll c name)) :
    w.Deals may (w.awaitGrant name work c) := by
  have hreceive : Receives may w (w.receive c name).1 := receives_receive hmay
  unfold awaitGrant
  generalize w.receive c name = p at hreceive ⊢
  obtain ⟨v, received⟩ := p
  -- looking at the channel is not the deed, whatever comes of it
  refine Deals.after ?_ hreceive
  cases received with
  | notYet => exact (deals_storeFuture v name _).answering _
  | grant g =>
    exact (Deals.frames _ _ (by simp [Frame.isSimple, Frame.isPlain])).apart
      (.emit v rfl rfl) rfl
  | abandoned => exact (Deals.done _ _).apart (.emit v rfl rfl) rfl
  | again => exact (Deals.done _ _).apart (.emit v rfl rfl) rfl

theorem deals_submitted {name : String} {work : Work} {answer : Reply}
    (hfail : ∀ failure, answer = .failed failure → may (.fail c))
    (hpoll : (∀ failure, answer ≠ .failed failure) → may (.poll c name)) :
    w.Deals may (w.submitted name work c answer) := by
  unfold submitted
  cases answer with
  | failed failure =>
    refine Deals.after ?_ (.closed (.inr (hfail failure rfl)))
    exact (Deals.done _ _).apart (.emit _ rfl rfl) rfl
  | _ => exact deals_awaitGrant (hpoll (by simp))

theorem deals_pollRun {name : String} {work : Work} {stage : Stage}
    (hid : work.lock < w.locks.length)
    (hmay : ∀ c ∈ (Future.run work stage).receivers, may (.poll c name)) :
    w.Deals may (w.pollRun name work stage) := by
  cases stage with
  | unstarted =>
    have hrequest : w.Deals may (w.newChannel.1.submit work.lock work.mode
        (.sender w.newChannel.2)) := .of_deed (.requested hid work.mode)
    exact hrequest.before _ (by simp [Frame.isSimple, Frame.isPlain])
  | waiting c => exact deals_awaitGrant (hmay c (Multiset.mem_singleton_self c))
  | working g rest => exact .frames w _ (by simp [Frame.isSimple, Frame.isPlain])

theorem deals_poll (h : w.WellFormed) {name : String}
    (hmay : ∀ f, w.futures.get? name = some f → ∀ c ∈ f.receivers, may (.poll c name)) :
    w.Deals may (w.poll name) := by
  unfold poll
  cases hget : w.futures.get? name with
  | none => exact .done w _
  | some f =>
    have hf : w.Supports f := h.futures _ (Table.mem_of_get? hget)
    cases f with
    | acquire acquisition => exact deals_pollAcquire (hmay _ hget)
    | run work stage =>
      -- the work of a stored future is for a lock that is there
      have hid : work.lock < w.locks.length := hf.2 work.lock (by simp [Future.lock?])
      have hpolled := deals_pollRun (w := { w with futures := w.futures.remove name }) hid
        (hmay _ hget)
      exact Deals.apart (w := w) hpolled (.of_eq rfl rfl rfl rfl) rfl

/-! ## Actions -/

theorem deals_withCapability {context : Context} {cap : CapRef} {use : Place → Grant → Move}
    (huse : ∀ place g, w.locate context cap = some (place, g) → w.Deals may (use place g)) :
    w.Deals may (w.withCapability context cap use) := by
  unfold withCapability
  cases hl : w.locate context cap with
  | none => exact .done w _
  | some found => exact huse found.1 found.2 hl

theorem deals_withLock (h : w.WellFormed) {handle : Nat} {use : LockId → Move}
    (huse : ∀ lock, lock < w.locks.length → w.Deals may (use lock)) :
    w.Deals may (w.withLock handle use) := by
  unfold withLock
  cases hl : w.lockOf? handle with
  | none => exact .done w _
  | some lock => exact huse lock (h.lock_lt hl)

/-- Taking a capability from its place concerns neither a lock nor a channel. -/
theorem Deals.of_takeFrom (g : Grant) (place : Place) (h : (w.takeFrom g place).Deals may m) :
    w.Deals may m := by
  cases place <;> exact h.apart (.of_eq rfl rfl rfl rfl) rfl

theorem deals_dropStored (w : World) (name : String) : w.Deals may (w.dropStored name) := by
  unfold dropStored
  cases w.futures.get? name with
  | none => exact .done w _
  | some f =>
    have hdropped : Deals may { w with futures := w.futures.remove name } _ :=
      deals_dropFuture _ name f
    exact (Deals.apart (w := w) hdropped (.of_eq rfl rfl rfl rfl) rfl).answering _

/-- What an action begins comes down to one deed. -/
theorem deals_perform (h : w.WellFormed) (context : Context) (a : Action) :
    w.Deals (w.Asks context a) (w.perform context a) := by
  -- an action finds its lock or its capability and then does one thing with it
  cases a with
  | submit handle mode tag entry ending quiet =>
    exact deals_withLock h fun lock hid => .of_deed (.submitted hid mode _)
  | release cap =>
    refine deals_withCapability fun place g hl => Deals.answering ?_ _
    exact deals_release (.release hl) (knows_of_locate h hl).1
  | drop cap =>
    refine deals_withCapability fun place g _ => Deals.of_takeFrom g place ?_
    exact (deals_endGrant _ g).answering _
  | «forget» cap =>
    refine deals_withCapability fun place g _ => Deals.of_takeFrom g place ?_
    exact (Deals.done _ _).apart (.of_eq rfl rfl rfl rfl) rfl
  | park name =>
    refine deals_withCapability fun place g _ => Deals.of_takeFrom g place ?_
    exact (deals_keep _ _ g).answering _
  | inspect cap => exact deals_withCapability fun place g _ => .done w _
  | look handle => exact deals_withLock h fun lock _ => .done w _
  | stats handle => exact deals_withLock h fun lock _ => .done w _
  | config handle => exact deals_withLock h fun lock _ => .done w _
  | same a b => exact deals_withLock h fun a _ => deals_withLock h fun b _ => .done w _
  | clone handle =>
    exact deals_withLock h fun lock _ => (Deals.done _ _).apart (.of_eq rfl rfl rfl rfl) rfl
  | dropHandle handle =>
    simp only [perform, dropHandle]
    split
    · exact .done w _
    · exact (Deals.done _ _).apart (.of_eq rfl rfl rfl rfl) rfl
  | log message => exact (Deals.done _ _).apart (.emit w rfl rfl) rfl
  | count key => exact (Deals.done _ _).apart (.of_eq rfl rfl rfl rfl) rfl
  | «when» key below body quiet =>
    simp only [perform]
    split
    · exact .frames w _ (by simp [Frame.isSimple, Frame.isPlain])
    · exact .done w _
  | iterate times body quiet => exact .frames w _ (by simp [Frame.isSimple, Frame.isPlain])
  | guard body => exact .frames w _ (by simp [Frame.isSimple, Frame.isPlain])
  | thread body => exact .of_deed (.threaded context body)
  | panic fault => exact .done w _
  | acquire handle mode name =>
    refine deals_withLock h fun lock hid => ?_
    have hrequest : w.Deals (w.Asks context (.acquire handle mode name))
        (w.newChannel.1.submit lock mode (.sender w.newChannel.2)) :=
      .of_deed (.requested hid mode)
    exact hrequest.before _ (by simp [Frame.isSimple, Frame.isPlain])
  | run handle mode name work output =>
    exact deals_withLock h fun lock _ => (deals_storeFuture w name _).answering _
  | poll name => exact deals_poll h fun f hf c hc => .poll hf hc
  | dropFuture name => exact deals_dropStored w name
  | pause => exact .done w _
  | unknown word => exact .done w _

/-! ## Frames -/

theorem apart_logReply (w : World) (context : Context) (last : Option String) (reply : Reply) :
    w.Apart (w.logReply context last reply) ∧
      (w.logReply context last reply).channels = w.channels := by
  unfold logReply
  cases last with
  | none => exact ⟨.refl w, rfl⟩
  | some word =>
    dsimp only
    split
    · exact ⟨.refl w, rfl⟩
    · exact ⟨.emit w rfl rfl, rfl⟩

theorem deals_contain (w : World) (g : Grant) (fault : Fault) :
    w.Deals may (w.contain g fault) := by
  unfold contain
  split
  · exact .done w _
  · exact (deals_endGrant w g).before _ (by simp [Frame.isSimple, Frame.isPlain])

theorem deals_work (h : w.WellFormed) (name : String) (work : Work)
    (hid : g.lock < w.locks.length) (rest : List Action) (hend : rest = [] → may (.release g))
    (hmay : ∀ a rest' call, rest = a :: rest' → a ≠ .pause → w.Asks { tag := name } a call →
      may call) : w.Deals may (w.work name work g rest) := by
  cases rest with
  | nil => exact (deals_release (hend rfl) hid).answering _
  | cons a rest =>
    by_cases ha : a = .pause
    · subst ha
      exact (deals_storeFuture w name _).answering _
    -- work does what a list does, but with its own frame below
    · have hwork : w.work name work g (a :: rest) =
          (w.perform { tag := name } a).before [.working name work g (some a.word) rest] := by
        cases a with
        | pause => exact absurd rfl ha
        | _ => rfl
      rw [hwork]
      refine Deals.before ?_ _ (by simp [Frame.isSimple, Frame.isPlain])
      exact (deals_perform h _ a).mono fun call hcall => hmay a rest call rfl ha hcall

end World

namespace Frame

variable {may : Call → Prop} {w : World} {f : Frame}

/-- What a frame does after a return comes down to one deed. -/
theorem deals_resume (h : w.WellFormed) (hf : f.Supported w) (hsimple : f.isSimple = true)
    (reply : Reply) : w.Deals (f.Asks w reply) (f.resume w reply) := by
  cases f with
  | actions context last rest =>
    obtain ⟨hlog, hchannels⟩ := w.apart_logReply context last reply
    have hwell := (World.logReply_ok h context last reply []).1
    -- the answer is logged before, which is about no lock
    refine World.Deals.apart ?_ hlog hchannels
    cases rest with
    | nil => exact .done _ _
    | cons a rest =>
      refine World.Deals.before ?_ _ (by simp [isSimple, isPlain])
      exact (World.deals_perform hwell context a).mono fun call hcall => .action hcall
  | answering answer => exact .done w _
  | finishing g t =>
    refine World.Deals.before ?_ _ (by simp [isSimple, isPlain])
    split
    · exact World.deals_dropOwned w g
    · exact (World.deals_dropOwned _ g).apart (.emit w rfl rfl) rfl
  | concluding fault => cases fault <;> exact .done w _
  | invocation g => exact (World.Deals.done _ _).apart (.of_eq rfl rfl rfl rfl) rfl
  | reporting g failure => exact .of_deed (.reported hf.1 failure)
  | rethrowing fault => exact .done w _
  | guarding => exact .done w _
  | iterating context times body =>
    cases times with
    | zero => exact .done w _
    | succ times => exact .frames w _ (by simp [isSimple, isPlain])
  | acquiring name c => exact World.deals_acquired fun failure hreply => .refused hreply
  | awaiting name work c =>
    exact World.deals_submitted (fun failure hreply => .refusedWork hreply) .awaited
  | working name work g last rest =>
    obtain ⟨hlog, hchannels⟩ := w.apart_logReply { tag := name } last reply
    obtain ⟨hwell, hleads⟩ := World.logReply_ok h { tag := name } last reply []
    refine World.Deals.apart ?_ hlog hchannels
    refine World.deals_work hwell name work (hleads.lock_lt hf.2.1) rest ?_ ?_
    · rintro rfl
      exact .worked
    · rintro a rest call rfl ha hcall
      exact .work ha hcall
  | droppingWork name => exact (World.Deals.done _ _).apart (.emit w rfl rfl) rfl
  | _ => cases hsimple

/-- So does what it does for a fault. -/
theorem deals_unwind (hsimple : f.isSimple = true) (fault : Fault) :
    w.Deals may (f.unwind w fault) := by
  cases f with
  | finishing g t =>
    exact (World.deals_dropOwned w g).before _ (by simp [isSimple, isPlain])
  | invocation g =>
    exact (World.deals_contain w.leaveSpan g fault).apart (.of_eq rfl rfl rfl rfl) rfl
  | acquiring name c =>
    exact (World.deals_dropReceiver w c).before _ (by simp [isSimple, isPlain])
  | awaiting name work c =>
    exact (World.deals_dropReceiver w c).before _ (by simp [isSimple, isPlain])
  | working name work g last rest =>
    refine World.Deals.before ?_ _ (by simp [isSimple, isPlain])
    exact (World.deals_endGrant _ g).apart (.emit w rfl rfl) rfl
  | droppingWork name => exact (World.Deals.done _ _).apart (.emit w rfl rfl) rfl
  -- a loop, a join and the frames of the cleaning are not simple, and have acts of their own
  | dispatching lock outcome => cases hsimple
  | joining thread entered => cases hsimple
  | handingBack lock items => cases hsimple
  | discarding g entry => cases hsimple
  | _ => exact .done w _

end Frame

/-! ## How such a move is put together -/

namespace World

variable {may : Call → Prop} {w : World} {m : Move}

theorem Deed.makes (h : Deed may w m) : w.Makes m := by
  cases h with
  | done control => exact .done control
  | ended h => exact makes_endUnended (lock_lt_of_isUnended h)
  | dropped h => exact .quiet (makes_endGrant _ _) (.of_locks rfl rfl rfl)
  | refused hmay hid h => exact makes_release w _
  | submitted hid mode task => exact makes_submit hid mode _
  | requested hid mode =>
    exact .quiet (makes_submit (w := w.newChannel.1) hid mode _) (.of_locks rfl rfl rfl)
  | reported hid failure => exact makes_reportFailure w _ failure
  | threaded context body => exact .threaded context body

/-- How a move is put together that comes down to one deed. -/
theorem Deals.makes (h : w.Deals may m) : w.Makes m := by
  obtain ⟨hbefore, hdeed, below, hbelow⟩ := h
  refine .quiet ?_ (apart_of_receives hbefore).sameLists
  exact hdeed.makes.before fun f hf => (hbelow f hf).2

end World

end FairLock
