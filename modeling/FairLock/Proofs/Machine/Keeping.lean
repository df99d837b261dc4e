import FairLock.Proofs.Machine.Custody

/-!
# What operations do with capabilities in trust

Every operation is looked at for what it does with capabilities in trust.  A capability comes into
being when an entry point is started, which happens by a submission that is granted and by a loop
that works off a run list.

## Main definitions

- `Move.Bears`: what becomes of capabilities by a move that may issue the next grant of a lock.

## Main statements

- `Frame.bears_resume`, `Frame.keeps_unwind`, and the lemmas before them: one for each operation.
-/

namespace FairLock

namespace World

variable {w v u : World} {given born left lost : Multiset Grant} {g : Grant} {c : ChannelId}

/-! ## Starting -/

theorem keeps_startTask (w : World) (g : Grant) (t : Task) : (w.startTask g t).Keeps w 0 {g} := by
  refine ⟨{g}, ⟨?_, ?_, ?_⟩, ?_⟩
  -- the grant that is handed to the entry point is the one that stands in its frames
  · simp [startTask, trust, emit, Frame.held]
  · rintro g' (hg' | hg')
    · rcases List.mem_cons.1 hg' with rfl | hg'
      · exact .inr (Multiset.mem_singleton_self g')
      · exact .inl (.inl hg')
    · exact .inl (.inr hg')
  · rintro g' (hg' | hg')
    · exact .inl hg'
    · exact .inr ⟨g', .refl g', .inr hg'⟩
  -- the boundary that is put down is that of the grant itself
  · intro g' hg'
    have hmem : Frame.invocation g' ∈ [.finishing g t, .invocation g] := hg'
    simp only [List.mem_cons, reduceCtorEq, Frame.invocation.injEq, List.not_mem_nil, or_false,
      false_or] at hmem
    exact .inr (Multiset.mem_singleton.2 hmem)

/-- A capability that is sent is alive, and one that nobody waits for gets lost. -/
theorem keeps_startSender (hg : w.isUnended g = true) (c : ChannelId) :
    (w.startSender g c).Keeps w 0 {g} := by
  have hbefore : w.Keeps 0 0 (w.emit (.started g w.thread none)) 0 := .of_locks rfl rfl rfl rfl rfl
  have hunended : (w.emit (.started g w.thread none)).isUnended g = true := hg
  refine Move.Keeps.after ?_ hbefore
  unfold startSender
  generalize w.emit (.started g w.thread none) = v at hunended ⊢
  -- with nobody to take it the grant ends, and its capability is lost
  have hlost : Move.Keeps ((v.endGrant g).before [.invocation g]) v 0 {g} := by
    have hend := (v.custody_unsent g).ends (.inr (Multiset.mem_singleton_self g))
    have hframes : workingsOf ((v.endGrant g).frames ++ [.invocation g]) = 0 := by
      rw [workingsOf_append, workingsOf_of_ordinary (v.ordinary_endGrant g)]
      rfl
    refine ⟨{g}, by rwa [Move.frames_before, hframes], fun g' hg' => .inr ?_⟩
    rcases List.mem_append.1 (mem_of_mem_pastHead hg') with hg' | hg'
    · exact absurd (v.ordinary_endGrant g _ hg') Bool.false_ne_true
    · simpa using hg'
  -- somebody waits for the capability, or the receiver has gone
  cases hc : v.channel c with
  | «open» waker =>
    have hsent : v.Keeps 0 {g} (v.setChannel c (.sent g)) 0 := by
      refine ⟨0, custody_setChannel (by simp [Channel.held]) fun g' hg' => ?_⟩
      rwa [Multiset.mem_singleton.1 hg']
    obtain ⟨lost, hwoken⟩ := hsent.trans (World.keeps_wake _ waker)
    simp only [hc]
    exact ⟨lost, by simpa [Frame.held] using hwoken, fun g' hg' => absurd hg' List.not_mem_nil⟩
  | _ =>
    simp only [hc]
    exact hlost

/-- The entry point of a granted request is started. -/
theorem keeps_start {lock : LockId} {r : Request Entry}
    (hg : w.isUnended (r.grant lock) = true) : (w.start lock r).Keeps w 0 {r.grant lock} := by
  have hentered : w.Keeps 0 0 { w with entered := r.grant lock :: w.entered } 0 :=
    .of_locks rfl rfl rfl rfl rfl
  have hunended : World.isUnended { w with entered := r.grant lock :: w.entered }
      (r.grant lock) = true := hg
  unfold start
  cases r.payload with
  | task t => exact (keeps_startTask _ (r.grant lock) t).after hentered
  | sender c => exact (keeps_startSender hunended c).after hentered

theorem keeps_startGranted {lock : LockId} {r : Request Entry}
    (hg : w.isUnended (r.grant lock) = true) :
    (w.startGranted lock r).Keeps w 0 {r.grant lock} := by
  unfold startGranted
  split
  · exact keeps_start hg
  -- to open a run list does not end anything
  · have hopened : ∀ g, w.isUnended g = true →
        (w.setLock lock ((w.lock lock).openRunList w.thread [])).isUnended g = true := by
      intro g hunended
      refine isUnended_setLock ?_ hunended
      exact fun _ hn => hn
    refine ((keeps_start (hopened _ hg)).after ?_).before (by simp [Frame.isOrdinary])
    exact ⟨0, .of_eq rfl rfl rfl rfl hopened⟩

/-- At most the grant that a lock will issue next. -/
def AtMostNext (w : World) (born : Multiset Grant) : Prop :=
  born = 0 ∨ ∃ g, born = {g} ∧ g.lock < w.locks.length ∧ g.id = (w.lock g.lock).core.nextId

end World

/-- What becomes of capabilities in trust, with none of which anybody knows beforehand. -/
def Move.Bears (m : Move) (w : World) (given : Multiset Grant) : Prop :=
  ∃ born, w.AtMostNext born ∧ m.Keeps w given born

namespace Move

variable {m : Move} {w v : World} {given left : Multiset Grant}

theorem Keeps.bears (h : m.Keeps w given 0) : m.Bears w given := ⟨0, .inl rfl, h⟩

theorem Bears.beside (h : m.Bears w given) {frames : List Frame}
    (hframes : ∀ g, .invocation g ∉ frames) :
    (m.before frames).Bears w (given + workingsOf frames) := by
  obtain ⟨born, hborn, h⟩ := h
  exact ⟨born, hborn, h.beside hframes⟩

theorem Bears.before (h : m.Bears w given) {frames : List Frame}
    (hframes : ∀ f ∈ frames, f.isOrdinary = true) : (m.before frames).Bears w given := by
  obtain ⟨born, hborn, h⟩ := h
  exact ⟨born, hborn, h.before hframes⟩

/-- Something is done first that leaves the locks alone. -/
theorem Bears.after (h : m.Bears v left) (hlocks : v.locks = w.locks)
    (hv : w.Keeps given 0 v left) : m.Bears w given := by
  obtain ⟨born, hborn, h⟩ := h
  refine ⟨born, ?_, h.after hv⟩
  -- the born grant is the next one of a lock that has not changed in between
  rcases hborn with hborn | ⟨g, hborn, hid, hnext⟩
  · exact .inl hborn
  · rw [World.lock, hlocks] at hnext
    exact .inr ⟨g, hborn, hlocks ▸ hid, hnext⟩

end Move

namespace World

variable {w v u : World} {given born left lost : Multiset Grant} {g : Grant} {c : ChannelId}

/-- A submission that is granted gives birth to the next grant. -/
theorem bears_submit {lock : LockId} (hid : lock < w.locks.length) (mode : Mode) (entry : Entry) :
    (w.submit lock mode entry).Bears w 0 := by
  cases hsubmit : (w.lock lock).submit mode entry with
  | mk l submission =>
    -- a submission forgets no grant: it remembers one more, or as many as before
    have hkept : ∀ more, l.unended = (w.lock lock).unended ++ more → ∀ g, w.isUnended g = true →
        (w.setLock lock l).isUnended g = true := by
      intro more hmore g hunended
      refine isUnended_setLock (fun n hn => ?_) hunended
      rw [Lock.isUnended, hmore, List.any_append, Bool.or_eq_true]
      exact .inl hn
    cases submission with
    | granted r =>
      obtain ⟨-, -, rfl, rfl⟩ := Lock.submit_granted hsubmit
      simp only [submit, hsubmit, issue_eq]
      refine ⟨_, .inr ⟨_, rfl, ?_, ?_⟩, Move.Keeps.after (keeps_startGranted ?_) ?_⟩
      · exact hid
      · rfl
      · show (World.lock (w.setLock lock _) lock).isUnended _ = true
        rw [lock_setLock_self hid]
        simp [Lock.isUnended]
      · exact ⟨0, .of_eq rfl rfl rfl rfl (hkept _ rfl)⟩
    | queued id pending =>
      obtain ⟨-, -, -, -, rfl⟩ := Lock.submit_queued hsubmit
      simp only [submit, hsubmit]
      refine (Move.Keeps.of_world ?_).bears
      exact ⟨0, .of_eq rfl rfl rfl rfl (hkept [] (List.append_nil _).symm)⟩
    | rejected refused limit =>
      obtain ⟨-, -, rfl, rfl⟩ := Lock.submit_rejected hsubmit
      simp only [submit, hsubmit]
      refine (Move.Keeps.of_world ((keeps_discard _ none refused).after ?_)).bears
      exact ⟨0, .of_eq rfl rfl rfl rfl (hkept [] (List.append_nil _).symm)⟩

/-! ## Futures -/

theorem keeps_dropReceiver (w : World) (c : ChannelId) : (w.dropReceiver c).Keeps w 0 0 := by
  unfold dropReceiver
  cases hc : w.channel c with
  | sent g =>
    -- the capability that nobody received is lost, and its grant ends
    have hlost : w.Custody 0 0 (w.setChannel c .gone) 0 {g} :=
      custody_setChannel (by simp [hc, Channel.held]) (by simp)
    exact hlost.endGrant (.inr (Multiset.mem_singleton_self g))
  | _ => exact .of_world (keeps_setChannel c rfl)

theorem keeps_emit (w : World) (e : Event) : w.Keeps given 0 (w.emit e) given :=
  .of_locks rfl rfl rfl rfl rfl

/-- A future that is dropped lets its own grant end. -/
theorem keeps_dropFuture (w : World) (name : String) (f : Future) :
    (w.dropFuture name f).Keeps w f.held 0 := by
  -- a future that works has a grant to give back; in the other stages it has none
  cases f with
  | acquire acquisition =>
    cases acquisition with
    | accepted c => exact keeps_dropReceiver w c
    | refused failure => exact .of_world (.refl w 0)
  | run work stage =>
    cases stage with
    | unstarted => exact .of_world (keeps_emit w _)
    | waiting c => exact (keeps_dropReceiver w c).before (by simp [Frame.isOrdinary])
    | working g rest => exact (keeps_endGrant _ g).after (keeps_emit w _)

theorem keeps_storeFuture (hsorted : Table.Sorted w.futures) (name : String) (f : Future) :
    (w.storeFuture name f).Keeps w f.held 0 := by
  have hstored := keeps_stored hsorted name f
  unfold storeFuture
  cases hold : w.futures.get? name with
  | none =>
    rw [hold] at hstored
    exact .of_world hstored
  | some old =>
    rw [hold] at hstored
    exact (keeps_dropFuture _ name old).after hstored

theorem keeps_suspend (hsorted : Table.Sorted w.futures) (name : String) (f : Future) :
    (w.suspend name f).Keeps w f.held 0 :=
  (keeps_storeFuture hsorted name f).answering _

theorem keeps_acquired (hsorted : Table.Sorted w.futures) (name : String) (c : ChannelId)
    (answer : Reply) : (w.acquired name c answer).Keeps w 0 0 := by
  unfold acquired
  refine Move.Keeps.answering ?_ _
  cases answer with
  | failed failure =>
    exact (keeps_storeFuture (w := w.setChannel c .gone) hsorted name _).after
      (keeps_setChannel c rfl)
  | _ => exact keeps_storeFuture hsorted name (.acquire (.accepted c))

/-- What is received leaves its channel. -/
theorem keeps_receive (w : World) (c : ChannelId) (name : String) :
    w.Keeps 0 0 (w.receive c name).1
      (match (w.receive c name).2 with
        | .grant g => {g}
        | _ => 0) := by
  -- what is put in place of the old content leaves a grant over, if there was one
  have hset : ∀ new : Channel, ∀ left : Multiset Grant,
      left + (new.held : Multiset Grant) ≤ ((w.channel c).held : Multiset Grant) →
      w.Keeps 0 0 (w.setChannel c new) left := fun new left hleft =>
    ⟨0, custody_setChannel (by simpa using hleft) (by simp)⟩
  unfold receive
  cases hc : w.channel c with
  | «open» waker => exact hset _ 0 (by simp [hc, Channel.held])
  | sent g => exact hset _ {g} (by simp [hc, Channel.held])
  | abandoned => exact hset _ 0 (by simp [hc, Channel.held])
  | taken => exact .refl w 0
  | gone => exact .refl w 0

/-- A future for access is polled where it is stored. -/
theorem keeps_pollAcquire (hsorted : Table.Sorted w.futures) {name : String}
    {acquisition : Acquisition} (h : w.futures.get? name = some (.acquire acquisition)) :
    (w.pollAcquire name acquisition).Keeps w 0 0 := by
  cases acquisition with
  | refused failure =>
    have hstored := keeps_stored hsorted name (.acquire (.refused none))
    rw [h] at hstored
    exact .of_world hstored
  | accepted c =>
    have hreceive := w.keeps_receive c name
    simp only [pollAcquire]
    generalize w.receive c name = p at hreceive ⊢
    obtain ⟨v, received⟩ := p
    -- a received capability is owned by nobody until it is kept
    cases received with
    | grant g =>
      have hkept := (v.custody_lost {g}).keep name (.inr (Multiset.mem_singleton_self g))
      exact (hkept.after hreceive).answering _
    | _ => exact .of_world hreceive

theorem keeps_awaitGrant (hsorted : Table.Sorted w.futures) (name : String) (work : Work)
    (c : ChannelId) : (w.awaitGrant name work c).Keeps w 0 0 := by
  have hreceive := w.keeps_receive c name
  have hfutures : (w.receive c name).1.futures = w.futures := by
    unfold receive
    split <;> rfl
  unfold awaitGrant
  generalize w.receive c name = p at hreceive hfutures ⊢
  obtain ⟨v, received⟩ := p
  cases received with
  | notYet =>
    rw [← hfutures] at hsorted
    exact (keeps_suspend hsorted name (.run work (.waiting c))).after hreceive
  | grant g =>
    -- the capability goes from the channel to the frame that works
    obtain ⟨lost, hreceive⟩ := hreceive.trans (v.keeps_emit (.workStarted name))
    exact ⟨lost, by simpa [Frame.held] using hreceive, fun g' hg' => absurd hg' List.not_mem_nil⟩
  | _ => exact .of_world ((keeps_emit v _).after hreceive)

theorem keeps_submitted (hsorted : Table.Sorted w.futures) (name : String) (work : Work)
    (c : ChannelId) (answer : Reply) : (w.submitted name work c answer).Keeps w 0 0 := by
  unfold submitted
  cases answer with
  | failed failure =>
    exact .of_world ((keeps_emit _ _).after (keeps_setChannel c rfl))
  | _ => exact keeps_awaitGrant hsorted name work c

/-- A request whose capability will come through a channel. -/
theorem bears_request {lock : LockId} (hid : lock < w.locks.length) (mode : Mode) {frame : Frame}
    (hframe : frame.isOrdinary = true) :
    ((w.newChannel.1.submit lock mode (.sender w.newChannel.2)).before [frame]).Bears w 0 := by
  refine Move.Bears.before ?_ (by simpa using hframe)
  exact (bears_submit (w := w.newChannel.1) hid mode _).after rfl w.keeps_newChannel

theorem bears_pollRun (hsorted : Table.Sorted w.futures) (name : String) {work : Work}
    (hid : work.lock < w.locks.length) (stage : Stage) :
    (w.pollRun name work stage).Bears w (Future.run work stage).held := by
  cases stage with
  | unstarted => exact bears_request hid work.mode rfl
  | waiting c => exact (keeps_awaitGrant hsorted name work c).bears
  | working g rest =>
    refine Move.Keeps.bears ⟨0, ?_, fun g' hg' => absurd hg' List.not_mem_nil⟩
    simpa [pollRun, Frame.held, Future.held] using Custody.refl w {g}

theorem bears_poll (hw : w.WellFormed) (hsorted : Table.Sorted w.futures) (name : String) :
    (w.poll name).Bears w 0 := by
  unfold poll
  cases hget : w.futures.get? name with
  | none => exact (Move.Keeps.of_world (.refl w 0)).bears
  | some f =>
    cases f with
    | acquire acquisition => exact (keeps_pollAcquire hsorted hget).bears
    -- the work may submit, and what is born then was not there before
    | run work stage =>
      have hid : work.lock < w.locks.length :=
        (hw.futures (name, .run work stage) (Table.mem_of_get? hget)).2 _ rfl
      have hpolled := bears_pollRun (w := { w with futures := w.futures.remove name })
        (hsorted.remove name) name hid stage
      exact hpolled.after rfl (keeps_fetched hsorted hget)

theorem keeps_dropStored (hsorted : Table.Sorted w.futures) (name : String) :
    (w.dropStored name).Keeps w 0 0 := by
  unfold dropStored
  cases hget : w.futures.get? name with
  | none => exact .of_world (.refl w 0)
  | some f =>
    exact ((keeps_dropFuture _ name f).after (keeps_fetched hsorted hget)).answering _

/-! ## Actions -/

/-- An action can only mean a capability that a task has. -/
theorem owns_of_locate {context : Context} {cap : CapRef} {place : Place}
    (h : w.locate context cap = some (place, g)) : w.Owns g := by
  -- every way to mean a capability finds it in the hands or in the store
  cases cap with
  | own =>
    simp only [locate, Option.map_eq_some_iff, Option.filter_eq_some_iff, Prod.mk.injEq] at h
    obtain ⟨g', ⟨-, howned⟩, -, rfl⟩ := h
    exact .inl (by simpa using howned)
  | named name =>
    simp only [locate, Option.map_eq_some_iff, Prod.mk.injEq] at h
    obtain ⟨g', hget, -, rfl⟩ := h
    exact .inr ⟨name, Table.mem_of_get? hget⟩
  | nth n =>
    simp only [locate, Option.map_eq_some_iff, Prod.mk.injEq] at h
    obtain ⟨entry, hentry, -, rfl⟩ := h
    exact .inr ⟨entry.1, (List.mem_filter.1 (List.mem_of_getElem? hentry)).1⟩

theorem bears_withCapability (context : Context) (cap : CapRef) {use : Place → Grant → Move}
    (huse : ∀ place g, w.Owns g → (use place g).Bears w 0) :
    (w.withCapability context cap use).Bears w 0 := by
  unfold withCapability
  cases hlocate : w.locate context cap with
  | none => exact (Move.Keeps.of_world (.refl w 0)).bears
  | some found => exact huse found.1 found.2 (owns_of_locate hlocate)

theorem bears_withLock (hw : w.WellFormed) (handle : Nat) {use : LockId → Move}
    (huse : ∀ lock, lock < w.locks.length → (use lock).Bears w 0) :
    (w.withLock handle use).Bears w 0 := by
  unfold withLock
  cases hlock : w.lockOf? handle with
  | none => exact (Move.Keeps.of_world (.refl w 0)).bears
  | some lock => exact huse lock (hw.lock_lt hlock)

theorem custody_takeFrom (w : World) (g : Grant) (place : Place) :
    w.Custody 0 0 (w.takeFrom g place) 0 0 := by
  refine ⟨?_, ?_, ?_⟩
  -- the store and the hands are no places of trust, so the trust is the same
  · cases place <;> simp [takeFrom, trust]
  · rintro g' (hg' | ⟨name, hg'⟩)
    · cases place with
      | owned => exact .inl (.inl (List.mem_of_mem_erase hg'))
      | kept other => exact .inl (.inl hg')
    · cases place with
      | owned => exact .inl (.inr ⟨name, hg'⟩)
      | kept other => exact .inl (.inr ⟨name, Table.mem_of_mem_remove hg'⟩)
  · intro g' hg'
    have hunended := hg'.resolve_right (Multiset.notMem_zero _)
    exact .inl (by cases place <;> exact hunended)

/-- An action ends no grant but those whose capabilities tasks have or whose futures it drops. -/
theorem bears_perform (hw : w.WellFormed) (hsorted : Table.Sorted w.futures) (context : Context)
    (a : Action) : (w.perform context a).Bears w 0 := by
  -- most actions do not touch a grant and differ only in the answer they give
  have hkept : ∀ (v : World) (r : Reply), w.Keeps 0 0 v 0 → (v.reply r).Bears w 0 :=
    fun v r h => (Move.Keeps.of_world h).bears
  have hstill : ∀ r : Reply, (w.reply r).Bears w 0 := fun r => hkept w r (.refl w 0)
  have hframes : ∀ frames : List Frame, (∀ f ∈ frames, f.isOrdinary = true) →
      Move.Bears { world := w, frames := frames } w 0 := fun frames hordinary =>
    (Move.Keeps.of_ordinary (.refl w 0) hordinary).bears
  cases a with
  | submit handle mode tag entry ending quiet =>
    exact bears_withLock hw handle fun lock hid => bears_submit hid mode _
  | release cap =>
    refine bears_withCapability context cap fun _ g howns => ?_
    exact (((Custody.refl w 0).release (.inl howns)).answering _).bears
  | drop cap =>
    refine bears_withCapability context cap fun place g howns => ?_
    exact (((w.custody_takeFrom g place).endGrant (.inl howns)).answering _).bears
  | «forget» cap =>
    refine bears_withCapability context cap fun place g howns => ?_
    have htaken : w.Keeps 0 0 (w.takeFrom g place) 0 := ⟨0, w.custody_takeFrom g place⟩
    refine hkept _ _ (Keeps.after ?_ htaken)
    exact .of_locks rfl rfl rfl rfl rfl
  | park name =>
    refine bears_withCapability context .own fun place g howns => ?_
    exact (((w.custody_takeFrom g place).keep _ (.inl howns)).answering _).bears
  | inspect cap => exact bears_withCapability context cap fun _ g _ => hstill _
  | look handle => exact bears_withLock hw handle fun lock _ => hstill _
  | stats handle => exact bears_withLock hw handle fun lock _ => hstill _
  | config handle => exact bears_withLock hw handle fun lock _ => hstill _
  | same a b =>
    exact bears_withLock hw a fun a _ => bears_withLock hw b fun b _ => hstill _
  | clone handle =>
    exact bears_withLock hw handle fun lock _ => hkept _ _ (.of_locks rfl rfl rfl rfl rfl)
  | dropHandle handle =>
    simp only [perform, dropHandle]
    split
    · exact hstill _
    · exact hkept _ _ (.of_locks rfl rfl rfl rfl rfl)
  | log message => exact hkept _ _ (w.keeps_emit _)
  | count key => exact hkept _ _ (.of_locks rfl rfl rfl rfl rfl)
  | «when» key below body quiet =>
    simp only [perform]
    split
    · exact hframes _ (by simp [Frame.isOrdinary])
    · exact hstill _
  | iterate times body quiet => exact hframes _ (by simp [Frame.isOrdinary])
  | guard body => exact hframes _ (by simp [Frame.isOrdinary])
  | thread body =>
    have hstarted : w.Keeps 0 0
        { w with thread := w.threads, threads := w.threads + 1, entered := [] } 0 :=
      .of_locks rfl rfl rfl rfl rfl
    refine (Move.Keeps.of_ordinary hstarted ?_).bears
    simp [perform, startThread, Frame.isOrdinary]
  | panic fault => exact (Move.Keeps.of_world (.refl w 0)).bears
  | acquire handle mode name =>
    exact bears_withLock hw handle fun lock hid => bears_request hid mode rfl
  | run handle mode name work output =>
    refine bears_withLock hw handle fun lock _ => ?_
    have hstored := keeps_storeFuture hsorted name (.run ⟨lock, mode, work, output⟩ .unstarted)
    exact (hstored.answering _).bears
  | poll name => exact bears_poll hw hsorted name
  | dropFuture name => exact (keeps_dropStored hsorted name).bears
  | pause => exact hstill _
  | unknown word => exact hstill _

/-! ## Frames -/

theorem keeps_logReply (w : World) (context : Context) (last : Option String) (reply : Reply) :
    w.Keeps given 0 (w.logReply context last reply) given := by
  unfold logReply
  cases last with
  | none => exact .refl w given
  | some word =>
    dsimp only
    split
    · exact .refl w given
    · exact w.keeps_emit _

theorem locks_logReply (w : World) (context : Context) (last : Option String) (reply : Reply) :
    (w.logReply context last reply).locks = w.locks ∧
      (w.logReply context last reply).futures = w.futures := by
  unfold logReply
  cases last with
  | none => exact ⟨rfl, rfl⟩
  | some word =>
    dsimp only
    split <;> exact ⟨rfl, rfl⟩

theorem bears_nextAction (hw : w.WellFormed) (hsorted : Table.Sorted w.futures) (context : Context)
    (rest : List Action) : (w.nextAction context rest).Bears w 0 := by
  cases rest with
  | nil => exact (Move.Keeps.of_world (.refl w 0)).bears
  | cons a rest => exact (bears_perform hw hsorted context a).before (by simp [Frame.isOrdinary])

/-- Work is done under a capability that stays where it is, until the work is done. -/
theorem bears_work (hw : w.WellFormed) (hsorted : Table.Sorted w.futures) (name : String)
    (work : Work) (g : Grant) (rest : List Action) : (w.work name work g rest).Bears w {g} := by
  -- the capability stays with the work while an action of it is performed
  have hperform : ∀ a rest', ((w.perform { tag := name } a).before
      [.working name work g (some a.word) rest']).Bears w {g} := by
    intro a rest'
    have hbounds : ∀ g', .invocation g' ∉ [Frame.working name work g (some a.word) rest'] := by
      simp
    have hbeside := (bears_perform hw hsorted { tag := name } a).beside hbounds
    simpa [Frame.held] using hbeside
  cases rest with
  | nil => exact ((keeps_release w g).answering _).bears
  | cons a rest =>
    cases a with
    | pause => exact (keeps_suspend hsorted name (.run work (.working g rest))).bears
    | _ => exact hperform _ _

theorem keeps_reportFailure (w : World) (g : Grant) (failure : Failure) :
    (w.reportFailure g failure).Keeps w 0 0 := by
  have hcounted : w.Keeps 0 0 (w.setLock g.lock (w.lock g.lock).countFailure) 0 := by
    refine ⟨0, .of_eq rfl rfl rfl rfl fun g' hunended => isUnended_setLock ?_ hunended⟩
    exact fun _ hn => hn
  unfold reportFailure
  refine .of_world (Keeps.after ?_ hcounted)
  split
  · exact keeps_emit _ _
  · exact .refl _ 0

/-- Taking a request off a run list ends no grant, and neither does giving a run list up. -/
theorem keeps_setRunLists (w : World) (lock : LockId) {l : Lock Entry}
    (hl : l.unended = (w.lock lock).unended) : w.Keeps given 0 (w.setLock lock l) given := by
  refine ⟨0, .of_eq rfl rfl rfl rfl fun g hunended => isUnended_setLock (fun n hn => ?_) hunended⟩
  rwa [Lock.isUnended, hl]

/-- A loop that has nothing left to start gives its run list up. -/
theorem keeps_dispatch_none {lock : LockId} (hnext : (w.lock lock).next w.thread = none)
    (outcome : Reply) : (w.dispatch lock outcome).Keeps w 0 0 := by
  have hclosed : w.Keeps 0 0 (w.setLock lock ((w.lock lock).close w.thread).1) 0 :=
    keeps_setRunLists w lock rfl
  simp only [dispatch, hnext]
  exact .of_world hclosed

/-- What a loop starts nobody knew before. -/
theorem keeps_dispatch_some {lock : LockId} {r : Request Entry} {l : Lock Entry}
    (hnext : (w.lock lock).next w.thread = some (r, l))
    (hg : w.isUnended (r.grant lock) = true) (outcome : Reply) :
    (w.dispatch lock outcome).Keeps w 0 {r.grant lock} := by
  -- taking a request off its run list ends nothing
  have hl : l.unended = (w.lock lock).unended := by
    obtain ⟨before, deferred, after, -, -, rfl⟩ := Lock.next_cases hnext
    rfl
  have htaken : (w.setLock lock l).isUnended (r.grant lock) = true := by
    refine isUnended_setLock (fun n hn => ?_) hg
    rwa [Lock.isUnended, hl]
  simp only [dispatch, hnext]
  have hstarted := (keeps_start htaken).after (keeps_setRunLists w lock hl)
  exact hstarted.before (by simp [Frame.isOrdinary])

/-- Nor did anybody know the grants that are handed back. -/
theorem keeps_handBack (w : World) (lock : LockId) (r : Request Entry)
    (rest : List (Request Entry)) : (w.handBack lock (r :: rest)).Keeps w 0 {r.grant lock} :=
  ((w.custody_unsent (r.grant lock)).endGrant (.inr (Multiset.mem_singleton_self _))).before
    (by simp [Frame.isOrdinary])

end World

namespace Frame

variable {w : World} {f : Frame}

/-- What a frame does after a return; only what comes from a run list is different. -/
theorem bears_resume (hw : w.WellFormed) (hsorted : Table.Sorted w.futures)
    (hloop : ∀ lock outcome, f ≠ .dispatching lock outcome)
    (hback : ∀ lock items, f ≠ .handingBack lock items) (reply : Reply) :
    (f.resume w reply).Bears w f.held := by
  -- frames that answer, conclude or join keep everything as it is
  have hkept : ∀ (v : World) (control : Control), w.Keeps 0 0 v 0 →
      Move.Bears { world := v, control := control } w 0 :=
    fun v control h => (Move.Keeps.of_world h).bears
  cases f with
  | dispatching lock outcome => exact absurd rfl (hloop lock outcome)
  | handingBack lock items => exact absurd rfl (hback lock items)
  | actions context last rest =>
    obtain ⟨hlocks, hfutures⟩ := w.locks_logReply context last reply
    have hnext := World.bears_nextAction (World.logReply_ok hw context last reply []).1
      (hfutures ▸ hsorted) context rest
    exact hnext.after hlocks (w.keeps_logReply context last reply)
  | finishing g t =>
    have hended : w.Keeps 0 0 (if t.quiet then w else w.emit (.ended t.tag)) 0 := by
      split
      · exact .refl w 0
      · exact w.keeps_emit _
    exact (((World.keeps_dropOwned _ g).after hended).before (by simp [isOrdinary])).bears
  | concluding fault => cases fault <;> exact hkept w _ (.refl w 0)
  | invocation g => exact hkept _ _ (.of_locks rfl rfl rfl rfl rfl)
  | reporting g failure => exact (w.keeps_reportFailure g failure).bears
  | discarding g entry => exact hkept _ _ (w.keeps_discard (some g) entry)
  | joining thread entered => exact hkept _ _ (.of_locks rfl rfl rfl rfl rfl)
  | iterating context times body =>
    cases times with
    | zero => exact hkept w _ (.refl w 0)
    | succ times =>
      exact (Move.Keeps.of_ordinary (.refl w 0) (by simp [resume, isOrdinary])).bears
  | acquiring name c => exact (World.keeps_acquired hsorted name c reply).bears
  | awaiting name work c => exact (World.keeps_submitted hsorted name work c reply).bears
  | working name work g last rest =>
    obtain ⟨hlocks, hfutures⟩ := w.locks_logReply { tag := name } last reply
    have hwork := World.bears_work (World.logReply_ok hw { tag := name } last reply []).1
      (hfutures ▸ hsorted) name work g rest
    exact hwork.after hlocks (w.keeps_logReply { tag := name } last reply)
  | droppingWork name => exact hkept _ _ (w.keeps_emit _)
  | answering answer => exact hkept w _ (.refl w 0)
  | rethrowing fault => exact hkept w _ (.refl w 0)
  | guarding => exact hkept w _ (.refl w 0)

/-- What a frame does for a fault; only a boundary ends a grant whose capability is elsewhere. -/
theorem keeps_unwind (hbound : ∀ g, f ≠ .invocation g) (fault : Fault) :
    (f.unwind w fault).Keeps w f.held 0 := by
  -- the same for frames that only pass the fault on
  have hkept : ∀ (v : World) (control : Control), w.Keeps 0 0 v 0 →
      Move.Keeps { world := v, control := control } w 0 0 :=
    fun v control h => .of_world h
  have hemit : ∀ (e : Event) (given : Multiset Grant), w.Keeps given 0 (w.emit e) given :=
    fun e given => w.keeps_emit e
  cases f with
  | invocation g => exact absurd rfl (hbound g)
  | finishing g t => exact (w.keeps_dropOwned g).before (by simp [isOrdinary])
  | dispatching lock outcome =>
    refine .of_ordinary (World.keeps_setRunLists w lock rfl) ?_
    simp [unwind, World.unwindDispatch, isOrdinary]
  | joining thread entered => exact hkept _ _ (.of_locks rfl rfl rfl rfl rfl)
  | acquiring name c => exact (w.keeps_dropReceiver c).before (by simp [isOrdinary])
  | awaiting name work c => exact (w.keeps_dropReceiver c).before (by simp [isOrdinary])
  | working name work g last rest =>
    exact ((World.keeps_endGrant _ g).after (hemit _ _)).before (by simp [isOrdinary])
  | droppingWork name => exact hkept _ _ (hemit _ _)
  | _ => exact hkept w _ (.refl w 0)

end Frame

end FairLock
