import FairLock.Proofs.Machine.Mail

/-!
# Where a future stays

A future for access that waits is stored under the name under which it was made.  It leaves that
place when it is dropped or when another future is stored there, and then its receiver goes in the
same step.  Nothing is ever stored there that has the receiver again, since there is only the one.

A future that waits is registered at its channel to be woken, under the name under which it is
stored.  A future with work is taken out of its place for the time of a poll, and is back there when
it goes on waiting; so whoever is registered at a channel is stored and has the receiver.

## Main definitions

- `World.Stores`: a future for access is stored, with the receiver of a channel.
- `World.Attended`: who is registered at a channel is a stored future that has the receiver.
- `World.Retains`: the receiver of a channel goes, or the futures stay where they are.

## Main statements

- `Frame.retains_resume`, `Frame.spares_unwind`, and the lemmas before them: the operations.
- `Machine.Next.retains`: a transition retains the future of every channel.
- `Machine.Reachable.attended`.
-/

namespace FairLock

theorem Table.get?_remove_of_ne {β : Type} {t : Table β} {name other : String} (h : name ≠ other) :
    (t.remove other).get? name = t.get? name := by
  induction t with
  | nil => rfl
  | cons entry rest ih =>
    obtain ⟨n, v⟩ := entry
    -- entries of the other name are passed over, with the table as without them
    by_cases hn : n = other
    · subst hn
      have hremoved : Table.remove ((n, v) :: rest) n = Table.remove rest n := by
        simp [Table.remove]
      rw [hremoved, get?_cons, if_neg h, ih]
    · have hkept : Table.remove ((n, v) :: rest) other = (n, v) :: Table.remove rest other := by
        simp [Table.remove, hn]
      rw [hkept, get?_cons, get?_cons, ih]

namespace World

variable {w v u : World} {name : String} {c : ChannelId} {f : Future}

/-- A future for access is stored under the name, with the receiver of the channel. -/
def Stores (w : World) (name : String) (c : ChannelId) : Prop :=
  w.futures.get? name = some (.acquire (.accepted c))

/-- Who is registered at the channel to be woken is a stored future that has its receiver. -/
def Attended (c : ChannelId) (w : World) : Prop :=
  ∀ name, w.channel c = .open (some name) → ∃ f, w.futures.get? name = some f ∧ c ∈ f.receivers

/-- Stored futures are left alone, and nobody comes to be registered at the channel. -/
structure Spares (c : ChannelId) (w v : World) : Prop where
  futures : v.futures = w.futures
  waker : ∀ name, v.channel c = .open (some name) → w.channel c = .open (some name)

/-- The future that has the receiver of the channel stays where it is stored. -/
structure Leaves (c : ChannelId) (w v : World) : Prop where
  stores : ∀ name, w.Stores name c → v.Stores name c
  attended : w.Attended c → v.Attended c

/-- It does, or the receiver goes. -/
def Retains (c : ChannelId) (w v : World) : Prop := v.channel c = .gone ∨ w.Leaves c v

theorem Spares.of_eq (hfutures : v.futures = w.futures) (hchannels : v.channels = w.channels) :
    w.Spares c v := by
  refine ⟨hfutures, fun name h => ?_⟩
  rwa [channel, hchannels] at h

theorem Spares.trans (h : w.Spares c v) (h' : v.Spares c u) : w.Spares c u :=
  ⟨h'.futures.trans h.futures, fun name hu => h.waker name (h'.waker name hu)⟩

/-- Something is done first that concerns neither futures nor channels. -/
theorem Spares.after (h : v.Spares c u) (hfutures : v.futures = w.futures)
    (hchannels : v.channels = w.channels) : w.Spares c u :=
  (of_eq hfutures hchannels).trans h

theorem Aside.spares (h : w.Aside c v) : w.Spares c v := by
  refine ⟨h.futures, fun name hv => ?_⟩
  rwa [h.channel] at hv

theorem Leaves.trans (h : w.Leaves c v) (h' : v.Leaves c u) : w.Leaves c u :=
  ⟨fun name hw => h'.stores name (h.stores name hw), fun hw => h'.attended (h.attended hw)⟩

theorem Spares.leaves (h : w.Spares c v) : w.Leaves c v := by
  constructor
  · intro name hstored
    rwa [Stores, h.futures]
  · intro hw name hopen
    rw [h.futures]
    exact hw name (h.waker name hopen)

theorem Spares.retains (h : w.Spares c v) : w.Retains c v := .inr h.leaves

/-- Something is done first that leaves the future where it is. -/
theorem Retains.after (h : v.Retains c u) (hv : w.Leaves c v) : w.Retains c u := h.imp_right hv.trans

theorem Retains.of_eq (hfutures : v.futures = w.futures) (hchannels : v.channels = w.channels) :
    w.Retains c v :=
  (Spares.of_eq hfutures hchannels).retains

theorem Aside.retains (h : w.Aside c v) : w.Retains c v := h.spares.retains

/-! ## Grants -/

theorem aside_dropOwned (w : World) (g : Grant) : w.Aside c (w.dropOwned g).world := by
  unfold dropOwned
  split
  · have htaken : w.Aside c { w with owned := w.owned.erase g } := .of_eq rfl rfl rfl
    exact htaken.trans (aside_endGrant _ g)
  · exact .refl c w

theorem aside_keep (w : World) (name : String) (g : Grant) : w.Aside c (w.keep name g).world := by
  have hkept : w.Aside c { w with store := w.store.put name g } := .of_eq rfl rfl rfl
  unfold keep
  cases w.store.get? name with
  | none => exact hkept
  | some old => exact hkept.trans (aside_endGrant _ old)

theorem aside_takeFrom (w : World) (g : Grant) (place : Place) : w.Aside c (w.takeFrom g place) := by
  cases place <;> exact .of_eq rfl rfl rfl

theorem aside_contain (w : World) (g : Grant) (fault : Fault) :
    w.Aside c (w.contain g fault).world := by
  unfold contain
  split
  · exact .refl c w
  · exact w.aside_endGrant g

/-- Nobody is registered by what an entry hands over. -/
theorem Hands.spares {entry : Entry} {new : Channel} {waker : Option String}
    (h : w.Hands entry new v waker) (hnew : ∀ waker, new ≠ .open waker)
    (hfutures : v.futures = w.futures) : w.Spares c v := by
  refine ⟨hfutures, fun name hopen => ?_⟩
  -- a channel that was not made has nobody registered
  have hc : c < w.channels.length := by
    by_contra hc
    have hlength : v.channels.length = w.channels.length := by
      cases h with
      | heard hentry hopen hchannels => rw [hchannels, List.length_set]
      | unheard hno hchannels => rw [hchannels]
    have hnone : v.channels.length ≤ c := hlength ▸ Nat.le_of_not_lt hc
    rw [channel, List.getD_eq_getElem?_getD, List.getElem?_eq_none hnone] at hopen
    cases hopen
  by_cases hentry : entry = .sender c
  · subst hentry
    rcases h.own hc with ⟨-, heq⟩ | ⟨-, -, heq⟩
    · rw [heq] at hopen
      exact absurd hopen (hnew _)
    · rwa [heq] at hopen
  · rwa [(h.other hentry).1] at hopen

theorem spares_discard (w : World) (grant : Option Grant) (entry : Entry) :
    w.Spares c (w.discard grant entry) := by
  obtain ⟨waker, hands, -⟩ := w.hands_discard grant entry
  obtain ⟨tag, channels, woken, heq, -, -⟩ := w.discard_eq grant entry
  exact hands.spares nofun (by rw [heq])

theorem futures_start (w : World) (lock : LockId) (r : Request Entry) :
    (w.start lock r).world.futures = w.futures := by
  have hstarts := w.starts_start lock r
  generalize w.start lock r = m at hstarts
  cases hstarts with
  | task h shown body => rfl
  | @sent c waker h hc => cases waker <;> rfl
  | unheard h hc => exact (aside_endGrant (c := 0) _ (r.grant lock)).futures

theorem spares_start (w : World) (lock : LockId) (r : Request Entry) :
    w.Spares c (w.start lock r).world := by
  obtain ⟨waker, hands, -⟩ := w.hands_start lock r
  exact hands.spares nofun (w.futures_start lock r)

theorem spares_submit (w : World) (lock : LockId) (mode : Mode) (entry : Entry) :
    w.Spares c (w.submit lock mode entry).world := by
  unfold submit
  cases (w.lock lock).submit mode entry with
  | mk l submission =>
    cases submission with
    | granted r =>
      simp only [issue_eq, startGranted]
      split <;> exact (spares_start _ lock r).after rfl rfl
    | queued n pending => exact .of_eq rfl rfl
    | rejected refused limit => exact (spares_discard _ none refused).after rfl rfl

theorem spares_dispatch (w : World) (lock : LockId) (outcome : Reply) :
    w.Spares c (w.dispatch lock outcome).world := by
  unfold dispatch
  cases (w.lock lock).next w.thread with
  | none => exact .of_eq rfl rfl
  | some found => exact (spares_start _ lock found.1).after rfl rfl

theorem spares_handBack (w : World) (lock : LockId) (items : List (Request Entry)) :
    w.Spares c (w.handBack lock items).world := by
  cases items with
  | nil => exact .of_eq rfl rfl
  | cons r rest => exact (w.aside_endGrant _).spares

/-- A new channel has nobody registered. -/
theorem spares_newChannel (w : World) : w.Spares c w.newChannel.1 := by
  refine ⟨rfl, fun name hopen => ?_⟩
  by_cases hc : c = w.channels.length
  · subst hc
    have hnew : w.newChannel.1.channel w.channels.length = .open none := w.channel_newChannel_self
    rw [hnew] at hopen
    cases hopen
  · rwa [channel_newChannel hc] at hopen

/-! ## Receivers -/

/-- A channel may be set to anything at which nobody is registered. -/
theorem spares_setChannel {other : ChannelId} {new : Channel}
    (hnew : ∀ name, new ≠ .open (some name)) : w.Spares c (w.setChannel other new) := by
  refine ⟨rfl, fun name hopen => ?_⟩
  -- on this channel somebody is registered only if what it is set to says so
  by_cases hother : other = c
  · subst hother
    by_cases hc : other < w.channels.length
    · rw [channel_setChannel_self hc] at hopen
      exact absurd hopen (hnew name)
    · have hsame : w.setChannel other new = w := by
        rw [setChannel, List.set_eq_of_length_le (Nat.le_of_not_lt hc)]
      rwa [hsame] at hopen
  · rwa [channel_setChannel_of_ne hother] at hopen

theorem spares_dropReceiver (w : World) (other : ChannelId) :
    w.Spares c (w.dropReceiver other).world := by
  have hclosed : w.Spares c (w.setChannel other .gone) := spares_setChannel nofun
  unfold dropReceiver
  cases w.channel other with
  | sent g => exact hclosed.trans (aside_endGrant _ g).spares
  | _ => exact hclosed

theorem channel_dropReceiver (w : World) (c : ChannelId) :
    (w.dropReceiver c).world.channel c = .gone := by
  unfold dropReceiver
  cases w.channel c with
  | sent g =>
    have haside := (w.setChannel c .gone).aside_endGrant (c := c) g
    exact haside.channel.trans (w.channel_setChannel_gone c)
  | _ => exact w.channel_setChannel_gone c

theorem spares_dropFuture (w : World) (name : String) (f : Future) :
    w.Spares c (w.dropFuture name f).world := by
  -- in every stage a future is dropped by letting go of one thing
  cases f with
  | acquire acquisition =>
    cases acquisition with
    | accepted other => exact w.spares_dropReceiver other
    | refused failure => exact .of_eq rfl rfl
  | run work stage =>
    cases stage with
    | unstarted => exact .of_eq rfl rfl
    | waiting other => exact w.spares_dropReceiver other
    | working g rest => exact (aside_endGrant _ g).spares.after rfl rfl

/-- The receiver that it has goes with it. -/
theorem channel_dropFuture (w : World) (name : String) (hc : c ∈ f.receivers) :
    (w.dropFuture name f).world.channel c = .gone := by
  -- only a future that listens has a receiver, and the drop closes that channel
  cases f with
  | acquire acquisition =>
    cases acquisition with
    | accepted other =>
      obtain rfl := Multiset.mem_singleton.1 hc
      exact w.channel_dropReceiver c
    | refused failure => exact absurd hc (Multiset.notMem_zero c)
  | run work stage =>
    cases stage with
    | waiting other =>
      obtain rfl := Multiset.mem_singleton.1 hc
      exact w.channel_dropReceiver c
    | unstarted => exact absurd hc (Multiset.notMem_zero c)
    | working g rest => exact absurd hc (Multiset.notMem_zero c)

/-! ## Places -/

theorem Stores.mem_receivers (h : w.Stores name c) (hget : w.futures.get? name = some f) :
    c ∈ f.receivers := by
  have hstored : w.futures.get? name = some (.acquire (.accepted c)) := h
  rw [hget] at hstored
  cases hstored
  exact Multiset.mem_singleton_self c

/-- One place changes, and the receiver is not there. -/
theorem Leaves.of_place {futures : Table Future}
    (hfutures : ∀ other, other ≠ name → futures.get? other = w.futures.get? other)
    (hold : ∀ old, w.futures.get? name = some old → c ∉ old.receivers) :
    w.Leaves c { w with futures := futures } := by
  constructor
  · intro other hstored
    have hne : other ≠ name := by
      rintro rfl
      -- with another receiver in the place that changes, this one is in another place
      exact hold _ hstored (hstored.mem_receivers hstored)
    show futures.get? other = _
    rw [hfutures other hne]
    exact hstored
  · intro hw other hopen
    obtain ⟨f, hf, hc⟩ := hw other hopen
    have hne : other ≠ name := by
      rintro rfl
      exact hold f hf hc
    refine ⟨f, ?_, hc⟩
    rw [← hf]
    exact hfutures other hne

theorem leaves_put (f : Future) (hold : ∀ old, w.futures.get? name = some old → c ∉ old.receivers) :
    w.Leaves c { w with futures := w.futures.put name f } :=
  .of_place (fun _ hne => Table.get?_put_of_ne hne) hold

theorem leaves_remove (hold : ∀ old, w.futures.get? name = some old → c ∉ old.receivers) :
    w.Leaves c { w with futures := w.futures.remove name } :=
  .of_place (fun _ hne => Table.get?_remove_of_ne hne) hold

/-- Only the future that makes room goes, and its receiver goes with it. -/
theorem retains_storeFuture (w : World) (name : String) (f : Future) :
    w.Retains c (w.storeFuture name f).world := by
  unfold storeFuture
  -- the receiver is in the future that makes room, or it stays where it is
  cases hget : w.futures.get? name with
  | none => exact .inr (leaves_put f fun old hold => by rw [hget] at hold; cases hold)
  | some old =>
    by_cases hc : c ∈ old.receivers
    · exact .inl (channel_dropFuture _ name hc)
    · refine .inr ((leaves_put f fun old' hold => ?_).trans (spares_dropFuture _ name old).leaves)
      rw [hget] at hold
      cases hold
      exact hc

/-- The one place changes, and no other. -/
theorem futures_storeFuture (w : World) (name : String) (f : Future) :
    (w.storeFuture name f).world.futures = w.futures.put name f := by
  unfold storeFuture
  cases w.futures.get? name with
  | none => rfl
  | some old =>
    exact (spares_dropFuture (c := 0) { w with futures := w.futures.put name f } name old).futures

theorem retains_dropStored (w : World) (name : String) : w.Retains c (w.dropStored name).world := by
  unfold dropStored
  cases hget : w.futures.get? name with
  | none => exact .of_eq rfl rfl
  | some f =>
    by_cases hc : c ∈ f.receivers
    · exact .inl (channel_dropFuture _ name hc)
    · refine .inr ((leaves_remove fun old hold => ?_).trans (spares_dropFuture _ name f).leaves)
      rw [hget] at hold
      cases hold
      exact hc

theorem retains_acquired (w : World) (name : String) (other : ChannelId) (answer : Reply) :
    w.Retains c (w.acquired name other answer).world := by
  unfold acquired
  cases answer with
  | failed failure =>
    have hclosed : w.Spares c (w.setChannel other .gone) := spares_setChannel nofun
    exact (retains_storeFuture _ name _).after hclosed.leaves
  | _ => exact w.retains_storeFuture name _

/-! ## Polls -/

/-- At another channel a poll registers nobody. -/
theorem spares_receive {other : ChannelId} (hother : other ≠ c) (future : String) :
    w.Spares c (w.receive other future).1 := by
  unfold receive
  cases w.channel other with
  | taken => exact .of_eq rfl rfl
  | gone => exact .of_eq rfl rfl
  | _ => exact (aside_setChannel hother _).spares

/-- A future that is stored may register itself. -/
theorem leaves_receive {other : ChannelId} (h : w.futures.get? name = some f)
    (hf : other ∈ f.receivers) : w.Leaves c (w.receive other name).1 := by
  by_cases hother : other = c
  · subst hother
    unfold receive
    cases hchannel : w.channel other with
    | «open» waker =>
      -- the future registers under its own name, and has the receiver
      refine ⟨fun _ hstored => hstored, fun hw future hopen => ?_⟩
      by_cases hmade : other < w.channels.length
      · rw [channel_setChannel_self hmade] at hopen
        cases hopen
        exact ⟨f, h, hf⟩
      · have hsame : w.setChannel other (.open (some name)) = w := by
          rw [setChannel, List.set_eq_of_length_le (Nat.le_of_not_lt hmade)]
        rw [hsame] at hopen ⊢
        exact hw future hopen
    | taken => exact (Spares.of_eq rfl rfl).leaves
    | gone => exact (Spares.of_eq rfl rfl).leaves
    | _ =>
      have hreceived : w.Spares other (w.setChannel other .taken) := spares_setChannel fun _ hopen => by cases hopen
      exact hreceived.leaves
  · exact (spares_receive hother name).leaves

theorem retains_pollAcquire {acquisition : Acquisition}
    (h : w.futures.get? name = some (.acquire acquisition)) :
    w.Retains c (w.pollAcquire name acquisition).world := by
  cases acquisition with
  | refused failure =>
    -- a refused future has no receiver
    refine .inr (leaves_put _ fun old hold => ?_)
    rw [h] at hold
    cases hold
    exact Multiset.notMem_zero c
  -- a poll looks into the channel of its own future, and only registers there
  | accepted other =>
    have hreceive := leaves_receive (c := c) h (Multiset.mem_singleton_self other)
    simp only [pollAcquire]
    generalize w.receive other name = p at hreceive ⊢
    obtain ⟨v, received⟩ := p
    cases received with
    | grant g => exact (v.aside_keep name g).retains.after hreceive
    | _ => exact .inr hreceive

/-- A future with work that goes on waiting is put back with its receiver. -/
theorem attended_awaitGrant (w : World) (name : String) (work : Work) (other : ChannelId) :
    (w.awaitGrant name work other).world.Attended other := by
  unfold awaitGrant receive
  cases hchannel : w.channel other with
  | «open» waker =>
    have hmade : other < w.channels.length :=
      (List.getElem?_eq_some_iff.1 (getElem?_of_channel hchannel rfl)).1
    have hput : ∀ future, (w.setChannel other (.open (some name))).channel other =
        .open (some future) → future = name := by
      intro future hopen
      rw [channel_setChannel_self hmade] at hopen
      cases hopen
      rfl
    -- it registers first, and is then stored under the name that it registered
    simp only [suspend, storeFuture]
    generalize w.setChannel other (.open (some name)) = v at hput
    have hstored : Attended other
        { v with futures := v.futures.put name (.run work (.waiting other)) } := by
      intro future hopen
      rw [hput future hopen]
      exact ⟨_, Table.get?_put_self _ _ _, Multiset.mem_singleton_self other⟩
    cases v.futures.get? name with
    | none => exact hstored
    | some old => exact (spares_dropFuture _ name old).leaves.attended hstored
  | taken =>
    intro future hopen
    exact absurd (hchannel.symm.trans hopen) nofun
  | gone =>
    intro future hopen
    exact absurd (hchannel.symm.trans hopen) nofun
  | _ =>
    have hreceived : w.Spares other (w.setChannel other .taken) := spares_setChannel nofun
    intro future hopen
    exact absurd (hchannel.symm.trans (hreceived.waker future hopen)) nofun

theorem retains_awaitGrant (w : World) (name : String) (work : Work) (other : ChannelId) :
    w.Retains c (w.awaitGrant name work other).world := by
  have hattended := w.attended_awaitGrant name work other
  have hreceive : (w.receive other name).1.futures = w.futures := by
    unfold receive
    cases w.channel other <;> rfl
  have hspares : other ≠ c → w.Spares c (w.receive other name).1 := fun hne => spares_receive hne name
  unfold awaitGrant at hattended ⊢
  generalize w.receive other name = p at hreceive hspares hattended ⊢
  obtain ⟨v, received⟩ := p
  -- at its own channel the future is put back, and at the others nothing happens
  have hleaves : ∀ {u : World}, u.Attended other → v.Retains c u → w.Retains c u := by
    intro u hu h
    by_cases hother : other = c
    · subst hother
      refine h.imp_right fun h => ⟨fun name hstored => h.stores name ?_, fun _ => hu⟩
      rwa [Stores, hreceive]
    · exact h.after (hspares hother).leaves
  cases received with
  | notYet => exact hleaves hattended (v.retains_storeFuture name _)
  | _ => exact hleaves hattended (.of_eq rfl rfl)

theorem retains_submitted (w : World) (name : String) (work : Work) (other : ChannelId)
    (answer : Reply) : w.Retains c (w.submitted name work other answer).world := by
  unfold submitted
  cases answer with
  | failed failure =>
    have hclosed : w.Spares c (w.setChannel other .gone) := spares_setChannel nofun
    exact Spares.retains (hclosed.trans (.of_eq rfl rfl))
  | _ => exact w.retains_awaitGrant name work other

theorem spares_request (w : World) (lock : LockId) (mode : Mode) (frames : List Frame) :
    w.Spares c
      ((w.newChannel.1.submit lock mode (.sender w.newChannel.2)).before frames).world :=
  w.spares_newChannel.trans (spares_submit _ lock mode _)

/-- A future with work is taken out of its place for the time of a poll. -/
theorem retains_pollRun {work : Work} {stage : Stage}
    (h : w.futures.get? name = some (.run work stage)) :
    w.Retains c
      (pollRun { w with futures := w.futures.remove name } name work stage).world := by
  have hold : ∀ old, w.futures.get? name = some old → old = .run work stage := by
    intro old hold
    rw [h] at hold
    exact (Option.some.inj hold).symm
  cases stage with
  | unstarted =>
    refine .inr ((leaves_remove fun old hget => ?_).trans (spares_request _ _ _ _).leaves)
    rw [hold old hget]
    exact Multiset.notMem_zero c
  | waiting other =>
    have hretains := retains_awaitGrant (c := c) { w with futures := w.futures.remove name } name
      work other
    by_cases hother : c = other
    · -- the channel is attended again once the future is back in its place
      subst hother
      refine hretains.imp_right fun hleaves => ⟨fun future hstored => ?_, fun _ => ?_⟩
      · refine hleaves.stores future ?_
        have hne : future ≠ name := by
          rintro rfl
          cases hold _ hstored
        show (w.futures.remove name).get? future = _
        rw [Table.get?_remove_of_ne hne]
        exact hstored
      · exact attended_awaitGrant _ name work c
    · refine hretains.after (leaves_remove fun old hget => ?_)
      rw [hold old hget]
      exact mt Multiset.mem_singleton.1 hother
  | working g rest =>
    refine .inr (leaves_remove fun old hget => ?_)
    rw [hold old hget]
    exact Multiset.notMem_zero c

theorem retains_poll (w : World) (name : String) : w.Retains c (w.poll name).world := by
  unfold poll
  cases hget : w.futures.get? name with
  | none => exact .of_eq rfl rfl
  | some f =>
    cases f with
    | acquire acquisition => exact retains_pollAcquire hget
    | run work stage => exact retains_pollRun hget

/-! ## Actions and frames -/

theorem spares_withLock (w : World) (handle : Nat) {use : LockId → Move}
    (huse : ∀ lock, w.Spares c (use lock).world) :
    w.Spares c (w.withLock handle use).world := by
  unfold withLock
  cases w.lockOf? handle with
  | none => exact .of_eq rfl rfl
  | some lock => exact huse lock

theorem spares_withCapability (w : World) (context : Context) (cap : CapRef)
    {use : Place → Grant → Move} (huse : ∀ place g, w.Aside c (use place g).world) :
    w.Spares c (w.withCapability context cap use).world := by
  unfold withCapability
  cases w.locate context cap with
  | none => exact .of_eq rfl rfl
  | some found => exact (huse found.1 found.2).spares

end World

/-- The action stores, polls or drops a future. -/
def Action.touchesFutures : Action → Bool
  | .run .. | .poll _ | .dropFuture _ => true
  | _ => false

/-- The frame does so when it goes on. -/
def Frame.touchesFutures : Frame → Bool
  | .actions _ _ (a :: _) => a.touchesFutures
  | .acquiring .. | .awaiting .. | .working .. => true
  | _ => false

namespace World

variable {w : World} {c : ChannelId}

/-- All other actions leave the stored futures and their registrations alone. -/
theorem spares_perform (w : World) (context : Context) {a : Action}
    (h : a.touchesFutures = false) : w.Spares c (w.perform context a).world := by
  cases a with
  | submit handle mode tag entry ending quiet =>
    exact w.spares_withLock handle fun lock => w.spares_submit lock mode _
  | release cap => exact w.spares_withCapability context cap fun _ g => w.aside_release g
  | drop cap =>
    refine w.spares_withCapability context cap fun place g => ?_
    exact (w.aside_takeFrom g place).trans (aside_endGrant _ g)
  | «forget» cap =>
    refine w.spares_withCapability context cap fun place g => ?_
    exact (w.aside_takeFrom g place).trans (.of_eq rfl rfl rfl)
  | park name =>
    refine w.spares_withCapability context .own fun place g => ?_
    exact (w.aside_takeFrom g place).trans (aside_keep _ _ g)
  | inspect cap => exact w.spares_withCapability context cap fun _ _ => .refl c w
  | look handle => exact w.spares_withLock handle fun _ => .of_eq rfl rfl
  | stats handle => exact w.spares_withLock handle fun _ => .of_eq rfl rfl
  | config handle => exact w.spares_withLock handle fun _ => .of_eq rfl rfl
  | same a b => exact w.spares_withLock a fun _ => w.spares_withLock b fun _ => .of_eq rfl rfl
  | clone handle => exact w.spares_withLock handle fun _ => .of_eq rfl rfl
  | dropHandle handle =>
    simp only [perform, dropHandle]
    split <;> exact .of_eq rfl rfl
  | «when» key below body quiet =>
    simp only [perform]
    split <;> exact .of_eq rfl rfl
  | acquire handle mode name =>
    -- the future is stored only when the submission has been answered
    exact w.spares_withLock handle fun lock => w.spares_request lock mode _
  | run handle mode name work output => cases h
  | poll name => cases h
  | dropFuture name => cases h
  | _ => exact .of_eq rfl rfl

theorem retains_perform (w : World) (context : Context) (a : Action) :
    w.Retains c (w.perform context a).world := by
  cases htouches : a.touchesFutures with
  | false => exact (w.spares_perform context htouches).retains
  -- only the three actions about futures touch the table
  | true =>
    cases a with
    | run handle mode name work output =>
      simp only [perform, withLock]
      cases w.lockOf? handle with
      | none => exact .of_eq rfl rfl
      | some lock => exact w.retains_storeFuture name _
    | poll name => exact w.retains_poll name
    | dropFuture name => exact w.retains_dropStored name
    | _ => cases htouches

theorem aside_logReply (w : World) (context : Context) (last : Option String) (reply : Reply) :
    w.Aside c (w.logReply context last reply) := by
  unfold logReply
  cases last with
  | none => exact .refl c w
  | some word =>
    dsimp only
    split
    · exact .refl c w
    · exact ⟨rfl, rfl, .of_event rfl rfl⟩

theorem retains_work (w : World) (name : String) (work : Work) (g : Grant) (rest : List Action) :
    w.Retains c (w.work name work g rest).world := by
  cases rest with
  | nil => exact (w.aside_release g).retains
  -- work stores a future only when it pauses
  | cons a rest =>
    cases a with
    | pause => exact w.retains_storeFuture name _
    | _ => exact w.retains_perform _ _

end World

namespace Frame

variable {c : ChannelId}

theorem spares_resume (w : World) (reply : Reply) {f : Frame} (h : f.touchesFutures = false) :
    w.Spares c (f.resume w reply).world := by
  -- the frames of requests and of work are excluded, and the others leave the table alone
  cases f with
  | actions context last rest =>
    refine (w.aside_logReply context last reply).spares.trans ?_
    cases rest with
    | nil => exact .of_eq rfl rfl
    | cons a rest => exact World.spares_perform _ context h
  | finishing g t =>
    have hlogged : w.Spares c (if t.quiet then w else w.emit (.ended t.tag)) := by
      split <;> exact .of_eq rfl rfl
    exact hlogged.trans (World.aside_dropOwned _ g).spares
  | concluding fault => cases fault <;> exact .of_eq rfl rfl
  | reporting g failure => exact (w.aside_reportFailure g failure).spares
  | dispatching lock outcome => exact w.spares_dispatch lock _
  | handingBack lock items => exact w.spares_handBack lock items
  | discarding g entry => exact w.spares_discard (some g) entry
  | iterating context times body => cases times <;> exact .of_eq rfl rfl
  | acquiring name other => cases h
  | awaiting name work other => cases h
  | working name work g last rest => cases h
  | _ => exact .of_eq rfl rfl

theorem retains_resume (w : World) (reply : Reply) (f : Frame) :
    w.Retains c (f.resume w reply).world := by
  cases htouches : f.touchesFutures with
  | false => exact (spares_resume w reply htouches).retains
  -- these are the frames that touch the table after a return
  | true =>
    cases f with
    | actions context last rest =>
      refine World.Retains.after ?_ (w.aside_logReply context last reply).spares.leaves
      cases rest with
      | nil => exact .of_eq rfl rfl
      | cons a rest => exact World.retains_perform _ context a
    | acquiring name other => exact w.retains_acquired name other reply
    | awaiting name work other => exact w.retains_submitted name work other reply
    | working name work g last rest =>
      refine (World.retains_work _ name work g rest).after ?_
      exact (w.aside_logReply _ last reply).spares.leaves
    | _ => cases htouches

/-- An unwound frame drops receivers and capabilities, but no future that is stored. -/
theorem spares_unwind (w : World) (fault : Fault) (f : Frame) :
    w.Spares c (f.unwind w fault).world := by
  -- what is let go of are channels and grants of frames, and no stored future
  cases f with
  | finishing g t => exact (w.aside_dropOwned g).spares
  | invocation g =>
    have hleft : w.Spares c w.leaveSpan := .of_eq rfl rfl
    exact hleft.trans (World.aside_contain _ g fault).spares
  | acquiring name other => exact w.spares_dropReceiver other
  | awaiting name work other => exact w.spares_dropReceiver other
  | working name work g last rest =>
    have hdropped : w.Spares c (w.emit (.workDropped name)) := .of_eq rfl rfl
    exact hdropped.trans (World.aside_endGrant _ g).spares
  | _ => exact .of_eq rfl rfl

end Frame

namespace Machine

variable {m m' : Machine} {c : ChannelId}

/-- The future that has the receiver of a channel stays where it is stored, or the receiver goes. -/
theorem Next.retains (h : Next m m') : m.world.Retains c m'.world := by
  cases h with
  | step =>
    obtain ⟨w, frames, control⟩ := m
    cases frames with
    | nil => exact .of_eq rfl rfl
    | cons f below =>
      -- a step does what the frame on top does, and a call what its action does
      cases control with
      | returned reply => exact f.retains_resume w reply
      | unwinding fault => exact (f.spares_unwind w fault).retains
      | aborted => exact .of_eq rfl rfl
  | @call w control a hcontrol => exact w.retains_perform {} a

/-- Who is registered to be woken waits with the receiver under that name. -/
theorem Reachable.attended (h : m.Reachable) (c : ChannelId) : m.world.Attended c := by
  obtain ⟨configs, procedures, hr⟩ := h
  -- by induction on the run: a receiver that goes leaves nobody registered
  induction hr with
  | refl =>
    intro name hopen
    have hnone : (World.initial configs procedures).channels = [] :=
      congrArg Traffic.channels (World.traffic_initial configs procedures)
    have hopen' : (World.initial configs procedures).channel c = .open (some name) := hopen
    rw [World.channel, hnone] at hopen'
    cases hopen'
  | tail _ hn ih =>
    rcases hn.retains (c := c) with hgone | hleaves
    · intro name hopen
      cases hgone.symm.trans hopen
    · exact hleaves.attended ih

end Machine

end FairLock
