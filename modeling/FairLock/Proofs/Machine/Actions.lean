import FairLock.Proofs.Machine.Moves

/-!
# Actions and futures

What an action begins, and what polling and dropping a future does, is right: the operations on
grants are, and everything else only moves capabilities from one place to another.

## Main statements

- `World.dropFuture_ok`, `World.acquired_ok`, `World.submitted_ok`, `World.poll_ok`.
- `World.perform_ok`: the one step with which an action begins.
-/

namespace FairLock.World

variable {w : World} {out : List Grant}

/-! ## Futures -/

theorem dropReceiver_ok (h : w.WellFormed) (c : ChannelId) : (w.dropReceiver c).Ok w out := by
  have hclosed : (w.setChannel c .gone).WellFormed := h.setChannel c (by simp [Channel.held])
  have hleads := w.leads_setChannel c .gone out
  unfold dropReceiver
  cases hc : w.channel c with
  | sent g => exact (endGrant_ok hclosed (h.knows_of_sent hc)).after hleads
  | _ => exact .of_world hclosed hleads

theorem dropFuture_ok (h : w.WellFormed) (name : String) {f : Future} (hf : w.Supports f) :
    (w.dropFuture name f).Ok w out := by
  have hemit : w.Leads out (w.emit (.workDropped name)) out := .emit rfl
  -- dropped in whatever stage it is, a future lets go of a channel or of a grant, or of nothing
  cases f with
  | acquire acquisition =>
    cases acquisition with
    | accepted c => exact dropReceiver_ok h c
    | refused failure => exact .of_world h (.refl _ _)
  | run work stage =>
    cases stage with
    | unstarted => exact .of_world (h.emit _) hemit
    | waiting c => exact (dropReceiver_ok h c).under trivial
    | working g rest =>
      have hg : w.Knows g := hf.1 g (by simp [Future.held])
      exact (endGrant_ok (h.emit _) (hg.leads hemit)).after hemit

theorem storeFuture_ok (h : w.WellFormed) (name : String) {f : Future} (hf : w.Supports f) :
    (w.storeFuture name f).Ok w out := by
  have hstored := h.putFuture name hf
  have hleads : w.Leads out { w with futures := w.futures.put name f } out := .of_eq rfl rfl
  unfold storeFuture
  cases hold : w.futures.get? name with
  | none => exact .of_world hstored hleads
  | some old =>
    have hsupports : w.Supports old := h.futures _ (Table.mem_of_get? hold)
    exact (dropFuture_ok hstored name hsupports).after hleads

/-- A new channel concerns no lock. -/
theorem leads_newChannel (w : World) (out : List Grant) : w.Leads out w.newChannel.1 out :=
  .of_eq rfl rfl

theorem acquire_ok (h : w.WellFormed) {lock : LockId} (hid : lock < w.locks.length) (mode : Mode)
    (name : String) : (w.acquire lock mode name).Ok w out := by
  have hsubmit := (submit_ok h.newChannel hid mode
    (.sender w.newChannel.2)).after (w.leads_newChannel out)
  exact hsubmit.under trivial

theorem acquired_ok (h : w.WellFormed) (name : String) (c : ChannelId) (answer : Reply) :
    (w.acquired name c answer).Ok w out := by
  have hclosed : (w.setChannel c .gone).WellFormed := h.setChannel c (by simp [Channel.held])
  have hleads := w.leads_setChannel c .gone out
  refine Move.Ok.answering ?_
  cases answer with
  | failed failure =>
    exact (storeFuture_ok hclosed name (by simp [Supports, Future.held, Future.lock?])).after hleads
  | _ => exact storeFuture_ok h name (by simp [Supports, Future.held, Future.lock?])

/-- What a poll takes out of a channel is worth something. -/
theorem receive_ok (h : w.WellFormed) (c : ChannelId) (future : String) (out : List Grant) :
    (w.receive c future).1.WellFormed ∧ w.Leads out (w.receive c future).1 out ∧
      ∀ g, (w.receive c future).2 = .grant g → w.Knows g := by
  -- only a capability that was sent is held by a channel
  have hset : ∀ channel : Channel, channel.held = [] →
      (w.setChannel c channel).WellFormed ∧ w.Leads out (w.setChannel c channel) out := by
    intro channel hheld
    exact ⟨h.setChannel c (by simp [hheld]), w.leads_setChannel c channel out⟩
  unfold receive
  cases hc : w.channel c with
  | «open» waker =>
    obtain ⟨hwell, hleads⟩ := hset (.open (some future)) rfl
    exact ⟨hwell, hleads, by simp⟩
  | sent g =>
    obtain ⟨hwell, hleads⟩ := hset .taken rfl
    refine ⟨hwell, hleads, ?_⟩
    rintro g' ⟨⟩
    exact h.knows_of_sent hc
  | abandoned =>
    obtain ⟨hwell, hleads⟩ := hset .taken rfl
    exact ⟨hwell, hleads, by simp⟩
  | taken => exact ⟨h, .refl _ _, by simp⟩
  | gone => exact ⟨h, .refl _ _, by simp⟩

theorem pollAcquire_ok (h : w.WellFormed) (name : String) (acquisition : Acquisition) :
    (w.pollAcquire name acquisition).Ok w out := by
  cases acquisition with
  | refused failure =>
    have hput := h.putFuture name (f := .acquire (.refused none))
      (by simp [Supports, Future.held, Future.lock?])
    refine Move.Ok.reply hput ?_
    exact .of_eq rfl rfl
  | accepted c =>
    obtain ⟨hwell, hleads, hgrant⟩ := receive_ok h c name out
    simp only [pollAcquire]
    -- from here on only what was received counts
    generalize w.receive c name = p at hwell hleads hgrant ⊢
    obtain ⟨w', received⟩ := p
    cases received with
    | grant g =>
      have hg : w'.Knows g := (hgrant g rfl).leads hleads
      exact ((keep_ok hwell name hg).after hleads).answering
    | _ => exact .reply hwell hleads

theorem suspend_ok (h : w.WellFormed) (name : String) {f : Future} (hf : w.Supports f) :
    (w.suspend name f).Ok w out :=
  (storeFuture_ok h name hf).answering

theorem awaitGrant_ok (h : w.WellFormed) (name : String) {work : Work}
    (hid : work.lock < w.locks.length) (c : ChannelId) :
    (w.awaitGrant name work c).Ok w out := by
  obtain ⟨hwell, hleads, hgrant⟩ := receive_ok h c name out
  have hlocks := hleads.locks
  unfold awaitGrant
  generalize w.receive c name = p at hwell hleads hgrant hlocks ⊢
  obtain ⟨w', received⟩ := p
  cases received with
  -- work that waits goes back into the table, and holds nothing there
  | notYet =>
    refine (suspend_ok hwell name ?_).after hleads
    simpa [Supports, Future.held, Future.lock?, hlocks] using hid
  | grant g =>
    have hg : w'.Knows g := (hgrant g rfl).leads hleads
    have hstarted : w'.Leads out (w'.emit (.workStarted name)) out := .emit rfl
    exact .of_frame (hwell.emit _) (hleads.trans hstarted)
      ⟨hstarted.lock_lt (Nat.lt_of_lt_of_eq hid hlocks.symm), hg.leads hstarted⟩
  | abandoned => exact .reply (hwell.emit _) (hleads.trans (.emit rfl))
  | again => exact .reply (hwell.emit _) (hleads.trans (.emit rfl))

theorem submitted_ok (h : w.WellFormed) (name : String) {work : Work}
    (hid : work.lock < w.locks.length) (c : ChannelId) (answer : Reply) :
    (w.submitted name work c answer).Ok w out := by
  unfold submitted
  cases answer with
  | failed failure =>
    have hclosed : (w.setChannel c .gone).WellFormed := h.setChannel c (by simp [Channel.held])
    exact .reply (hclosed.emit _) ((w.leads_setChannel c .gone out).trans (.emit rfl))
  | _ => exact awaitGrant_ok h name hid c

theorem pollRun_ok (h : w.WellFormed) (name : String) {work : Work} {stage : Stage}
    (hf : w.Supports (.run work stage)) : (w.pollRun name work stage).Ok w out := by
  have hid : work.lock < w.locks.length := hf.2 work.lock (by simp [Future.lock?])
  cases stage with
  | unstarted =>
    have hsubmit := (submit_ok h.newChannel hid work.mode
      (.sender w.newChannel.2)).after (w.leads_newChannel out)
    exact hsubmit.under (hsubmit.leads.lock_lt hid)
  | waiting c => exact awaitGrant_ok h name hid c
  | working g rest =>
    exact .of_frame h (.refl _ _) ⟨hid, hf.1 g (by simp [Future.held])⟩

theorem poll_ok (h : w.WellFormed) (name : String) : (w.poll name).Ok w out := by
  unfold poll
  cases hget : w.futures.get? name with
  | none => exact .reply h (.refl _ _)
  | some f =>
    have hf : w.Supports f := h.futures _ (Table.mem_of_get? hget)
    cases f with
    | acquire acquisition => exact pollAcquire_ok h name acquisition
    | run work stage => exact (pollRun_ok (h.removeFuture name) name hf).after (.of_eq rfl rfl)

/-! ## Capabilities and locks that an action means -/

/-- The capability that an action means is worth something. -/
theorem knows_of_locate (h : w.WellFormed) {context : Context} {cap : CapRef} {place : Place}
    {g : Grant} (hl : w.locate context cap = some (place, g)) : w.Knows g := by
  -- in the hands or in the store: both hold worthy capabilities only
  cases cap with
  | own =>
    simp only [locate, Option.map_eq_some_iff, Option.filter_eq_some_iff, Prod.mk.injEq] at hl
    obtain ⟨g', ⟨-, howned⟩, -, rfl⟩ := hl
    exact h.owned g' (by simpa using howned)
  | named name =>
    simp only [locate, Option.map_eq_some_iff, Prod.mk.injEq] at hl
    obtain ⟨g', hget, -, rfl⟩ := hl
    exact h.store _ (Table.mem_of_get? hget)
  | nth n =>
    simp only [locate, Option.map_eq_some_iff, Prod.mk.injEq] at hl
    obtain ⟨entry, hget, -, rfl⟩ := hl
    exact h.store entry (List.mem_filter.1 (List.mem_of_getElem? hget)).1

theorem withCapability_ok (h : w.WellFormed) {context : Context} {cap : CapRef}
    {use : Place → Grant → Move} (huse : ∀ place g, w.Knows g → (use place g).Ok w out) :
    (w.withCapability context cap use).Ok w out := by
  unfold withCapability
  cases hl : w.locate context cap with
  | none => exact .reply h (.refl _ _)
  | some found => exact huse found.1 found.2 (knows_of_locate h hl)

theorem withLock_ok (h : w.WellFormed) {handle : Nat} {use : LockId → Move}
    (huse : ∀ lock, lock < w.locks.length → (use lock).Ok w out) :
    (w.withLock handle use).Ok w out := by
  unfold withLock
  cases hl : w.lockOf? handle with
  | none => exact .reply h (.refl _ _)
  | some lock => exact huse lock (h.lock_lt hl)

/-- Taking a capability from its place concerns no lock. -/
theorem takeFrom_ok (h : w.WellFormed) (g : Grant) (place : Place) (out : List Grant) :
    (w.takeFrom g place).WellFormed ∧ w.Leads out (w.takeFrom g place) out := by
  cases place with
  | owned => exact ⟨h.eraseOwned g, .of_eq rfl rfl⟩
  | kept name => exact ⟨h.removeStore name, .of_eq rfl rfl⟩

theorem park_ok (h : w.WellFormed) (context : Context) (name : Option String) :
    (w.park context name).Ok w out := by
  refine withCapability_ok h ?_
  intro place g hg
  obtain ⟨hwell, hleads⟩ := takeFrom_ok h g place out
  exact ((keep_ok hwell _ (hg.leads hleads)).after hleads).answering

theorem dropHandle_ok (h : w.WellFormed) (handle : Nat) : (w.dropHandle handle).Ok w out := by
  unfold dropHandle
  cases hl : w.lockOf? handle with
  | none => exact .reply h (.refl _ _)
  | some lock =>
    -- one handle less, and the others mean what they meant
    have hwell : ({ w with handles := w.handles.set handle none } : World).WellFormed :=
      { h with
        handles := by
          intro id hid
          rcases List.mem_or_eq_of_mem_set hid with hid | hid
          · exact h.handles id hid
          · cases hid }
    refine Move.Ok.reply hwell ?_
    exact .of_eq rfl rfl

theorem clone_ok (h : w.WellFormed) {lock : LockId} (hid : lock < w.locks.length) :
    ({ w with handles := w.handles ++ [some lock] }.reply (.index w.handles.length)).Ok w out := by
  -- the new handle means a lock that was there
  have hwell : ({ w with handles := w.handles ++ [some lock] } : World).WellFormed :=
    { h with
      handles := by
        intro id hmem
        rcases List.mem_append.1 hmem with hmem | hmem
        · exact h.handles id hmem
        · rw [List.mem_singleton, Option.some.injEq] at hmem
          exact hmem ▸ hid }
  refine Move.Ok.reply hwell ?_
  exact .of_eq rfl rfl

theorem startThread_ok (h : w.WellFormed) (context : Context) (body : Body) :
    (w.startThread context body).Ok w out :=
  ⟨h.mono rfl (List.suffix_refl _) rfl rfl rfl rfl rfl, .of_eq rfl rfl,
    by simp [startThread, Frame.Supported]⟩

theorem dropStored_ok (h : w.WellFormed) (name : String) : (w.dropStored name).Ok w out := by
  unfold dropStored
  cases hget : w.futures.get? name with
  | none => exact .reply h (.refl _ _)
  | some f =>
    have hf : w.Supports f := h.futures _ (Table.mem_of_get? hget)
    refine Move.Ok.answering ?_
    exact (dropFuture_ok (h.removeFuture name) name hf).after (.of_eq rfl rfl)

/-! ## The actions -/

/-- A move that puts frames on the stack and changes nothing. -/
theorem ok_of_frames (h : w.WellFormed) {frames : List Frame} (hf : ∀ f ∈ frames, f.Supported w) :
    Move.Ok { world := w, frames := frames } w out :=
  ⟨h, .refl _ _, hf⟩

/-- What an action begins is right. -/
theorem perform_ok (h : w.WellFormed) (context : Context) (a : Action) :
    (w.perform context a).Ok w out := by
  -- every action is looked up and then done, so the lock or the capability that it finds is worthy
  cases a with
  | submit handle mode tag entry ending quiet =>
    exact withLock_ok h fun lock hid => submit_ok h hid mode _
  | release cap => exact withCapability_ok h fun _ g hg => (release_ok h hg).answering
  | drop cap =>
    refine withCapability_ok h ?_
    intro place g hg
    obtain ⟨hwell, hleads⟩ := takeFrom_ok h g place out
    exact ((endGrant_ok hwell (hg.leads hleads)).after hleads).answering
  | «forget» cap =>
    refine withCapability_ok h ?_
    intro place g hg
    obtain ⟨hwell, hleads⟩ := takeFrom_ok h g place out
    have hleaked : ({ w.takeFrom g place with
        leaked := g :: (w.takeFrom g place).leaked } : World).WellFormed :=
      hwell.mono rfl (List.suffix_refl _) rfl rfl rfl rfl rfl
    exact .reply hleaked (hleads.trans (.of_eq rfl rfl))
  | park name => exact park_ok h context name
  | inspect cap => exact withCapability_ok h fun _ g _ => .reply h (.refl _ _)
  | look handle => exact withLock_ok h fun _ _ => .reply h (.refl _ _)
  | stats handle => exact withLock_ok h fun _ _ => .reply h (.refl _ _)
  | config handle => exact withLock_ok h fun _ _ => .reply h (.refl _ _)
  | same a b =>
    exact withLock_ok h fun _ _ => withLock_ok h fun _ _ => .reply h (.refl _ _)
  | clone handle => exact withLock_ok h fun _ hid => clone_ok h hid
  | dropHandle handle => exact dropHandle_ok h handle
  | log message => exact .reply (h.emit _) (.emit rfl)
  | count key =>
    have hwell : ({ w with counts := w.counts.put key (w.countOf key + 1) } : World).WellFormed :=
      h.mono rfl (List.suffix_refl _) rfl rfl rfl rfl rfl
    refine Move.Ok.reply hwell ?_
    exact .of_eq rfl rfl
  | «when» key below body quiet =>
    simp only [perform]
    split
    · exact ok_of_frames h (by simp [Frame.Supported])
    · exact .reply h (.refl _ _)
  | iterate times body quiet => exact ok_of_frames h (by simp [Frame.Supported])
  | guard body => exact ok_of_frames h (by simp [Frame.Supported])
  | thread body => exact startThread_ok h context body
  | panic fault => exact .of_world h (.refl _ _)
  | acquire handle mode name => exact withLock_ok h fun _ hid => acquire_ok h hid mode name
  | run handle mode name work output =>
    refine withLock_ok h ?_
    intro lock hid
    refine (storeFuture_ok h name ?_).answering
    simpa [Supports, Future.held, Future.lock?] using hid
  | poll name => exact poll_ok h name
  | dropFuture name => exact dropStored_ok h name
  | pause => exact .reply h (.refl _ _)
  | unknown word => exact .reply h (.refl _ _)

end FairLock.World
