import FairLock.Proofs.Abandonment
import FairLock.Proofs.Containment
import FairLock.Proofs.Machine.Carried

/-!
# What a transition does to a channel

A capability is sent through a channel when a loop starts the entry that has the sending end, and a
channel is abandoned when that entry is dropped.  Whoever waits at the other end is woken by that
and by nothing else.  All other transitions are discreet: they leave a channel as it is, close it at
the receiving end, or are a call of the future that has the receiver.

## Main definitions

- `World.Discreet`: nobody is woken, and no granted entry is dropped.
- `World.Aside`: what is done neither to futures nor to a channel.
- `World.Idles`: what becomes of a channel through which nothing is sent.
- `World.Hands`: an entry hands something over, if somebody waits for it.
- `Machine.Posts`: what a transition does to a channel.

## Main statements

- `World.hands_start`, `World.hands_discard`: an entry that is started, and one that is dropped.
- `Machine.Reachable.posts`: nothing else happens to a channel.
-/

namespace FairLock

/-- Does the event neither wake a future nor tell that a granted entry was dropped? -/
def Event.isDiscreet : Event → Bool
  | .woken _ => false
  | .discarded (some _) _ => false
  | _ => true

namespace World

variable {w v u : World} {g : Grant} {c : ChannelId} {may : Call → Prop} {m : Move}

/-! ## Discreet changes -/

/-- The futures that were woken, the latest first. -/
def woken (w : World) : List String := w.history.filterMap Event.woken?

/-- What happens wakes nobody, and drops no entry that was granted. -/
def Discreet (w v : World) : Prop :=
  ∃ new, v.history = new ++ w.history ∧ ∀ e ∈ new, e.isDiscreet = true

namespace Discreet

theorem of_eq (h : v.history = w.history) : w.Discreet v := ⟨[], h, by simp⟩

theorem trans (h : w.Discreet v) (h' : v.Discreet u) : w.Discreet u := by
  obtain ⟨new, hnew, hdiscreet⟩ := h
  obtain ⟨more, hmore, hdiscreet'⟩ := h'
  refine ⟨more ++ new, by rw [hmore, hnew, List.append_assoc], ?_⟩
  intro e he
  exact (List.mem_append.1 he).elim (hdiscreet' e) (hdiscreet e)

theorem of_event {e : Event} (h : v.history = e :: w.history) (he : e.isDiscreet = true) :
    w.Discreet v :=
  ⟨[e], h, List.forall_mem_singleton.2 he⟩

theorem woken (h : w.Discreet v) : v.woken = w.woken := by
  obtain ⟨new, hnew, hdiscreet⟩ := h
  have hnone : new.filterMap Event.woken? = [] := by
    rw [List.filterMap_eq_nil_iff]
    intro e he
    have hquiet := hdiscreet e he
    cases e <;> first | rfl | cases hquiet
  rw [World.woken, hnew, List.filterMap_append, hnone]
  rfl

theorem handedBack (h : w.Discreet v) (id : LockId) :
    (v.journal id).handedBack = (w.journal id).handedBack := by
  obtain ⟨new, hnew, hdiscreet⟩ := h
  -- only the drop of an entry that was granted tells of a grant that is handed back
  have hnone : occurrences Event.handedBack? (new.filter fun e => e.lock? == some id) = [] := by
    rw [occurrences, List.reverse_eq_nil_iff, List.filterMap_eq_nil_iff]
    intro e he
    have hquiet := hdiscreet e (List.mem_filter.1 he).1
    cases e with
    | discarded grant tag =>
      cases grant with
      | none => rfl
      | some g => cases hquiet
    | _ => rfl
  rw [Journal.handedBack, World.journal, hnew, List.filter_append, occurrences_append, hnone,
    List.append_nil]
  rfl

end Discreet

theorem Apart.discreet (h : w.Apart v) : w.Discreet v := by
  obtain ⟨new, hnew, hsilent⟩ := h.history
  refine ⟨new, hnew, fun e he => ?_⟩
  obtain ⟨hlock, hwoken⟩ := hsilent e he
  cases e with
  | woken future => cases hwoken
  | discarded grant tag =>
    cases grant with
    | none => rfl
    | some g => cases hlock
  | _ => rfl

/-! ## Channels -/

theorem channel_setChannel_self {new : Channel} (h : c < w.channels.length) :
    (w.setChannel c new).channel c = new := by
  simp [channel, setChannel, List.getD_eq_getElem?_getD, List.getElem?_set_self h]

theorem channel_setChannel_of_ne {other : ChannelId} {new : Channel} (h : other ≠ c) :
    (w.setChannel other new).channel c = w.channel c := by
  simp [channel, setChannel, List.getD_eq_getElem?_getD, List.getElem?_set_ne h]

/-- A channel that was never made is gone, so this needs no bound. -/
theorem channel_setChannel_gone (w : World) (c : ChannelId) :
    (w.setChannel c .gone).channel c = .gone := by
  by_cases h : c < w.channels.length
  · exact channel_setChannel_self h
  · simp [channel, setChannel, List.getD_eq_getElem?_getD, List.set_eq_of_length_le (Nat.le_of_not_lt h),
      List.getElem?_eq_none (Nat.le_of_not_lt h)]

theorem channel_newChannel (h : c ≠ w.channels.length) :
    w.newChannel.1.channel c = w.channel c := by
  rcases Nat.lt_or_gt_of_ne h with h | h
  · simp [channel, newChannel, List.getD_eq_getElem?_getD, List.getElem?_append_left h]
  · -- it is not there, before and after
    have hlength : w.newChannel.1.channels.length ≤ c := by
      simpa [newChannel] using Nat.succ_le_of_lt h
    rw [channel, channel, List.getD_eq_getElem?_getD, List.getD_eq_getElem?_getD,
      List.getElem?_eq_none hlength, List.getElem?_eq_none (Nat.le_of_lt h)]

theorem channel_newChannel_self (w : World) :
    w.newChannel.1.channel w.newChannel.2 = .open none := by
  simp [channel, newChannel]

/-! ## What is done aside -/

/-- Neither the futures nor a channel are touched. -/
structure Aside (c : ChannelId) (w v : World) : Prop where
  futures : v.futures = w.futures
  channel : v.channel c = w.channel c
  discreet : w.Discreet v

namespace Aside

theorem of_eq (hfutures : v.futures = w.futures) (hchannels : v.channels = w.channels)
    (hhistory : v.history = w.history) : w.Aside c v :=
  ⟨hfutures, by rw [World.channel, hchannels]; rfl, .of_eq hhistory⟩

theorem refl (c : ChannelId) (w : World) : w.Aside c w := of_eq rfl rfl rfl

theorem trans (h : w.Aside c v) (h' : v.Aside c u) : w.Aside c u :=
  ⟨h'.futures.trans h.futures, h'.channel.trans h.channel, h.discreet.trans h'.discreet⟩

theorem notify (w : World) (n : Notice) : w.Aside c (w.notify n) :=
  ⟨rfl, rfl, .of_event rfl rfl⟩

end Aside

theorem aside_setLock (w : World) (id : LockId) (l : Lock Entry) : w.Aside c (w.setLock id l) :=
  .of_eq rfl rfl rfl

/-- Another channel may be worked on. -/
theorem aside_setChannel {other : ChannelId} (h : other ≠ c) (new : Channel) :
    w.Aside c (w.setChannel other new) :=
  ⟨rfl, channel_setChannel_of_ne h, .of_eq rfl⟩

theorem discreet_drainEvents {id : LockId} {batch : List (Request Entry)} {pending : Nat}
    {parent : Option Grant} {entered : List Grant} :
    ∀ e ∈ drainEvents id batch pending parent entered, e.isDiscreet = true := by
  cases batch with
  | nil => simp [drainEvents]
  | cons front rest =>
    intro e he
    simp only [drainEvents, List.mem_append, List.mem_reverse, List.mem_map,
      List.mem_singleton] at he
    rcases he with ⟨r, -, rfl⟩ | rfl <;> rfl

theorem aside_endGrant (w : World) (g : Grant) : w.Aside c (w.endGrant g).world := by
  unfold endGrant
  split
  · rename_i hunended
    cases hrelease : (w.lock g.lock).release g.id g.mode with
    | mk l batch =>
      obtain ⟨hworld, -⟩ := endUnended_eq (lock_lt_of_isUnended hunended) hrelease
      rw [hworld]
      -- a grant that ends leaves the channels alone, and nothing in its report hands back
      refine ⟨rfl, rfl, drainEvents g.lock batch l.pending (currentSpan w.entered) w.entered ++
        [.notice (.released g l.state l.pending) w.entered,
          .notice ((w.lock g.lock).holdNotice g) (g :: w.entered)], by simp, ?_⟩
      intro e he
      rcases List.mem_append.1 he with he | he
      · exact discreet_drainEvents e he
      · simp only [List.mem_cons, List.not_mem_nil, or_false] at he
        rcases he with rfl | rfl <;> rfl
  · exact .refl c w

theorem aside_release (w : World) (g : Grant) : w.Aside c (w.release g).1.world := by
  cases hunended : w.isUnended g with
  | true =>
    have hends := w.aside_endGrant (c := c) g
    rw [endGrant, if_pos hunended] at hends
    simpa [release, hunended] using hends
  -- a release that comes too late tells of that and of nothing else
  | false =>
    have hrefused : (w.release g).1.world =
        (w.setLock g.lock (w.lock g.lock).countRedundant).notify (.redundant g) := by
      simp [release, hunended]
    rw [hrefused]
    exact (aside_setLock w _ _).trans (.notify _ _)

theorem aside_reportFailure (w : World) (g : Grant) (failure : Failure) :
    w.Aside c (w.reportFailure g failure).world := by
  refine (aside_setLock w g.lock (w.lock g.lock).countFailure).trans ?_
  unfold reportFailure
  dsimp only [reply]
  split
  · exact .notify _ _
  · exact .refl c _

theorem aside_begun (w : World) (g : Grant) (shown : Option (String × Option State)) :
    w.Aside c (w.begun g shown) :=
  ⟨rfl, rfl, .of_event rfl rfl⟩

/-- The entry is a task, or the sending end of another channel at which nobody has waited so far. -/
def Unheeded (w : World) (c : ChannelId) (entry : Entry) : Prop :=
  ∀ other, entry = .sender other → other ≠ c ∧ w.channel other = .open none

theorem aside_start (lock : LockId) {r : Request Entry} (hentry : w.Unheeded c r.payload) :
    w.Aside c (w.start lock r).world := by
  have hstarts := w.starts_start lock r
  generalize w.start lock r = m at hstarts
  -- whoever is started is a task or a sender, and a sender finds its channel open or not
  cases hstarts with
  | task h shown body => exact (aside_begun w _ shown).trans (.of_eq rfl rfl rfl)
  | sent h hc =>
    obtain ⟨hne, hopen⟩ := hentry _ h
    rw [hopen] at hc
    cases hc
    exact (aside_begun w _ none).trans (aside_setChannel hne _)
  -- somebody listens on the channels of the entry, so this case does not arise
  | unheard h hc => exact absurd (hentry _ h).2 (hc none)

theorem aside_discard_none {entry : Entry} (hentry : w.Unheeded c entry) :
    w.Aside c (w.discard none entry) := by
  cases entry with
  | task t => exact ⟨rfl, rfl, .of_event rfl rfl⟩
  | sender other =>
    obtain ⟨hne, hopen⟩ := hentry other rfl
    have hopen' : (w.emit (.discarded none none)).channel other = .open none := hopen
    have hdropped : w.Aside c (w.emit (.discarded none none)) := ⟨rfl, rfl, .of_event rfl rfl⟩
    simp only [discard, hopen', wake]
    exact hdropped.trans (aside_setChannel hne _)

theorem aside_submit {lock : LockId} (hid : lock < w.locks.length) (mode : Mode) {entry : Entry}
    (hentry : w.Unheeded c entry) : w.Aside c (w.submit lock mode entry).world := by
  cases hsubmit : (w.lock lock).submit mode entry with
  | mk l submission =>
    cases submission with
    | granted r =>
      have hr : r.payload = entry := by
        obtain ⟨-, -, rfl, -⟩ := Lock.submit_granted hsubmit
        rfl
      -- the request is counted and issued first, and then its entry point is started
      rw [submit_of_granted hid hsubmit, Move.world_before]
      generalize hv : ({ w with
        locks := w.locks.set lock (l.dispatchOn w.thread)
        history :=
          .issued (r.grant lock) (currentSpan w.entered) ::
            .notice (.grantedImmediately (r.grant lock) l.state) w.entered :: w.history } :
        World) = v
      have hissued : w.Aside c v := by
        subst hv
        exact ⟨rfl, rfl, [_, _], rfl, by simp [Event.isDiscreet]⟩
      have hentry' : v.Unheeded c r.payload := by
        subst hv
        rw [hr]
        exact hentry
      exact hissued.trans (aside_start lock hentry')
    | queued n pending =>
      rw [submit_of_queued hsubmit]
      exact (aside_setLock w lock l).trans (.notify _ _)
    | rejected refused limit =>
      rw [submit_of_rejected hsubmit]
      generalize hv : (w.setLock lock { w.lock lock with
        stats := (w.lock lock).stats.countRejected }).notify (.rejected lock mode limit) = v
      have hnotified : w.Aside c v := hv ▸ (aside_setLock w lock _).trans (.notify _ _)
      have hentry' : v.Unheeded c entry := by
        subst hv
        exact hentry
      exact hnotified.trans (aside_discard_none hentry')

/-! ## Moves that send nothing -/

/-- What becomes of a channel through which nothing is sent, if the calls that are made are among
    the given ones. -/
inductive Idles (may : Call → Prop) (c : ChannelId) (w v : World) : Prop where
  | same (h : v.channel c = w.channel c)
  /-- Its receiver goes, and a capability that was not received goes with it. -/
  | closed (h : v.channel c = .gone)
      (hsent : ∀ g, w.channel c = .sent g → w.isUnended g = true →
        g ∈ (v.journal g.lock).ended)
  /-- The future that has the receiver makes a call. -/
  | polled {future : String} (hmay : may (.poll c future))
  | failed (hmay : may (.fail c))

/-- What is done with a lock is discreet. -/
theorem Deed.idles (h : Deed may w m) (hc : c ≠ w.channels.length) :
    w.Discreet m.world ∧ w.Idles may c m.world := by
  have haside : ∀ {v : World}, w.Aside c v → w.Discreet v ∧ w.Idles may c v :=
    fun hv => ⟨hv.discreet, .same hv.channel⟩
  cases h with
  | done control => exact haside (.refl c w)
  | @ended g h =>
    have hends := w.aside_endGrant (c := c) g
    rw [endGrant, if_pos h] at hends
    exact haside hends
  | @dropped other g h =>
    have hends := (w.setChannel other .gone).aside_endGrant (c := c) g
    by_cases hother : other = c
    · subst hother
      have hclosed : w.Discreet (w.setChannel other .gone) := .of_eq rfl
      -- the capability in the channel is the one whose grant is ended
      refine ⟨hclosed.trans hends.discreet, .closed ?_ ?_⟩
      · rw [hends.channel]
        exact w.channel_setChannel_gone other
      · intro g' hg' hunended
        rw [h] at hg'
        cases hg'
        refine mem_ended_endGrant (lock_lt_of_isUnended hunended) fun hended => ?_
        exact absurd (hended.symm.trans hunended) Bool.false_ne_true
    · exact haside ((aside_setChannel hother _).trans hends)
  | refused hmay hid h => exact haside (w.aside_release _)
  | submitted hid mode task => exact haside (aside_submit hid mode fun _ hsender => by cases hsender)
  | requested hid mode =>
    have hnew : w.Aside c w.newChannel.1 := ⟨rfl, channel_newChannel hc, .of_eq rfl⟩
    refine haside (hnew.trans (aside_submit (w := w.newChannel.1) hid mode ?_))
    intro other hother
    cases hother
    exact ⟨Ne.symm hc, w.channel_newChannel_self⟩
  | reported hid failure => exact haside (w.aside_reportFailure _ failure)
  | threaded context body => exact haside (.of_eq rfl rfl rfl)

/-- So is what happens at receiving ends, and no capability goes with a receiver there. -/
theorem idles_of_receives (h : Relation.ReflTransGen (Receives may) w v) :
    v.channel c = w.channel c ∨ (v.channel c = .gone ∧ ∀ g, w.channel c ≠ .sent g) ∨
      (∃ future, may (.poll c future)) ∨ may (.fail c) := by
  induction h with
  | refl => exact .inl rfl
  | @tail v u _ hr ih =>
    have hkept : u.channel c = v.channel c → u.channel c = w.channel c ∨
        (u.channel c = .gone ∧ ∀ g, w.channel c ≠ .sent g) ∨
          (∃ future, may (.poll c future)) ∨ may (.fail c) := fun heq => by rwa [heq]
    cases hr with
    | apart h hchannels =>
      refine hkept ?_
      rw [World.channel, hchannels]
      rfl
    | @polled other future waker hmay h =>
      by_cases hother : other = c
      · exact .inr (.inr (.inl ⟨future, hother ▸ hmay⟩))
      · exact hkept (channel_setChannel_of_ne hother)
    | @received other future hmay h =>
      by_cases hother : other = c
      · exact .inr (.inr (.inl ⟨future, hother ▸ hmay⟩))
      · exact hkept (channel_setChannel_of_ne hother)
    | @closed other h =>
      by_cases hother : other = c
      · subst hother
        rcases h with hunsent | hmay
        · -- a capability that was in the channel at first would still be there
          rcases ih with heq | ⟨hgone, hnone⟩ | hcalled
          · exact .inr (.inl ⟨v.channel_setChannel_gone other, fun g hg => hunsent g (heq.trans hg)⟩)
          · exact .inr (.inl ⟨v.channel_setChannel_gone other, hnone⟩)
          · exact .inr (.inr hcalled)
        · exact .inr (.inr (.inr hmay))
      · exact hkept (channel_setChannel_of_ne hother)

theorem Deals.idles (h : w.Deals may m) (hc : c ≠ w.channels.length) :
    w.Discreet m.world ∧ w.Idles may c m.world := by
  obtain ⟨hbefore, hdeed, below, -⟩ := h
  have hapart := apart_of_receives hbefore
  have hlength := length_channels_of_receives hbefore
  obtain ⟨hdiscreet, hidles⟩ := hdeed.idles (hlength ▸ hc)
  refine ⟨hapart.discreet.trans hdiscreet, ?_⟩
  -- what becomes of the channel at the receiving ends comes before what the deed does to it
  rcases idles_of_receives (c := c) hbefore with heq | ⟨hgone, hnone⟩ | ⟨future, hmay⟩ | hmay
  · cases hidles with
    | same h => exact .same (h.trans heq)
    | closed h hsent =>
      refine .closed h fun g hg hunended => hsent g (heq.trans hg) ?_
      rwa [hapart.isUnended]
    | polled hmay => exact .polled hmay
    | failed hmay => exact .failed hmay
  · cases hidles with
    | same h => exact .closed (h.trans hgone) fun g hg => absurd hg (hnone g)
    | closed h hsent => exact .closed h fun g hg => absurd hg (hnone g)
    | polled hmay => exact .polled hmay
    | failed hmay => exact .failed hmay
  · exact .polled hmay
  · exact .failed hmay

theorem Deals.discreet (h : w.Deals may m) : w.Discreet m.world :=
  (h.idles (Nat.succ_ne_self w.channels.length)).1

/-! ## Handing over -/

/-- An entry hands something over.  It goes into the channel of the sender, if somebody may still
    wait at the other end, and whoever does is woken; otherwise the channels stay as they are. -/
inductive Hands (w : World) (entry : Entry) (new : Channel) (v : World) : Option String → Prop where
  | heard {c : ChannelId} {waker : Option String} (hentry : entry = .sender c)
      (hopen : w.channel c = .open waker) (hchannels : v.channels = w.channels.set c new) :
      Hands w entry new v waker
  | unheard (hno : ∀ c waker, entry = .sender c → w.channel c ≠ .open waker)
      (hchannels : v.channels = w.channels) : Hands w entry new v none

/-- What is found in the channel of the sender. -/
theorem Hands.own {new : Channel} {waker : Option String} (h : w.Hands (.sender c) new v waker)
    (hc : c < w.channels.length) :
    (w.channel c = .open waker ∧ v.channel c = new) ∨
      (waker = none ∧ (∀ waker, w.channel c ≠ .open waker) ∧ v.channel c = w.channel c) := by
  cases h with
  -- the channel was open and is used, or the entry is not what would use it
  | heard hentry hopen hchannels =>
    cases hentry
    refine .inl ⟨hopen, ?_⟩
    rw [channel, hchannels]
    exact channel_setChannel_self hc
  | unheard hno hchannels =>
    refine .inr ⟨rfl, fun waker => hno c waker rfl, ?_⟩
    rw [channel, hchannels]
    rfl

/-- No other channel changes, and who is woken waits at that of the sender. -/
theorem Hands.other {entry : Entry} {new : Channel} {waker : Option String}
    (h : w.Hands entry new v waker) (hne : entry ≠ .sender c) :
    v.channel c = w.channel c ∧
      ∀ future, waker = some future → ∃ c', c' ≠ c ∧ w.channel c' = .open (some future) := by
  cases h with
  | @heard c' waker hentry hopen hchannels =>
    -- the sender is another one, and has a channel of its own
    have hother : c' ≠ c := by
      rintro rfl
      exact hne hentry
    constructor
    · rw [channel, hchannels]
      exact channel_setChannel_of_ne hother
    · rintro future rfl
      exact ⟨c', hother, hopen⟩
  | unheard hno hchannels =>
    constructor
    · rw [channel, hchannels]
      rfl
    · rintro future ⟨⟩

theorem woken_wake (w : World) (waker : Option String) :
    (w.wake waker).woken = waker.toList ++ w.woken := by
  cases waker <;> rfl

theorem handedBack_wake (w : World) (waker : Option String) (id : LockId) :
    ((w.wake waker).journal id).handedBack = (w.journal id).handedBack := by
  cases waker with
  | none => rfl
  | some future => exact congrArg Journal.handedBack (w.views_sent 0 .gone (some future) id).2

theorem channels_endGrant (w : World) (g : Grant) : (w.endGrant g).world.channels = w.channels := by
  unfold endGrant
  split
  · rename_i hunended
    cases hrelease : (w.lock g.lock).release g.id g.mode with
    | mk l batch =>
      obtain ⟨hworld, -⟩ := endUnended_eq (lock_lt_of_isUnended hunended) hrelease
      rw [hworld]
  · rfl

/-- An entry that is started hands over the capability. -/
theorem hands_start (w : World) (lock : LockId) (r : Request Entry) :
    ∃ waker, w.Hands r.payload (.sent (r.grant lock)) (w.start lock r).world waker ∧
      (w.start lock r).world.woken = waker.toList ++ w.woken ∧
      ∀ id, ((w.start lock r).world.journal id).handedBack = (w.journal id).handedBack := by
  have hstarts := w.starts_start lock r
  generalize w.start lock r = m at hstarts
  cases hstarts with
  | task h shown body =>
    have hbegun : w.Discreet (w.begun (r.grant lock) shown) := .of_event rfl rfl
    refine ⟨none, .unheard ?_ rfl, hbegun.woken, hbegun.handedBack⟩
    -- a task is no sender
    intro c waker hsender
    rw [h] at hsender
    cases hsender
  -- the capability goes into the channel, and whoever waits there is woken
  | @sent c waker h hc =>
    have hbegun : w.Discreet (w.begun (r.grant lock) none) := .of_event rfl rfl
    have hset : (w.begun (r.grant lock) none).Discreet
        ((w.begun (r.grant lock) none).setChannel c (.sent (r.grant lock))) := .of_eq rfl
    have hsent := hbegun.trans hset
    refine ⟨waker, .heard h hc ?_, ?_, fun id => ?_⟩
    · cases waker <;> rfl
    · rw [woken_wake, hsent.woken]
    · rw [handedBack_wake, hsent.handedBack]
  | unheard h hc =>
    -- nobody listens, so the grant ends on the spot and no channel is written to
    have hended := (aside_begun (c := 0) w (r.grant lock) none).trans
      (aside_endGrant _ (r.grant lock))
    refine ⟨none, .unheard ?_ (channels_endGrant _ _), hended.discreet.woken,
      hended.discreet.handedBack⟩
    intro c waker hsender
    rw [h] at hsender
    cases hsender
    exact hc waker

/-- Who has been started then. -/
theorem started_start (w : World) (lock : LockId) (r : Request Entry) (g : Grant) :
    g ∈ ((w.start lock r).world.journal g.lock).started ↔
      g ∈ (w.journal g.lock).started ∨ g = r.grant lock := by
  obtain ⟨shown, hends, hothers, -⟩ := w.views_start lock r
  -- on its own lock it is started once, and on the others nothing is recorded
  by_cases hlock : g.lock = lock
  · obtain ⟨new, hnew, -, -, -, hstarted, -⟩ := hends.exists_new
    rw [hlock, hnew]
    simp [Journal.started, show occurrences Event.started? new = [] from hstarted]
  · rw [(hothers _ hlock).2]
    refine (or_iff_left ?_).symm
    rintro rfl
    exact hlock rfl

/-- The end of a grant starts nothing. -/
theorem started_endGrant (w : World) (g : Grant) (id : LockId) :
    ((w.endGrant g).world.journal id).started = (w.journal id).started := by
  obtain ⟨new, hnew, -, -, -, hstarted, -⟩ := (w.ends_endGrant g id).exists_new
  rw [hnew, Journal.started, occurrences_append, show occurrences Event.started? new = [] from hstarted,
    List.append_nil]

/-- An entry that is dropped lets the future know that nothing will come. -/
theorem hands_discard (w : World) (grant : Option Grant) (entry : Entry) :
    ∃ waker, w.Hands entry .abandoned (w.discard grant entry) waker ∧
      (w.discard grant entry).woken = waker.toList ++ w.woken := by
  cases entry with
  | task t => exact ⟨none, .unheard nofun rfl, rfl⟩
  | sender c =>
    unfold discard
    -- a channel on which nothing was sent tells its receiver; otherwise there is nobody to tell
    cases hc : (w.emit (.discarded grant none)).channel c with
    | «open» waker =>
      simp only [hc]
      refine ⟨waker, .heard rfl hc ?_, ?_⟩
      · cases waker <;> rfl
      · rw [woken_wake]
        rfl
    | _ =>
      simp only [hc]
      refine ⟨none, .unheard ?_ rfl, rfl⟩
      intro c' waker hsender hopen
      cases hsender
      have hopen' : (w.emit (.discarded grant none)).channel c = .open waker := hopen
      rw [hc] at hopen'
      cases hopen'

end World

namespace Machine

variable {m m' : Machine} {g : Grant} {c : ChannelId}

/-- What a transition does to a channel. -/
inductive Posts (c : ChannelId) (m m' : Machine) : Prop where
  /-- Nothing is sent, and what is started has just been accepted. -/
  | idles (hdiscreet : m.world.Discreet m'.world)
      (hidles : m.world.Idles (m.Calls m') c m'.world)
      (hstarted : ∀ g, g ∈ (m.world.journal g.lock).accepted →
        g ∈ (m'.world.journal g.lock).started → g ∈ (m.world.journal g.lock).started)
  /-- An entry is started.  If nobody waits for what it sends, the grant ends at once. -/
  | begins {g : Grant} {entry : Entry} {waker : Option String} (hcarries : m.Carries g entry)
      (hands : m.world.Hands entry (.sent g) m'.world waker)
      (hwoken : m'.world.woken = waker.toList ++ m.world.woken)
      (hhandedBack : ∀ id, (m'.world.journal id).handedBack = (m.world.journal id).handedBack)
      (hstarted : ∀ g', g' ∈ (m'.world.journal g'.lock).started ↔
        g' ∈ (m.world.journal g'.lock).started ∨ g' = g)
      (hends : ∀ c, entry = .sender c → (∀ waker, m.world.channel c ≠ .open waker) →
        g ∈ (m'.world.journal g.lock).ended ∧ ∃ rest, m'.frames = .invocation g :: rest)
  /-- A granted entry is dropped. -/
  | drops {g : Grant} {entry : Entry} {waker : Option String} (hcarries : m.Carries g entry)
      (hands : m.world.Hands entry .abandoned m'.world waker)
      (hwoken : m'.world.woken = waker.toList ++ m.world.woken)
      (hhandedBack : ∀ g', g' ∈ (m'.world.journal g'.lock).handedBack ↔
        g' ∈ (m.world.journal g'.lock).handedBack ∨ g' = g)
      (hstarted : ∀ id, (m'.world.journal id).started = (m.world.journal id).started)

/-- What is started in one go with its submission was not accepted before. -/
theorem Reachable.started_of_turns {may : Call → Prop} (hm' : m'.Reachable)
    (h : m.world.Turns may none m'.world g.lock)
    (haccepted : g ∈ (m.world.journal g.lock).accepted)
    (hstarted : g ∈ (m'.world.journal g.lock).started) :
    g ∈ (m.world.journal g.lock).started := by
  obtain ⟨new, hnew, hstarts⟩ := h.exists_new
  rw [hnew, Journal.started, FairLock.occurrences_append, List.mem_append] at hstarted
  refine hstarted.resolve_right fun hstart => ?_
  obtain ⟨e, he, hpick⟩ := FairLock.mem_occurrences.1 hstart
  cases e with
  | started g' thread shown =>
    cases hpick
    obtain ⟨-, himmediate | ⟨hloop, -⟩⟩ := hstarts g thread shown he
    · -- nothing is accepted twice
      have hnodup := (hm'.balanced g.lock).accepted_nodup
      rw [hnew, Journal.accepted, FairLock.occurrences_append] at hnodup
      have hagain : g ∈ new.accepted :=
        (Journal.accepted_perm new).mem_iff.2 (List.mem_append_left _ himmediate)
      exact (List.nodup_append.1 hnodup).2.2 g haccepted g hagain rfl
    · cases hloop
  | _ => cases hpick

/-- What a loop takes off its run list has not ended, and the loop goes on below it. -/
theorem Reachable.taken_unended {w : World} {lock : LockId} {outcome : Option Reply}
    {below : List Frame} {control : Control} {r : Request Entry} {l : Lock Entry}
    (h : Reachable ⟨w, .dispatching lock outcome :: below, control⟩) (hid : lock < w.locks.length)
    (hnext : (w.lock lock).next w.thread = some (r, l)) (shown : Option (String × Option State)) :
    ((w.setLock lock l).begun (r.grant lock) shown).isUnended (r.grant lock) = true ∧
      (((w.setLock lock l).begun (r.grant lock) shown).lock lock).isDispatching w.thread = true := by
  have hlock : ((w.setLock lock l).begun (r.grant lock) shown).lock lock = l :=
    World.lock_setLock_self hid l
  constructor
  · -- what lies on a run list is issued and held
    obtain ⟨out, -, hsound⟩ := h.sound lock
    obtain ⟨before, deferred, after, -, hruns, hl⟩ := Lock.next_cases hnext
    have hdeferred : r.grant lock ∈ (w.ledger out lock).deferred lock := by
      refine List.mem_map.2 ⟨r, ?_, rfl⟩
      show r ∈ deferredIn (w.lock lock).runLists
      simp [hruns]
    have hheld : (w.lock lock).isUnended r.id = true :=
      (hsound.balanced.isUnended_iff (hsound.issued_of_deferred hdeferred)).2
        (hsound.held_of_deferred hdeferred)
    rw [World.isUnended, Request.grant_lock, hlock, hl]
    exact hheld
  · have hlooped := h.looped.taken outcome hid hnext
    exact (hlooped.lists lock w.thread).2 (List.mem_cons_self ..)

/-- If nobody waits for what a request that is taken off its run list sends, its grant ends in the
    same step. -/
theorem Reachable.ended_of_unheard {w : World} {lock : LockId} {outcome : Option Reply}
    {below : List Frame} {control : Control} {r : Request Entry} {l : Lock Entry}
    (h : Reachable ⟨w, .dispatching lock outcome :: below, control⟩) (hid : lock < w.locks.length)
    (hnext : (w.lock lock).next w.thread = some (r, l)) (hentry : r.payload = .sender c)
    (hclosed : ∀ waker, w.channel c ≠ .open waker) :
    r.grant lock ∈ (((w.setLock lock l).start lock r).world.journal lock).ended ∧
      ((w.setLock lock l).start lock r).frames = [.invocation (r.grant lock)] := by
  have hstarts := (w.setLock lock l).starts_start lock r
  generalize (w.setLock lock l).start lock r = move at hstarts
  cases hstarts with
  | task hpayload shown body =>
    rw [hentry] at hpayload
    cases hpayload
  | @sent c' waker hpayload hopen =>
    rw [hentry] at hpayload
    cases hpayload
    exact absurd hopen (hclosed waker)
  | unheard hpayload hno =>
    obtain ⟨hunended, hloop⟩ := h.taken_unended hid hnext none
    have hinPlace := World.endGrant_inPlace (g := r.grant lock) hloop
      (World.lock_lt_of_isUnended hunended)
    -- nobody waits, so the start ends the grant, which its lock still remembered
    refine ⟨World.mem_ended_endGrant (World.lock_lt_of_isUnended hunended) fun hended => ?_, ?_⟩
    · exact absurd (hended.symm.trans hunended) Bool.false_ne_true
    · rw [Move.frames_before, hinPlace]
      rfl

/-- Nothing else happens to a channel that has been made. -/
theorem Reachable.posts (h : m.Reachable) (hn : Next m m') (hc : c < m.world.channels.length) :
    m.Posts c m' := by
  have hm' := h.reaches (.single hn)
  have hquiet : m.world.Aside c m'.world →
      (∀ id, (m'.world.journal id).started = (m.world.journal id).started) → m.Posts c m' := by
    intro haside hstarted
    refine .idles haside.discreet (.same haside.channel) fun g _ hg => ?_
    rwa [hstarted] at hg
  have hacts := h.acts hn
  -- only a loop that takes a request sends a capability, and only a drop gives one up
  cases hacts with
  | rests => exact hquiet (.refl c _) fun _ => rfl
  | moves htop hdeals =>
    obtain ⟨hdiscreet, hidles⟩ := hdeals.idles (Nat.ne_of_lt hc)
    refine .idles hdiscreet hidles fun g haccepted hstarted => ?_
    exact hm'.started_of_turns (hdeals.turns none g.lock) haccepted hstarted
  | @takes w lock outcome below reply r l hid hnext =>
    obtain ⟨waker, hands, hwoken, hhandedBack⟩ := (w.setLock lock l).hands_start lock r
    have hcarries : Carries ⟨w, .dispatching lock outcome :: below, .returned reply⟩
        (r.grant lock) r.payload := .requested (Lock.requests_next hnext).1
    refine .begins hcarries ?_ hwoken hhandedBack ((w.setLock lock l).started_start lock r) ?_
    · cases hands with
      | heard hentry hopen hchannels => exact .heard hentry hopen hchannels
      | unheard hno hchannels => exact .unheard hno hchannels
    · intro c hentry hclosed
      obtain ⟨hended, hframes⟩ := h.ended_of_unheard hid hnext hentry hclosed
      refine ⟨hended, ?_⟩
      rw [ofMove, hframes]
      exact ⟨_, rfl⟩
  | @closes w lock outcome below reply hid hnext =>
    exact hquiet (World.aside_setLock w lock _) fun _ => rfl
  | @unwinds w lock outcome below fault hid =>
    exact hquiet (World.aside_setLock w lock _) fun _ => rfl
  | @handsBack w lock r items below reply hid =>
    exact hquiet (w.aside_endGrant _) (w.started_endGrant _)
  | @discards w g entry below reply hid =>
    obtain ⟨waker, hands, hwoken⟩ := w.hands_discard (some g) entry
    have hcarries : Carries ⟨w, .discarding g entry :: below, .returned reply⟩ g entry :=
      .held (List.mem_cons_self ..)
    obtain ⟨tag, hown, hothers⟩ := w.journal_discard g entry
    -- the drop is recorded in the journal of the lock of the grant, and in no other
    refine .drops hcarries hands hwoken (fun g' => ?_) fun id => ?_
    · by_cases hlock : g'.lock = g.lock
      · rw [hlock]
        show g' ∈ ((w.discard (some g) entry).journal g.lock).handedBack ↔ _
        rw [hown]
        simp
      · show g' ∈ ((w.discard (some g) entry).journal g'.lock).handedBack ↔ _
        rw [hothers _ hlock]
        refine (or_iff_left ?_).symm
        rintro rfl
        exact hlock rfl
    · show ((w.discard (some g) entry).journal id).started = _
      by_cases hlock : id = g.lock
      · subst hlock
        rw [hown]
        simp
      · rw [hothers _ hlock]
  | leaves hf hout => exact hquiet (.refl c _) fun _ => rfl
  | joins reply => exact hquiet (.of_eq rfl rfl rfl) fun _ => rfl

end Machine

end FairLock
