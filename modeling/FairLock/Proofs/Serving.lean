import FairLock.Proofs.Machine.Polls
import FairLock.Proofs.Machine.Returns

/-!
# How a future is served

A future for access and its request are tied together by a channel.  The sender is the entry of the
request, so whatever is found at the receiving end says what became of the grant: nothing as long as
the entry point was neither started nor dropped, the capability once it was started, and the news
of its drop once it was dropped.  A poll takes out what it finds there; when the future is dropped
instead, the capability goes with the receiver, or is not sent at all.

The invariant of one future says what is in its channel, given the answers to its polls so far.
Polls change the answers, and all other transitions are told apart by what they do to the channel.

## Main definitions

- `Machine.Linked`: the sender of a channel is the entry of one request.
- `World.dueAnswer`: what a poll has to answer.
- `World.Stands`: what is in the channel.
- `Machine.Awaits`, `Machine.Serves`: the invariant of a future.

## Main statements

- `Machine.Linked.stands`, `Serves.next`, `Serves.polled`: what a transition preserves.
- `Serves.answer`: what a poll answers.
- `Serves.woken`: when the future is woken.
- `Serves.ended_in_place`, `Serves.ended_of_started`, `Serves.not_held`: what becomes of its grant
  when it is dropped.
-/

namespace FairLock

/-- The lock whose run list a frame works off, or cleans up after. -/
def Frame.dispatcher? : Frame → Option LockId
  | .dispatching lock _ => some lock
  | .handingBack lock _ => some lock
  | _ => none

namespace Machine

variable {m m' : Machine} {g : Grant} {c : ChannelId} {name : String} {answers : List Reply}

/-! ## Grants in a journal -/

/-- What was dropped after a hand-back was never started. -/
theorem Reachable.not_started_of_handedBack (h : m.Reachable)
    (hg : g ∈ (m.world.journal g.lock).handedBack) : g ∉ (m.world.journal g.lock).started := by
  obtain ⟨out, -, hsound⟩ := h.sound g.lock
  exact hsound.not_started_of_takenOut (.inr hg)

/-- An issued grant that its lock does not take for unended has ended. -/
theorem Reachable.ended_of_issued (h : m.Reachable) (hg : g ∈ (m.world.journal g.lock).issued)
    (hended : m.world.isUnended g = false) : g ∈ (m.world.journal g.lock).ended := by
  by_contra hnot
  have hunended := ((h.balanced g.lock).isUnended_iff hg).2 (mem_stillHeld.2 ⟨hg, hnot⟩)
  exact absurd (hended.symm.trans hunended) Bool.false_ne_true

theorem Reachable.issued_of_started (h : m.Reachable)
    (hg : g ∈ (m.world.journal g.lock).started) : g ∈ (m.world.journal g.lock).issued := by
  obtain ⟨out, -, hsound⟩ := h.sound g.lock
  exact hsound.issued_of_started hg

theorem Reachable.issued_of_handedBack (h : m.Reachable)
    (hg : g ∈ (m.world.journal g.lock).handedBack) : g ∈ (m.world.journal g.lock).issued := by
  obtain ⟨out, -, hsound⟩ := h.sound g.lock
  exact hsound.places.mem_iff.2 (List.mem_append_right _ hg)

/-- Where no entries are held, none is about to be dropped. -/
theorem not_discarding_of_carriedBy {frames : List Frame} (h : carriedBy frames = []) (g : Grant)
    (entry : Entry) : .discarding g entry ∉ frames := by
  intro hmem
  have hheld : (g, entry) ∈ carriedBy frames :=
    List.mem_flatMap.2 ⟨_, hmem, List.mem_singleton_self _⟩
  rw [h] at hheld
  cases hheld

/-- A grant ends before its entry point is dropped. -/
structure EndsFirst (m : Machine) : Prop where
  frames : ∀ g entry, .discarding g entry ∈ m.frames → g ∈ (m.world.journal g.lock).ended
  handedBack : ∀ g, g ∈ (m.world.journal g.lock).handedBack → g ∈ (m.world.journal g.lock).ended

theorem EndsFirst.of_initial (configs : List Config) (procedures : Table (List Action)) :
    (idle (World.initial configs procedures)).EndsFirst where
  frames := fun g entry hmem => absurd hmem List.not_mem_nil
  handedBack := by
    intro g hg
    have hcreated := World.justCreated_initial configs procedures
    have hnone : ((World.initial configs procedures).journal g.lock).handedBack = [] :=
      (hcreated.fresh g.lock).silent.handedBack
    have hg' : g ∈ ((World.initial configs procedures).journal g.lock).handedBack := hg
    rw [hnone] at hg'
    cases hg'

/-- The grant of an entry that is about to be dropped has just been ended, if it had not ended
    before. -/
theorem Reachable.ended_of_handBack {w : World} {lock : LockId} {r : Request Entry}
    {items : List (Request Entry)} {below : List Frame} {reply : Reply}
    (h : Reachable ⟨w, .handingBack lock (r :: items) :: below, .returned reply⟩)
    (hid : lock < w.locks.length) :
    r.grant lock ∈ ((w.endGrant (r.grant lock)).world.journal lock).ended := by
  refine World.mem_ended_endGrant hid (h.ended_of_issued ?_)
  -- the frame holds the request, so its grant was issued
  obtain ⟨taken, hholds, hsound⟩ := h.sound lock
  have hout : r.grant lock ∈ (World.ledger w taken lock).out := by
    rw [hholds rfl]
    refine List.mem_filter.2 ⟨?_, by simp⟩
    simp [out, outOf, Frame.out, Request.grant]
  exact hsound.issued_of_out hout

/-- What a drop of an entry records. -/
theorem mem_handedBack_discard {w : World} {g g' : Grant} {entry : Entry}
    (h : g' ∈ ((w.discard (some g) entry).journal g'.lock).handedBack) :
    g' ∈ (w.journal g'.lock).handedBack ∨ g' = g := by
  obtain ⟨tag, hown, hothers⟩ := w.journal_discard g entry
  by_cases hlock : g'.lock = g.lock
  · rw [hlock, hown] at h
    rw [hlock]
    simpa [Journal.handedBack] using h
  · rw [hothers _ hlock] at h
    exact .inl h

theorem EndsFirst.next (h : m.EndsFirst) (hm : m.Reachable) (hn : Next m m') : m'.EndsFirst := by
  -- what has ended stays ended
  have hkept : ∀ {g}, g ∈ (m.world.journal g.lock).ended → g ∈ (m'.world.journal g.lock).ended :=
    fun hg => hm.mem_occurrences (.single hn) hg
  -- and most transitions drop nothing
  have hold : (∀ id, (m'.world.journal id).handedBack = (m.world.journal id).handedBack) →
      ∀ g, g ∈ (m'.world.journal g.lock).handedBack → g ∈ (m'.world.journal g.lock).ended := by
    intro hsame g hg
    rw [hsame] at hg
    exact hkept (h.handedBack g hg)
  cases hm.acts hn with
  | rests => exact h
  | moves htop hdeals =>
    refine ⟨fun g entry hmem => ?_, hold hdeals.discreet.handedBack⟩
    have hbelow := (List.mem_append.1 hmem).resolve_left
      (not_discarding_of_carriedBy hdeals.carriedBy_eq_nil g entry)
    exact hkept (h.frames g entry (List.mem_append_right _ hbelow))
  | @takes w lock outcome below reply r l hid hnext =>
    obtain ⟨waker, -, -, hsame⟩ := (w.setLock lock l).hands_start lock r
    refine ⟨fun g entry hmem => ?_, hold hsame⟩
    have hbelow := (List.mem_append.1 hmem).resolve_left
      (not_discarding_of_carriedBy (World.carriedBy_start _ _ _) g entry)
    refine hkept (h.frames g entry ?_)
    exact List.mem_cons_of_mem _ ((List.mem_cons.1 hbelow).resolve_left nofun)
  | closes hid hnext =>
    exact ⟨fun g entry hmem => h.frames g entry (List.mem_cons_of_mem _ hmem), h.handedBack⟩
  | @unwinds w lock outcome below fault hid =>
    refine ⟨fun g entry hmem => h.frames g entry ?_, h.handedBack⟩
    have hmem' := (List.mem_cons.1 hmem).resolve_left nofun
    exact List.mem_cons_of_mem _ ((List.mem_cons.1 hmem').resolve_left nofun)
  | @handsBack w lock r items below reply hid =>
    refine ⟨fun g entry hmem => ?_, hold (w.aside_endGrant (c := 0) _).discreet.handedBack⟩
    have hbelow := (List.mem_append.1 hmem).resolve_left
      (not_discarding_of_carriedBy (w.carriedBy_endGrant _) g entry)
    rcases List.mem_cons.1 hbelow with heq | hbelow
    · cases heq
      exact hm.ended_of_handBack hid
    · refine hkept (h.frames g entry (List.mem_cons_of_mem _ ?_))
      exact (List.mem_cons.1 hbelow).resolve_left nofun
  | @discards w g entry below reply hid =>
    refine ⟨fun g' entry' hmem => hkept (h.frames g' entry' (List.mem_cons_of_mem _ hmem)), ?_⟩
    intro g' hg'
    rcases mem_handedBack_discard hg' with hback | rfl
    · exact hkept (h.handedBack g' hback)
    · exact hkept (h.frames g' entry (List.mem_cons_self ..))
  | leaves hf hout =>
    exact ⟨fun g entry hmem => h.frames g entry (List.mem_cons_of_mem _ hmem), h.handedBack⟩
  | joins reply =>
    exact ⟨fun g entry hmem => h.frames g entry (List.mem_cons_of_mem _ hmem), h.handedBack⟩

theorem Reachable.endsFirst (h : m.Reachable) : m.EndsFirst := by
  obtain ⟨configs, procedures, hr⟩ := h
  induction hr with
  | refl => exact .of_initial configs procedures
  | tail hbefore hn ih => exact ih.next ⟨configs, procedures, hbefore⟩ hn

/-! ## The sender of a request -/

/-- The sender of a channel is the entry of one request, and of no other. -/
structure Linked (m : Machine) (c : ChannelId) (g : Grant) : Prop where
  accepted : g ∈ (m.world.journal g.lock).accepted
  made : c < m.world.channels.length
  /-- As long as the sender is there, it lies with the request. -/
  only : ∀ g', m.Carries g' (.sender c) → g' = g
  entry : ∀ entry, m.Carries g entry → entry = .sender c

/-- It stays so, as neither a channel nor a request comes up twice. -/
theorem Linked.next (h : m.Linked c g) (hm : m.Reachable) (hn : Next m m') : m'.Linked c g where
  accepted := hm.mem_occurrences (.single hn) h.accepted
  made := Nat.lt_of_lt_of_le h.made hn.traffic.length_le
  -- a sender of this channel that comes up now would be one of a new channel
  only := by
    intro g' hcarries
    rcases (hm.acts hn).carries hcarries with hcarries | ⟨-, hfresh⟩
    · exact h.only g' hcarries
    · exact absurd h.made (Nat.not_lt_of_le (hfresh c rfl).1)
  entry := by
    intro entry hcarries
    -- an entry of this grant that comes up now would be one of a new request
    rcases (hm.acts hn).carries hcarries with hcarries | ⟨haccepted, -⟩
    · exact h.entry entry hcarries
    · have hnodup := ((hm.reaches (.single hn)).balanced g.lock).accepted_nodup
      rw [haccepted] at hnodup
      have hold := (List.nodup_append.1 hnodup).2.2 g h.accepted g (List.mem_singleton_self g)
      exact absurd rfl hold

end Machine

/-! ## What is in the channel -/

namespace World

variable {w v : World} {g : Grant} {name : String} {answers : List Reply} {channel : Channel}

/-- What a poll of the future for a grant has to answer, if its result has not been given out. -/
def dueAnswer (w : World) (g : Grant) : Reply :=
  if g ∈ (w.journal g.lock).started then .granted g
  else if g ∈ (w.journal g.lock).handedBack then .failed .abandoned
  else .pending

theorem dueAnswer_of_started (h : g ∈ (w.journal g.lock).started) : w.dueAnswer g = .granted g :=
  if_pos h

theorem dueAnswer_of_handedBack (h : g ∉ (w.journal g.lock).started)
    (h' : g ∈ (w.journal g.lock).handedBack) : w.dueAnswer g = .failed .abandoned := by
  rw [dueAnswer, if_neg h, if_pos h']

theorem dueAnswer_eq_pending_iff : w.dueAnswer g = .pending ↔
    g ∉ (w.journal g.lock).started ∧ g ∉ (w.journal g.lock).handedBack := by
  unfold dueAnswer
  split
  · simp_all
  · split <;> simp_all

/-- What is in the channel of a future whose polls were answered like this, the last one first. -/
inductive Stands (w : World) (g : Grant) (name : String) (answers : List Reply) : Channel → Prop where
  /-- The future is registered to be woken if it was polled. -/
  | waits (hstarted : g ∉ (w.journal g.lock).started)
      (hhandedBack : g ∉ (w.journal g.lock).handedBack) (hanswers : ∀ r ∈ answers, r = .pending) :
      Stands w g name answers (.open (answers.head?.map fun _ => name))
  | sent (hstarted : g ∈ (w.journal g.lock).started) (hanswers : ∀ r ∈ answers, r = .pending) :
      Stands w g name answers (.sent g)
  | abandoned (hhandedBack : g ∈ (w.journal g.lock).handedBack)
      (hanswers : ∀ r ∈ answers, r = .pending) : Stands w g name answers .abandoned
  | received {r : Reply} {rest : List Reply} (hanswers : answers = r :: rest) (hr : r ≠ .pending) :
      Stands w g name answers .taken
  /-- The future was dropped.  If it had not given out its grant, that is not held any more. -/
  | gone (hended : (∀ r ∈ answers, r = .pending) → g ∈ (w.journal g.lock).started →
        g ∈ (w.journal g.lock).ended) :
      Stands w g name answers .gone

/-- It depends on what became of the grant, and that it has ended is never taken back. -/
theorem Stands.mono (h : w.Stands g name answers channel)
    (hstarted : g ∈ (v.journal g.lock).started ↔ g ∈ (w.journal g.lock).started)
    (hhandedBack : g ∈ (v.journal g.lock).handedBack ↔ g ∈ (w.journal g.lock).handedBack)
    (hended : g ∈ (w.journal g.lock).ended → g ∈ (v.journal g.lock).ended) :
    v.Stands g name answers channel := by
  -- each way to stand hangs on what became of the grant, and on nothing else
  cases h with
  | waits hnot hnot' hanswers =>
    exact .waits (mt hstarted.1 hnot) (mt hhandedBack.1 hnot') hanswers
  | sent hg hanswers => exact .sent (hstarted.2 hg) hanswers
  | abandoned hg hanswers => exact .abandoned (hhandedBack.2 hg) hanswers
  | received hanswers hr => exact .received hanswers hr
  | gone h => exact .gone fun hanswers hg => hended (h hanswers (hstarted.1 hg))

/-- Where nobody waits, nothing is put into the channel. -/
theorem Stands.of_closed (h : w.Stands g name answers channel)
    (hclosed : ∀ waker, channel ≠ .open waker)
    (hstarted : g ∈ (w.journal g.lock).started → g ∈ (v.journal g.lock).started)
    (hhandedBack : g ∈ (w.journal g.lock).handedBack → g ∈ (v.journal g.lock).handedBack)
    (hended : g ∈ (v.journal g.lock).started →
      (g ∈ (w.journal g.lock).started → g ∈ (w.journal g.lock).ended) →
        g ∈ (v.journal g.lock).ended) :
    v.Stands g name answers channel := by
  -- somebody would wait only on an open channel
  cases h with
  | waits _ _ _ => exact absurd rfl (hclosed _)
  | sent hg hanswers => exact .sent (hstarted hg) hanswers
  | abandoned hg hanswers => exact .abandoned (hhandedBack hg) hanswers
  | received hanswers hr => exact .received hanswers hr
  | gone h => exact .gone fun hanswers hg => hended hg (h hanswers)

/-- Somebody waits as long as nothing is due. -/
theorem Stands.of_open {waker : Option String} (h : w.Stands g name answers (.open waker)) :
    w.dueAnswer g = .pending ∧ (∀ r ∈ answers, r = .pending) ∧
      waker = answers.head?.map fun _ => name := by
  cases h with
  -- an open channel is one on which nothing was sent, so nothing is due
  | waits hstarted hhandedBack hanswers =>
    exact ⟨dueAnswer_eq_pending_iff.2 ⟨hstarted, hhandedBack⟩, hanswers, rfl⟩

end World

namespace Machine

variable {m m' : Machine} {g : Grant} {c : ChannelId} {name : String} {answers : List Reply}

/-- When the receiver goes, the grant of the future ends if the capability was in the channel.  If it
    was not there, the grant was not started, or has ended, or was given out. -/
theorem Reachable.ended_of_closed (hm : m.Reachable)
    (hs : m.world.Stands g name answers (m.world.channel c)) (hanswers : ∀ r ∈ answers, r = .pending)
    (hstarted : g ∈ (m.world.journal g.lock).started)
    (hsent : m.world.channel c = .sent g → m.world.isUnended g = true →
      g ∈ (m'.world.journal g.lock).ended)
    (hended : g ∈ (m.world.journal g.lock).ended → g ∈ (m'.world.journal g.lock).ended) :
    g ∈ (m'.world.journal g.lock).ended := by
  generalize m.world.channel c = channel at hs hsent
  -- started and not received: the capability lies in the channel, or the grant has ended already
  cases hs with
  | waits hnot _ _ => exact absurd hstarted hnot
  | sent _ _ =>
    cases hunended : m.world.isUnended g with
    | true => exact hsent rfl hunended
    | false => exact hended (hm.ended_of_issued (hm.issued_of_started hstarted) hunended)
  | abandoned hback _ => exact absurd hstarted (hm.not_started_of_handedBack hback)
  -- an answer that is not pending would be among those that were given
  | @received r rest heq hr =>
    subst heq
    exact absurd (hanswers r (List.mem_cons_self ..)) hr
  | gone hs => exact hended (hs hanswers hstarted)

/-- What is found in the channel of a request when an entry hands something over: it is put there by
    the entry of the request, unless nobody waits there any more, and by no other. -/
inductive Handed (m m' : Machine) (c : ChannelId) (g g' : Grant) (new : Channel)
    (waker : Option String) : Prop where
  | own (hg : g' = g) (hopen : m.world.channel c = .open waker) (hnew : m'.world.channel c = new)
  | unheard (hg : g' = g) (hclosed : ∀ waker, m.world.channel c ≠ .open waker)
      (hwaker : waker = none) (heq : m'.world.channel c = m.world.channel c)
  | other (hg : g' ≠ g) (heq : m'.world.channel c = m.world.channel c)
      (hothers : ∀ future, waker = some future →
        ∃ c', c' ≠ c ∧ m.world.channel c' = .open (some future))

theorem Linked.handed (h : m.Linked c g) {g' : Grant} {entry : Entry} {new : Channel}
    {waker : Option String} (hcarries : m.Carries g' entry)
    (hands : m.world.Hands entry new m'.world waker) : Handed m m' c g g' new waker := by
  -- the entry is that of the grant, or belongs to another one and has another channel
  by_cases hg : g' = g
  · obtain rfl := h.entry entry (hg ▸ hcarries)
    rcases hands.own h.made with ⟨hopen, hnew⟩ | ⟨hwaker, hclosed, heq⟩
    · exact .own hg hopen hnew
    · exact .unheard hg hclosed hwaker heq
  · have hne : entry ≠ .sender c := by
      rintro rfl
      exact hg (h.only g' hcarries)
    exact .other hg (hands.other hne).1 (hands.other hne).2

/-- A transition that neither polls the future nor finds its request refused. -/
theorem Linked.stands (h : m.Linked c g) (hm : m.Reachable) (hn : Next m m')
    (hpoll : ∀ future, ¬m.Calls m' (.poll c future)) (hfail : ¬m.Calls m' (.fail c))
    (hs : m.world.Stands g name answers (m.world.channel c)) :
    m'.world.Stands g name answers (m'.world.channel c) := by
  have hkept : g ∈ (m.world.journal g.lock).started → g ∈ (m'.world.journal g.lock).started :=
    hm.mem_occurrences (.single hn)
  have hended : g ∈ (m.world.journal g.lock).ended → g ∈ (m'.world.journal g.lock).ended :=
    hm.mem_occurrences (.single hn)
  cases hm.posts hn h.made with
  | idles hdiscreet hidles hstarted =>
    -- the request was accepted before, so its entry point is not started here
    have hsame : g ∈ (m'.world.journal g.lock).started ↔ g ∈ (m.world.journal g.lock).started :=
      ⟨hstarted g h.accepted, hkept⟩
    have hsame' : g ∈ (m'.world.journal g.lock).handedBack ↔
        g ∈ (m.world.journal g.lock).handedBack := by
      rw [hdiscreet.handedBack]
    cases hidles with
    | same heq =>
      rw [heq]
      exact hs.mono hsame hsame' hended
    | closed hgone hsent =>
      rw [hgone]
      refine .gone fun hanswers hg => ?_
      exact hm.ended_of_closed hs hanswers (hsame.1 hg) (hsent g) hended
    | polled hcall => exact absurd hcall (hpoll _)
    | failed hcall => exact absurd hcall hfail
  | @begins g' entry waker hcarries hands hwoken hhandedBack hstarted hends =>
    have hsame : g ∈ (m'.world.journal g.lock).handedBack ↔
        g ∈ (m.world.journal g.lock).handedBack := by
      rw [hhandedBack]
    -- if it is the entry of the request, the capability is sent, or its grant ends at once
    cases h.handed hcarries hands with
    | own hg hopen hnew =>
      subst hg
      rw [hopen] at hs
      rw [hnew]
      exact .sent ((hstarted g').2 (.inr rfl)) hs.of_open.2.1
    | unheard hg hclosed hwaker heq =>
      subst hg
      obtain rfl := h.entry entry hcarries
      rw [heq]
      exact hs.of_closed hclosed hkept hsame.2 fun _ _ => (hends c rfl hclosed).1
    | other hg heq hothers =>
      rw [heq]
      refine hs.mono ?_ hsame hended
      rw [hstarted, or_iff_left (Ne.symm hg)]
  | @drops g' entry waker hcarries hands hwoken hhandedBack hstarted =>
    have hsame : g ∈ (m'.world.journal g.lock).started ↔ g ∈ (m.world.journal g.lock).started := by
      rw [hstarted]
    cases h.handed hcarries hands with
    | own hg hopen hnew =>
      subst hg
      rw [hopen] at hs
      rw [hnew]
      exact .abandoned ((hhandedBack g').2 (.inr rfl)) hs.of_open.2.1
    | unheard hg hclosed hwaker heq =>
      rw [heq]
      refine hs.of_closed hclosed hkept (fun hback => (hhandedBack g).2 (.inl hback)) fun hg h => ?_
      exact hended (h (hsame.1 hg))
    | other hg heq hothers =>
      rw [heq]
      refine hs.mono hsame ?_ hended
      rw [hhandedBack, or_iff_left (Ne.symm hg)]

/-- The result of a request becomes available. -/
def Settles (m m' : Machine) (g : Grant) : Prop :=
  m.world.dueAnswer g = .pending ∧ m'.world.dueAnswer g ≠ .pending

/-- Exactly the request whose result has come settles, unless it had one before. -/
theorem settles_iff_of_result {g' : Grant}
    (h : g ∈ (m'.world.journal g.lock).started ∨ g ∈ (m'.world.journal g.lock).handedBack ↔
      (g ∈ (m.world.journal g.lock).started ∨ g ∈ (m.world.journal g.lock).handedBack) ∨ g = g') :
    m.Settles m' g ↔ g' = g ∧ m.world.dueAnswer g = .pending := by
  have hdue : m'.world.dueAnswer g ≠ .pending ↔
      g ∈ (m'.world.journal g.lock).started ∨ g ∈ (m'.world.journal g.lock).handedBack := by
    rw [Ne, World.dueAnswer_eq_pending_iff, ← not_or, not_not]
  rw [Settles, hdue, World.dueAnswer_eq_pending_iff, h, eq_comm (a := g)]
  tauto

/-! ## One future -/

/-- A future is to get a grant through the channel, and its polls were answered like this so far, the
    last one first. -/
structure Awaits (m : Machine) (name : String) (c : ChannelId) (g : Grant) (answers : List Reply) :
    Prop where
  linked : m.Linked c g
  stands : m.world.Stands g name answers (m.world.channel c)

/-- The future is stored under the name, or it was dropped. -/
structure Serves (m : Machine) (name : String) (c : ChannelId) (g : Grant) (answers : List Reply) :
    Prop extends m.Awaits name c g answers where
  stored : m.world.Stores name c ∨ m.world.channel c = .gone

/-- What was dropped stays dropped. -/
theorem Next.gone (h : Next m m') (hc : c < m.world.channels.length)
    (hgone : m.world.channel c = .gone) : m'.world.channel c = .gone := by
  -- the channel is in its place and is gone, and what is gone does not change
  have hget : m.world.channels[c]? = some .gone := by
    rw [← hgone, World.channel, List.getD_eq_getElem?_getD, List.getElem?_eq_getElem hc]
    rfl
  obtain ⟨channel, hchannel, hfades⟩ := h.traffic.fades hget rfl
  rw [World.channel_of_getElem? hchannel]
  cases hfades <;> rfl

namespace Serves

variable {r : Reply}

/-- Whatever happens besides polls. -/
theorem next (h : m.Serves name c g answers) (hm : m.Reachable) (hn : Next m m')
    (hno : ∀ r, ¬Polls name (.accepted c) m m' r) : m'.Serves name c g answers where
  linked := h.linked.next hm hn
  -- whatever is put into the channel meanwhile is for this grant
  stands := by
    have hreceiver := h.stored.imp_left World.Stores.exists_receiver
    refine h.linked.stands hm hn (fun future hcall => ?_) (hm.not_fails hreceiver) h.stands
    obtain ⟨r, hpolls⟩ := hm.polls_of_calls h.stored hcall
    exact hno r hpolls
  stored := by
    -- stored, the future stays or drops its receiver; dropped, it stays so
    rcases h.stored with hstored | hgone
    · exact (hn.retains (c := c)).symm.imp_left fun hleaves => hleaves.stores name hstored
    · exact .inr (hn.gone h.linked.made hgone)

/-- A poll finds the channel as it is, and answers what is due unless the result was given out. -/
theorem answer (h : m.Serves name c g answers) (hm : m.Reachable)
    (hp : Polls name (.accepted c) m m' r) (hanswers : ∀ r ∈ answers, r = .pending) :
    r = m.world.dueAnswer g := by
  have hgone' := hm.not_gone hp.stores.1 (Multiset.mem_singleton_self c)
  obtain ⟨w, context, below, hbegins, hgives, -⟩ := hp.gives
  have hs := h.stands
  rw [← hbegins.channel c] at hs
  generalize w.poll name = move at hgives
  -- what is found in the channel decides the answer, and says what became of the grant
  cases hgives with
  | pending hopen =>
    rw [hopen] at hs
    exact hs.of_open.1.symm
  | granted hsent =>
    rw [hsent] at hs
    cases hs with
    | sent hstarted _ => exact (World.dueAnswer_of_started hstarted).symm
  | abandoned hdropped =>
    rw [hdropped] at hs
    cases hs with
    | abandoned hg _ =>
      exact (World.dueAnswer_of_handedBack (hm.not_started_of_handedBack hg) hg).symm
  | again hspent =>
    rcases hspent with htaken | hgone
    · rw [htaken] at hs
      cases hs with
      | received heq hr =>
        subst heq
        exact absurd (hanswers _ (List.mem_cons_self ..)) hr
    · exact absurd ((hbegins.channel c).symm.trans hgone) hgone'

/-- A poll leaves the future where it is. -/
theorem polled (h : m.Serves name c g answers) (hm : m.Reachable)
    (hp : Polls name (.accepted c) m m' r) : m'.Serves name c g (r :: answers) where
  linked := h.linked.next hm hp.next
  stored := .inl hp.stores.2
  stands := by
    have hgone := hm.not_gone hp.stores.1 (Multiset.mem_singleton_self c)
    obtain ⟨w, context, below, hbegins, hgives, rfl⟩ := hp.gives
    have hmade : c < w.channels.length := by
      rw [hbegins.same.2.1]
      exact h.linked.made
    -- the journals are the same where the poll begins
    have hs : w.Stands g name answers (w.channel c) := by
      rw [hbegins.channel c]
      refine h.stands.mono ?_ ?_ ?_ <;> simp [hbegins.same.2.2]
    rw [← hbegins.channel c] at hgone
    show World.Stands (w.poll name).world g name (r :: answers) ((w.poll name).world.channel c)
    have htaken : (w.setChannel c .taken).channel c = .taken := World.channel_setChannel_self hmade
    generalize w.poll name = move at hgives
    cases hgives with
    | pending hopen =>
      rw [hopen] at hs
      show World.Stands _ g name _ ((w.setChannel c (.open (some name))).channel c)
      rw [World.channel_setChannel_self hmade]
      cases hs with
      | waits hstarted hhandedBack hanswers =>
        exact .waits hstarted hhandedBack (List.forall_mem_cons.2 ⟨rfl, hanswers⟩)
    | @granted g' hsent =>
      show World.Stands _ g name _ (((w.setChannel c .taken).keep name g').world.channel c)
      rw [(World.aside_keep _ name g').channel, htaken]
      exact .received rfl nofun
    | abandoned hdropped =>
      show World.Stands _ g name _ ((w.setChannel c .taken).channel c)
      rw [htaken]
      exact .received rfl nofun
    | again hspent =>
      show World.Stands _ g name _ (w.channel c)
      rw [hspent.resolve_right hgone]
      exact .received rfl nofun

/-! ### Being woken -/

/-- What an entry hands over wakes the future if it is the entry of its request and somebody may
    still be told; nothing else does. -/
theorem count_woken (h : m.Serves name c g answers) (hm : m.Reachable)
    (hstored : m.world.Stores name c) {g' : Grant} {entry : Entry} {new : Channel}
    {waker : Option String} (hcarries : m.Carries g' entry)
    (hands : m.world.Hands entry new m'.world waker)
    (hwoken : m'.world.woken = waker.toList ++ m.world.woken) :
    (g' = g ∧ m.world.dueAnswer g = .pending ∧ answers.head? = some .pending →
      m'.world.woken.count name = m.world.woken.count name + 1) ∧
    (¬(g' = g ∧ m.world.dueAnswer g = .pending ∧ answers.head? = some .pending) →
      m'.world.woken.count name = m.world.woken.count name) := by
  have hnobody : waker = none → m'.world.woken.count name = m.world.woken.count name := by
    rintro rfl
    rw [hwoken]
    rfl
  have hs := h.stands
  cases h.linked.handed hcarries hands with
  | own hg hopen hnew =>
    rw [hopen] at hs
    -- the future is registered exactly if it was polled
    obtain ⟨hdue, hanswers, rfl⟩ := hs.of_open
    cases answers with
    | nil => exact ⟨fun hall => absurd hall.2.2 nofun, fun _ => hnobody rfl⟩
    | cons r rest =>
      obtain rfl := hanswers r (List.mem_cons_self ..)
      refine ⟨fun _ => ?_, fun hnot => absurd ⟨hg, hdue, rfl⟩ hnot⟩
      rw [hwoken]
      simp
  | unheard hg hclosed hwaker heq =>
    refine ⟨fun ⟨_, hdue, hhead⟩ => ?_, fun _ => hnobody hwaker⟩
    -- the result is not due, so the channel could only be closed by a drop
    obtain ⟨hstarted, hhandedBack⟩ := World.dueAnswer_eq_pending_iff.1 hdue
    have hgone := hm.not_gone hstored (Multiset.mem_singleton_self c)
    generalize hchannel : m.world.channel c = channel at hs hgone
    cases hs with
    | waits _ _ _ => exact absurd hchannel (hclosed _)
    | sent hg _ => exact absurd hg hstarted
    | abandoned hg _ => exact absurd hg hhandedBack
    | received heq hr =>
      subst heq
      exact absurd (Option.some.inj hhead) hr
    | gone _ => exact absurd rfl hgone
  | other hg heq hothers =>
    refine ⟨fun hall => absurd hall.1 hg, fun _ => ?_⟩
    cases hwaker : waker with
    | none => exact hnobody hwaker
    | some future =>
      -- who waits at another channel has another name
      obtain ⟨other, hother, hopen⟩ := hothers future hwaker
      obtain ⟨f, hf, hc⟩ := hm.attended other future hopen
      have hname : future ≠ name := by
        rintro rfl
        rw [show m.world.futures.get? future = some _ from hstored] at hf
        cases hf
        exact hother (Multiset.mem_singleton.1 hc)
      rw [hwoken, hwaker]
      simp [List.count_cons_of_ne hname]

/-- A future that waits is woken once, by the transition that makes its result available, if its
    last poll left it pending.  No other transition wakes it. -/
theorem woken (h : m.Serves name c g answers) (hm : m.Reachable) (hn : Next m m')
    (hstored : m.world.Stores name c) :
    (m.Settles m' g ∧ answers.head? = some .pending →
      m'.world.woken.count name = m.world.woken.count name + 1) ∧
    (¬(m.Settles m' g ∧ answers.head? = some .pending) →
      m'.world.woken.count name = m.world.woken.count name) := by
  cases hm.posts hn h.linked.made with
  -- nothing is handed over, so nothing becomes due either
  | idles hdiscreet hidles hstarted =>
    refine ⟨fun ⟨⟨hdue, hsettled⟩, _⟩ => absurd ?_ hsettled, fun _ => by rw [hdiscreet.woken]⟩
    rw [World.dueAnswer_eq_pending_iff] at hdue ⊢
    rw [hdiscreet.handedBack]
    exact ⟨mt (hstarted g h.linked.accepted) hdue.1, hdue.2⟩
  | @begins g' entry waker hcarries hands hwoken hhandedBack hstarted hends =>
    -- the result is due with this start exactly if it is the start of this grant
    have hsettles : m.Settles m' g ↔ g' = g ∧ m.world.dueAnswer g = .pending := by
      apply settles_iff_of_result
      rw [hstarted, hhandedBack]
      tauto
    rw [hsettles, and_assoc]
    exact h.count_woken hm hstored hcarries hands hwoken
  | @drops g' entry waker hcarries hands hwoken hhandedBack hstarted =>
    -- the same for an entry that is dropped
    have hsettles : m.Settles m' g ↔ g' = g ∧ m.world.dueAnswer g = .pending := by
      apply settles_iff_of_result
      rw [hstarted, hhandedBack]
      tauto
    rw [hsettles, and_assoc]
    exact h.count_woken hm hstored hcarries hands hwoken

/-! ### Being dropped -/

section Dropped

variable (h : m.Serves name c g answers) (hdropped : ¬m.world.Stores name c)
include h hdropped

/-- The grant of a future that was dropped ends in the step that starts its entry point, inside the
    boundary of that. -/
theorem ended_in_place (hm : m.Reachable) (hn : Next m m')
    (hnot : g ∉ (m.world.journal g.lock).started)
    (hstarted : g ∈ (m'.world.journal g.lock).started) :
    g ∈ (m'.world.journal g.lock).ended ∧ ∃ rest, m'.frames = .invocation g :: rest := by
  have hgone := h.stored.resolve_left hdropped
  cases hm.posts hn h.linked.made with
  -- without a start of anybody the grant would have been started before
  | idles hdiscreet hidles hstarts => exact absurd (hstarts g h.linked.accepted hstarted) hnot
  | @begins g' entry waker hcarries hands hwoken hhandedBack hstarts hends =>
    obtain rfl := ((hstarts g).1 hstarted).resolve_left hnot
    obtain rfl := h.linked.entry entry hcarries
    -- nobody waits, since the receiver is gone
    refine hends c rfl fun waker hopen => ?_
    exact absurd (hgone.symm.trans hopen) nofun
  | drops hcarries hands hwoken hhandedBack hstarts =>
    -- a drop starts nobody
    rw [hstarts] at hstarted
    exact absurd hstarted hnot

/-- If it had not given out its grant, that has ended if it ever came to be started. -/
theorem ended_of_started (hanswers : ∀ r ∈ answers, r = .pending)
    (hstarted : g ∈ (m.world.journal g.lock).started) : g ∈ (m.world.journal g.lock).ended := by
  have hs := h.stands
  rw [h.stored.resolve_left hdropped] at hs
  cases hs with
  | gone hended => exact hended hanswers hstarted

/-- While nobody works off a run list of the lock, or cleans one up, its grant is not held. -/
theorem not_held (hm : m.Reachable) (hanswers : ∀ r ∈ answers, r = .pending)
    (hgoing : m.isAborting = false) (hquiet : ∀ f ∈ m.frames, f.dispatcher? ≠ some g.lock) :
    g ∉ (m.world.journal g.lock).held := by
  intro hheld
  obtain ⟨hissued, hnot⟩ := mem_stillHeld.1 hheld
  obtain ⟨taken, hholds, hsound⟩ := hm.sound g.lock
  -- an issued grant was started, or is deferred, or was taken out, or was handed back
  have hplace := hsound.places.mem_iff.1 hissued
  simp only [List.mem_append] at hplace
  rcases hplace with ((hstarted | hdeferred) | hout) | hback
  · exact hnot (h.ended_of_started hdropped hanswers hstarted)
  · -- what is deferred lies with a loop
    obtain ⟨r, hr, -⟩ := List.mem_map.1 hdeferred
    obtain ⟨run, hrun, -⟩ := List.mem_flatMap.1 hr
    have hloop := (hm.looped.lists g.lock run.thread).1
      (Lock.isDispatching_eq_true_iff.2 ⟨run, hrun, rfl⟩)
    obtain ⟨above, outcome, rest, hframes, -⟩ := exists_loop_of_mem_loopsOf hloop
    refine hquiet (.dispatching g.lock outcome) ?_ rfl
    rw [hframes]
    simp
  · -- what was taken off a run list lies with the frames that clean up
    obtain ⟨hmem, -⟩ := List.mem_filter.1 hout
    rw [hholds hgoing] at hmem
    obtain ⟨f, hf, hmem⟩ := List.mem_flatMap.1 hmem
    cases f with
    | handingBack lock items =>
      obtain ⟨r, -, rfl⟩ := List.mem_map.1 hmem
      exact hquiet _ hf rfl
    | discarding g' entry =>
      obtain rfl := List.mem_singleton.1 hmem
      exact hnot (hm.endsFirst.frames g entry hf)
    | _ => cases hmem
  · exact hnot (hm.endsFirst.handedBack g hback)

end Dropped

end Serves

end Machine

end FairLock
