import FairLock.Proofs.Machine.Worlds
import Mathlib.Algebra.Order.Group.Multiset
import Mathlib.Data.Multiset.UnionInter

/-!
# Channels and their ends

A channel has one sender, the entry that may still be started, and one receiver, the future that
waits for it.  Both ends are handed around: the sender lies in a queue, on a run list, or with a
loop that was unwound; the receiver is stored under a name or in the hands of a frame.  What counts
for a channel is only which ends are still there, so this module looks at nothing else.

`Traffic.Step` lists all that can happen.  A sender that is dropped without having sent leaves a
channel out of which nothing but the news of that will ever come.

## Main definitions

- `Traffic`: the channels, with their senders and receivers; `Traffic.Step`, `Traffic.Run`.
- `Traffic.Ok`: no end is there twice, and channels are in a state that fits their ends.
- `Channel.Fades`: how a channel goes on whose sender is gone without having sent.

## Main statements

- `Traffic.Step.ok`: what one step keeps.
- `Traffic.Step.no_sender`, `Traffic.Step.fades`: a sender does not come back, and what its channel
  does without it.
- `Traffic.Step.no_receiver`: a receiver does not come back either.
-/

namespace FairLock

/-! ## Ends -/

/-- The sender that an entry is, if it is one. -/
def Entry.senders : Entry → Multiset ChannelId
  | .task _ => 0
  | .sender c => {c}

/-- The receiver that a future has, if it waits for one. -/
def Future.receivers : Future → Multiset ChannelId
  | .acquire (.accepted c) => {c}
  | .run _ (.waiting c) => {c}
  | _ => 0

/-- The receivers of stored futures. -/
def receiversIn : Table Future → Multiset ChannelId
  | [] => 0
  | (_, f) :: rest => f.receivers + receiversIn rest

/-- The receiver of the future that makes room if another one is stored under the name. -/
def displaced (t : Table Future) (name : String) : Multiset ChannelId :=
  match t.get? name with
  | none => 0
  | some old => old.receivers

/-! ## Tables of futures -/

namespace Table

/-- The names are in increasing order. -/
def Sorted {β : Type} (t : Table β) : Prop := t.Pairwise fun a b => a.1 < b.1

variable {t : Table Future} {name : String} {f : Future}

theorem lt_of_not_lt {n name : String} (hne : n ≠ name) (hnot : ¬name < n) : n < name := by
  by_contra hge
  exact hne (String.le_antisymm (String.not_lt.1 hnot) (String.not_lt.1 hge))

theorem Sorted.put (h : t.Sorted) (name : String) (f : Future) : Sorted (t.put name f) := by
  induction t with
  | nil => exact List.pairwise_singleton _ _
  | cons first rest ih =>
    obtain ⟨n, v⟩ := first
    obtain ⟨hfirst, hrest⟩ := List.pairwise_cons.1 h
    unfold Table.put
    split
    · rename_i hn
      subst hn
      exact List.pairwise_cons.2 ⟨hfirst, hrest⟩
    · rename_i hn
      split
      · -- the new name comes first, and the table follows as it is
        rename_i hlt
        refine List.pairwise_cons.2 ⟨?_, h⟩
        intro entry he
        rcases List.mem_cons.1 he with rfl | he
        · exact hlt
        · exact String.lt_trans hlt (hfirst entry he)
      · rename_i hnot
        refine List.pairwise_cons.2 ⟨?_, ih hrest⟩
        intro entry he
        rcases eq_or_mem_of_mem_put he with rfl | he
        · exact lt_of_not_lt hn hnot
        · exact hfirst entry he

theorem Sorted.remove (h : t.Sorted) (name : String) : Sorted (t.remove name) := h.filter _

/-- A name that comes before all names of a table is not among them. -/
theorem get?_eq_none_of_lt (h : ∀ entry ∈ t, name < entry.1) : t.get? name = none := by
  -- every name of the table comes after this one
  induction t with
  | nil => rfl
  | cons first rest ih =>
    obtain ⟨n, v⟩ := first
    have hne : name ≠ n := fun heq => String.lt_irrefl n (heq ▸ h (n, v) (by simp))
    rw [get?_cons, if_neg hne]
    exact ih fun entry he => h entry (by simp [he])

section Gathered

variable {β : Type} (φ : Future → Multiset β)

/-- What stored futures have, taken together. -/
def gathered : Table Future → Multiset β
  | [] => 0
  | (_, f) :: rest => φ f + gathered rest

/-- Storing a future makes what the one has go for what the other had. -/
theorem gathered_put (h : t.Sorted) (name : String) (f : Future) :
    gathered φ (t.put name f) + (t.get? name).elim 0 φ = gathered φ t + φ f := by
  induction t with
  | nil => simp [Table.put, gathered]
  | cons first rest ih =>
    obtain ⟨n, v⟩ := first
    obtain ⟨hfirst, hrest⟩ := List.pairwise_cons.1 h
    unfold Table.put
    split
    · rename_i hn
      subst hn
      simp only [get?_cons, if_true, gathered, Option.elim_some]
      ac_rfl
    · rename_i hn
      split
      · -- nothing of that name is stored here or further on
        rename_i hlt
        have hnone : get? ((n, v) :: rest : Table Future) name = none := by
          refine get?_eq_none_of_lt ?_
          intro entry he
          rcases List.mem_cons.1 he with rfl | he
          · exact hlt
          · exact String.lt_trans hlt (hfirst entry he)
        simp only [hnone, gathered, Option.elim_none, add_zero]
        ac_rfl
      · rw [get?_cons, if_neg (Ne.symm hn)]
        simp only [gathered]
        rw [add_assoc, ih hrest, add_assoc]

/-- A future that is taken out of the table takes along what it has. -/
theorem gathered_remove (h : t.Sorted) (hget : t.get? name = some f) :
    gathered φ (t.remove name) + φ f = gathered φ t := by
  induction t with
  | nil => simp at hget
  | cons first rest ih =>
    obtain ⟨n, v⟩ := first
    obtain ⟨hfirst, hrest⟩ := List.pairwise_cons.1 h
    rw [get?_cons] at hget
    by_cases hn : name = n
    · subst hn
      rw [if_pos rfl, Option.some.injEq] at hget
      subst hget
      -- nothing else has the name
      have hsame : Table.remove ((name, v) :: rest) name = rest := by
        have hkept : ∀ entry ∈ rest, entry.1 ≠ name := fun entry he heq =>
          String.lt_irrefl name (heq ▸ hfirst entry he)
        simpa [Table.remove, List.filter_eq_self] using hkept
      rw [hsame, add_comm]
      rfl
    · rw [if_neg hn] at hget
      have hcons : Table.remove ((n, v) :: rest) name = (n, v) :: Table.remove rest name := by
        simp [Table.remove, Ne.symm hn]
      rw [hcons]
      simp only [gathered]
      rw [add_assoc, ih hrest hget]

end Gathered

theorem receiversIn_eq_gathered (t : Table Future) :
    receiversIn t = gathered Future.receivers t := by
  induction t with
  | nil => rfl
  | cons first rest ih => rw [receiversIn, gathered, ih]

theorem displaced_eq_elim (t : Table Future) (name : String) :
    displaced t name = (t.get? name).elim 0 Future.receivers := by
  unfold displaced
  cases t.get? name <;> rfl

/-- Storing a future makes one receiver go for the other. -/
theorem receiversIn_put (h : t.Sorted) (name : String) (f : Future) :
    receiversIn (t.put name f) + displaced t name = receiversIn t + f.receivers := by
  rw [receiversIn_eq_gathered, receiversIn_eq_gathered, displaced_eq_elim]
  exact gathered_put Future.receivers h name f

/-- A future that is taken out of the table takes its receiver along. -/
theorem receiversIn_remove (h : t.Sorted) (hget : t.get? name = some f) :
    receiversIn (t.remove name) + f.receivers = receiversIn t := by
  rw [receiversIn_eq_gathered, receiversIn_eq_gathered]
  exact gathered_remove Future.receivers h hget

end Table

/-! ## Traffic -/

namespace Channel

/-- Is a capability neither sent nor given up? -/
def isUnsent : Channel → Bool
  | .open _ => true
  | .gone => true
  | _ => false

/-- Has the receiver gone? -/
def isGone : Channel → Bool
  | .gone => true
  | _ => false

/-- Is there no more to come than the news that nothing was sent? -/
def isSpent : Channel → Bool
  | .open _ => false
  | .sent _ => false
  | _ => true

/-- How a channel goes on whose sender is gone without having sent. -/
inductive Fades : Channel → Channel → Prop where
  | stays (ch : Channel) : Fades ch ch
  | told : Fades .abandoned .taken
  | closed (ch : Channel) : Fades ch .gone

theorem Fades.isSpent {ch ch' : Channel} (h : ch.Fades ch') (hch : ch.isSpent = true) :
    ch'.isSpent = true := by
  cases h with
  | stays => exact hch
  | told => rfl
  | closed => rfl

theorem Fades.trans {ch ch' ch'' : Channel} (h : ch.Fades ch') (h' : ch'.Fades ch'') :
    ch.Fades ch'' := by
  cases h' with
  | stays => exact h
  | told =>
    cases h with
    | stays => exact .told
  | closed => exact .closed ch

end Channel

/-- The channels of a world, with all that sends and receives through them. -/
structure Traffic where
  channels : List Channel
  /-- The stored futures, each with its receiver. -/
  futures : Table Future
  /-- The senders, wherever they are. -/
  senders : Multiset ChannelId
  /-- The receivers that are not with a stored future. -/
  receivers : Multiset ChannelId

namespace Traffic

/-- One step. -/
inductive Step : Traffic → Traffic → Prop where
  | created {channels futures senders receivers} :
      Step ⟨channels, futures, senders, receivers⟩
        ⟨channels ++ [.open none], futures, channels.length ::ₘ senders,
          channels.length ::ₘ receivers⟩
  /-- The capability is handed over, and the sender is done. -/
  | sent {channels futures senders receivers} {c : ChannelId} {waker : Option String}
      (h : channels[c]? = some (.open waker)) (g : Grant) :
      Step ⟨channels, futures, c ::ₘ senders, receivers⟩
        ⟨channels.set c (.sent g), futures, senders, receivers⟩
  /-- The sender is dropped, and the receiver can learn of it. -/
  | abandoned {channels futures senders receivers} {c : ChannelId} {waker : Option String}
      (h : channels[c]? = some (.open waker)) :
      Step ⟨channels, futures, c ::ₘ senders, receivers⟩
        ⟨channels.set c .abandoned, futures, senders, receivers⟩
  /-- The sender goes without a word: nobody listens, or the machine is being aborted. -/
  | unheard {channels futures senders receivers} {c : ChannelId} :
      Step ⟨channels, futures, c ::ₘ senders, receivers⟩ ⟨channels, futures, senders, receivers⟩
  /-- A poll finds nothing yet. -/
  | polled {channels futures senders receivers} {c : ChannelId} {waker : Option String}
      (h : channels[c]? = some (.open waker)) (waker' : Option String) :
      Step ⟨channels, futures, senders, receivers⟩
        ⟨channels.set c (.open waker'), futures, senders, receivers⟩
  /-- A poll finds a capability. -/
  | received {channels futures senders receivers} {c : ChannelId} {g : Grant}
      (h : channels[c]? = some (.sent g)) :
      Step ⟨channels, futures, senders, receivers⟩
        ⟨channels.set c .taken, futures, senders, receivers⟩
  /-- A poll finds that the sender was dropped. -/
  | told {channels futures senders receivers} {c : ChannelId}
      (h : channels[c]? = some .abandoned) :
      Step ⟨channels, futures, senders, receivers⟩
        ⟨channels.set c .taken, futures, senders, receivers⟩
  /-- The receiver is dropped. -/
  | closed {channels futures senders receivers} {c : ChannelId} :
      Step ⟨channels, futures, senders, c ::ₘ receivers⟩
        ⟨channels.set c .gone, futures, senders, receivers⟩
  /-- The receiver is dropped when nothing can come any more. -/
  | forgotten {channels futures senders receivers} {c : ChannelId} :
      Step ⟨channels, futures, senders, c ::ₘ receivers⟩ ⟨channels, futures, senders, receivers⟩
  /-- A future is stored, and the one that made room is in hand. -/
  | stored {channels futures senders receivers} (name : String) (f : Future) :
      Step ⟨channels, futures, senders, f.receivers + receivers⟩
        ⟨channels, futures.put name f, senders, displaced futures name + receivers⟩
  /-- A future is taken out of the store. -/
  | fetched {channels futures senders receivers} {name : String} {f : Future}
      (h : futures.get? name = some f) :
      Step ⟨channels, futures, senders, receivers⟩
        ⟨channels, futures.remove name, senders, f.receivers + receivers⟩

/-- Any number of steps. -/
abbrev Run : Traffic → Traffic → Prop := Relation.ReflTransGen Step

/-- The channels with these numbers exist and have a property. -/
def Each (channels : List Channel) (P : Channel → Prop) (numbers : Multiset ChannelId) : Prop :=
  ∀ c ∈ numbers, ∃ ch, channels[c]? = some ch ∧ P ch

/-- The invariant. -/
structure Ok (t : Traffic) : Prop where
  names : t.futures.Sorted
  /-- No channel has two senders, -/
  sendOnce : t.senders.Nodup
  /-- and one that has a sender is open or was closed at the other end. -/
  sending : Each t.channels (·.isUnsent = true) t.senders
  /-- No channel has two receivers, -/
  receiveOnce : (receiversIn t.futures + t.receivers).Nodup
  /-- and one that has a receiver was not closed there. -/
  receiving : Each t.channels (·.isGone = false) (receiversIn t.futures + t.receivers)

/-! ## The invariant is kept -/

namespace Each

variable {channels : List Channel} {P : Channel → Prop} {numbers numbers' : Multiset ChannelId}
  {c : ChannelId}

theorem subset (h : Each channels P numbers) (hs : ∀ c ∈ numbers', c ∈ numbers) :
    Each channels P numbers' := fun c hc => h c (hs c hc)

theorem append (h : Each channels P numbers) (new : Channel) :
    Each (channels ++ [new]) P numbers := by
  intro c hc
  obtain ⟨ch, hch, hP⟩ := h c hc
  have hlt : c < channels.length := (List.getElem?_eq_some_iff.1 hch).1
  exact ⟨ch, by rw [List.getElem?_append_left hlt, hch], hP⟩

/-- The number of the next channel is not in use. -/
theorem fresh (h : Each channels P numbers) : channels.length ∉ numbers := by
  intro hc
  obtain ⟨ch, hch, -⟩ := h _ hc
  simp at hch

theorem created (h : Each channels P numbers) {new : Channel} (hnew : P new) :
    Each (channels ++ [new]) P (channels.length ::ₘ numbers) := by
  intro c hc
  rcases Multiset.mem_cons.1 hc with rfl | hc
  · exact ⟨new, by simp, hnew⟩
  · exact h.append new c hc

/-- A channel that goes on is still there. -/
theorem set (h : Each channels P numbers) {new : Channel} (hnew : c ∉ numbers ∨ P new) :
    Each (channels.set c new) P numbers := by
  intro c' hc'
  obtain ⟨ch, hch, hP⟩ := h c' hc'
  -- the channel that is set is one of theirs, or the numbers are about others
  by_cases heq : c = c'
  · subst heq
    have hlt : c < channels.length := (List.getElem?_eq_some_iff.1 hch).1
    exact ⟨new, List.getElem?_set_self hlt, hnew.resolve_left (not_not_intro hc')⟩
  · exact ⟨ch, by rw [List.getElem?_set_ne heq, hch], hP⟩

end Each

namespace Ok

variable {channels : List Channel} {futures : Table Future} {senders receivers : Multiset ChannelId}
  {c : ChannelId}

/-- A channel through which something was sent, or will never be, has no sender any more. -/
theorem not_mem_senders (h : Ok ⟨channels, futures, senders, receivers⟩) {ch : Channel}
    (hc : channels[c]? = some ch) (hch : ch.isUnsent = false) : c ∉ senders := by
  intro hmem
  obtain ⟨ch', hc', hunsent⟩ := h.sending c hmem
  rw [hc, Option.some.injEq] at hc'
  subst hc'
  simp [hch] at hunsent

/-- A channel goes on in a way that fits the ends it still has. -/
theorem set (h : Ok ⟨channels, futures, senders, receivers⟩) {new : Channel}
    (hsender : c ∉ senders ∨ new.isUnsent = true)
    (hreceiver : c ∉ receiversIn futures + receivers ∨ new.isGone = false) :
    Ok ⟨channels.set c new, futures, senders, receivers⟩ :=
  ⟨h.names, h.sendOnce, h.sending.set hsender, h.receiveOnce, h.receiving.set hreceiver⟩

/-- A sender goes, and it was the only one of its channel. -/
theorem sender_gone (h : Ok ⟨channels, futures, c ::ₘ senders, receivers⟩) :
    c ∉ senders ∧ Ok ⟨channels, futures, senders, receivers⟩ := by
  obtain ⟨hc, hnodup⟩ := Multiset.nodup_cons.1 h.sendOnce
  have hsending := h.sending.subset fun c' hc' => Multiset.mem_cons_of_mem hc'
  exact ⟨hc, h.names, hnodup, hsending, h.receiveOnce, h.receiving⟩

/-- So it is when a receiver goes. -/
theorem receiver_gone (h : Ok ⟨channels, futures, senders, c ::ₘ receivers⟩) :
    c ∉ receiversIn futures + receivers ∧ Ok ⟨channels, futures, senders, receivers⟩ := by
  obtain ⟨names, sendOnce, sending, receiveOnce, receiving⟩ := h
  simp only [Multiset.add_cons] at receiveOnce receiving
  obtain ⟨hc, hnodup⟩ := Multiset.nodup_cons.1 receiveOnce
  have hreceiving := receiving.subset fun c' hc' => Multiset.mem_cons_of_mem hc'
  exact ⟨hc, names, sendOnce, sending, hnodup, hreceiving⟩

/-- Receivers that are stored or fetched change hands, and none of them is lost or doubled. -/
theorem moved (h : Ok ⟨channels, futures, senders, receivers⟩) {futures' : Table Future}
    {receivers' : Multiset ChannelId} (hnames : futures'.Sorted)
    (hsame : receiversIn futures' + receivers' = receiversIn futures + receivers) :
    Ok ⟨channels, futures', senders, receivers'⟩ :=
  ⟨hnames, h.sendOnce, h.sending, hsame ▸ h.receiveOnce, hsame ▸ h.receiving⟩

/-- The ends of a new channel are the only ones with its number. -/
theorem created (h : Ok ⟨channels, futures, senders, receivers⟩) :
    Ok ⟨channels ++ [.open none], futures, channels.length ::ₘ senders,
      channels.length ::ₘ receivers⟩ := by
  obtain ⟨names, sendOnce, sending, receiveOnce, receiving⟩ := h
  -- every number in use is below the length, so the new one is not in use
  refine ⟨names, ?_, sending.created rfl, ?_, ?_⟩
  · exact Multiset.nodup_cons.2 ⟨sending.fresh, sendOnce⟩
  · rw [Multiset.add_cons]
    exact Multiset.nodup_cons.2 ⟨receiving.fresh, receiveOnce⟩
  · show Each _ _ (_ + _ ::ₘ _)
    rw [Multiset.add_cons]
    exact receiving.created rfl

end Ok

variable {t t' : Traffic}

theorem Step.ok (h : Step t t') (ht : t.Ok) : t'.Ok := by
  cases h with
  | created => exact ht.created
  | sent h g =>
    obtain ⟨hnone, hok⟩ := ht.sender_gone
    exact hok.set (.inl hnone) (.inr rfl)
  | abandoned h =>
    obtain ⟨hnone, hok⟩ := ht.sender_gone
    exact hok.set (.inl hnone) (.inr rfl)
  | unheard => exact ht.sender_gone.2
  | polled h waker' => exact ht.set (.inr rfl) (.inr rfl)
  -- a channel that may no longer have a sender has none
  | received h => exact ht.set (.inl (ht.not_mem_senders h rfl)) (.inr rfl)
  | told h => exact ht.set (.inl (ht.not_mem_senders h rfl)) (.inr rfl)
  | closed =>
    -- the sender may still be there: it will find nobody who listens
    obtain ⟨hnone, hok⟩ := ht.receiver_gone
    exact hok.set (.inr rfl) (.inl hnone)
  | forgotten => exact ht.receiver_gone.2
  | stored name f =>
    refine ht.moved (ht.names.put name f) ?_
    rw [← add_assoc, Table.receiversIn_put ht.names, add_assoc]
  | fetched h =>
    refine ht.moved (ht.names.remove _) ?_
    rw [← add_assoc, Table.receiversIn_remove ht.names h]

theorem Run.ok (h : Run t t') (ht : t.Ok) : t'.Ok := by
  induction h with
  | refl => exact ht
  | tail _ hs ih => exact hs.ok ih

/-! ## A channel without a sender -/

variable {c : ChannelId}

theorem Step.length_le (h : Step t t') : t.channels.length ≤ t'.channels.length := by
  cases h <;> simp

theorem Run.length_le (h : Run t t') : t.channels.length ≤ t'.channels.length := by
  induction h with
  | refl => exact Nat.le_refl _
  | tail _ hstep ih => exact Nat.le_trans ih hstep.length_le

/-- A channel that has no sender does not get one. -/
theorem Step.no_sender (h : Step t t') (hc : c < t.channels.length) (hs : c ∉ t.senders) :
    c < t'.channels.length ∧ c ∉ t'.senders := by
  refine ⟨Nat.lt_of_lt_of_le hc h.length_le, ?_⟩
  cases h with
  | created =>
    rw [Multiset.mem_cons, not_or]
    exact ⟨Nat.ne_of_lt hc, hs⟩
  | sent => exact fun hmem => hs (Multiset.mem_cons_of_mem hmem)
  | abandoned => exact fun hmem => hs (Multiset.mem_cons_of_mem hmem)
  | unheard => exact fun hmem => hs (Multiset.mem_cons_of_mem hmem)
  | _ => exact hs

/-- Once its sender is gone without having sent, a channel fades. -/
theorem Step.fades (h : Step t t') {ch : Channel} (hc : t.channels[c]? = some ch)
    (hspent : ch.isSpent = true) : ∃ ch', t'.channels[c]? = some ch' ∧ ch.Fades ch' := by
  have hlt : c < t.channels.length := (List.getElem?_eq_some_iff.1 hc).1
  -- another channel than this one is worked on, or this one goes on as it may
  have hset : ∀ (c' : ChannelId) (new : Channel), (c' = c → ch.Fades new) →
      ∃ ch', (t.channels.set c' new)[c]? = some ch' ∧ ch.Fades ch' := by
    intro c' new hnew
    by_cases heq : c' = c
    · subst heq
      exact ⟨new, List.getElem?_set_self hlt, hnew rfl⟩
    · exact ⟨ch, by rw [List.getElem?_set_ne heq, hc], .stays ch⟩
  have hother : ∀ {c' : ChannelId} {old : Channel}, t.channels[c']? = some old →
      old.isSpent = false →
        ∀ new, ∃ ch', (t.channels.set c' new)[c]? = some ch' ∧ ch.Fades ch' := by
    intro c' old hold hnot new
    refine hset c' new ?_
    rintro rfl
    rw [hc, Option.some.injEq] at hold
    simp [hold, hnot] at hspent
  cases h with
  | created => exact ⟨ch, by rw [List.getElem?_append_left hlt, hc], .stays ch⟩
  | sent h g => exact hother h rfl _
  | abandoned h => exact hother h rfl _
  | polled h waker' => exact hother h rfl _
  | received h => exact hother h rfl _
  | told h =>
    refine hset _ _ ?_
    rintro rfl
    rw [hc, Option.some.injEq] at h
    exact h ▸ .told
  | closed => exact hset _ _ fun _ => .closed ch
  | _ => exact ⟨ch, hc, .stays ch⟩

theorem Run.no_sender (h : Run t t') (hc : c < t.channels.length) (hs : c ∉ t.senders) :
    c < t'.channels.length ∧ c ∉ t'.senders := by
  induction h with
  | refl => exact ⟨hc, hs⟩
  | tail _ hstep ih => exact hstep.no_sender ih.1 ih.2

theorem Run.fades (h : Run t t') {ch : Channel} (hc : t.channels[c]? = some ch)
    (hspent : ch.isSpent = true) : ∃ ch', t'.channels[c]? = some ch' ∧ ch.Fades ch' := by
  induction h with
  | refl => exact ⟨ch, hc, .stays ch⟩
  | tail _ hstep ih =>
    obtain ⟨between, hbetween, hfades⟩ := ih
    obtain ⟨last, hlast, hfades'⟩ := hstep.fades hbetween (hfades.isSpent hspent)
    exact ⟨last, hlast, hfades.trans hfades'⟩

/-! ## A channel without a receiver -/

/-- A channel that has no receiver does not get one. -/
theorem Step.no_receiver (h : Step t t') (ht : t.Ok) (hc : c < t.channels.length)
    (hr : c ∉ receiversIn t.futures + t.receivers) :
    c ∉ receiversIn t'.futures + t'.receivers := by
  -- a receiver is made with its channel,
  -- and moves between the table and the hands of a frame after that
  cases h with
  | created =>
    rw [Multiset.add_cons, Multiset.mem_cons, not_or]
    exact ⟨Nat.ne_of_lt hc, hr⟩
  | closed =>
    rw [Multiset.add_cons, Multiset.mem_cons, not_or] at hr
    exact hr.2
  | forgotten =>
    rw [Multiset.add_cons, Multiset.mem_cons, not_or] at hr
    exact hr.2
  -- moved, not copied: stored and held receivers together are the same
  | stored name f =>
    rw [← add_assoc, Table.receiversIn_put ht.names, add_assoc]
    exact hr
  | fetched h =>
    rw [← add_assoc, Table.receiversIn_remove ht.names h]
    exact hr
  | _ => exact hr

theorem Run.no_receiver (h : Run t t') (ht : t.Ok) (hc : c < t.channels.length)
    (hr : c ∉ receiversIn t.futures + t.receivers) :
    c ∉ receiversIn t'.futures + t'.receivers := by
  induction h with
  | refl => exact hr
  | tail hrun hstep ih =>
    exact hstep.no_receiver (Run.ok hrun ht) (Nat.lt_of_lt_of_le hc (Run.length_le hrun)) ih

end Traffic

end FairLock
