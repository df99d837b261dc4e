import FairLock.Proofs.Machine.Subruns
import FairLock.Proofs.Machine.Traffic

/-!
# Futures whose requests are dropped

A future that waits for a capability learns that its request was dropped without being started, and
learns it once.  It is never given anything else: what could still be sent to it would have to come
from a second sender.

## Main definitions

- `Machine.Drops`: an entry is dropped uncalled now.
- `Machine.Told`: a future has learned that its request was dropped.

## Main statements

- `Machine.Drops.not_sent`: nothing is ever sent through the channel.
- `Machine.Drops.abandoned_or_told`: what a future finds that waits for it.
- `World.poll_of_abandoned`: what a poll says then.
-/

namespace FairLock

namespace World

variable {w : World} {c : ChannelId}

theorem channel_of_getElem? {ch : Channel} (h : w.channels[c]? = some ch) : w.channel c = ch := by
  rw [channel, List.getD_eq_getElem?_getD, h, Option.getD_some]

/-- A property of the channels that have an end is one of each. -/
theorem channel_of_each {P : Channel → Prop} {numbers : Multiset ChannelId}
    (h : Traffic.Each w.channels P numbers) (hc : c ∈ numbers) : P (w.channel c) := by
  obtain ⟨ch, hch, hP⟩ := h c hc
  exact channel_of_getElem? hch ▸ hP

theorem mem_receivers {f : Future} (h : c ∈ f.receivers) :
    f = .acquire (.accepted c) ∨ ∃ work, f = .run work (.waiting c) := by
  cases f with
  | acquire acquisition =>
    cases acquisition with
    | accepted c' => exact .inl (by rw [Multiset.mem_singleton.1 h])
    | refused failure => exact absurd h (Multiset.notMem_zero c)
  | run work stage =>
    cases stage with
    | waiting c' => exact .inr ⟨work, by rw [Multiset.mem_singleton.1 h]⟩
    | _ => exact absurd h (Multiset.notMem_zero c)

theorem mem_receiversIn {t : Table Future} {name : String} {f : Future}
    (h : t.get? name = some f) (hc : c ∈ f.receivers) : c ∈ receiversIn t := by
  -- the first future of that name is the one that is found
  induction t with
  | nil => simp at h
  | cons first rest ih =>
    obtain ⟨n, v⟩ := first
    rw [Table.get?_cons] at h
    rw [receiversIn, Multiset.mem_add]
    split at h
    · cases h
      exact .inl hc
    · exact .inr (ih h)

/-- A poll of a future whose request was dropped says so. -/
theorem poll_of_abandoned {name : String} {f : Future} (h : w.futures.get? name = some f)
    (hf : c ∈ f.receivers) (hc : w.channel c = .abandoned) :
    (w.poll name).control = .returned (.failed .abandoned) := by
  -- a future hears from a channel directly, or through the work that waits for its grant
  rcases mem_receivers hf with rfl | ⟨work, rfl⟩
  · have hreceive : w.receive c name = (w.setChannel c .taken, .abandoned) := by
      simp [receive, hc]
    simp [poll, h, pollAcquire, hreceive, reply]
  -- a running future is taken out of the table for its poll, which leaves the channels as they are
  · have hfetched : ({ w with futures := w.futures.remove name } : World).channel c =
        .abandoned := hc
    have hreceive : ({ w with futures := w.futures.remove name } : World).receive c name =
        (({ w with futures := w.futures.remove name } : World).setChannel c .taken,
          .abandoned) := by
      simp [receive, hfetched]
    simp [poll, h, pollRun, awaitGrant, hreceive, reply]

end World

namespace Machine

variable {m m' x : Machine} {c : ChannelId}

/-- A future that is stored has not closed its channel. -/
theorem Reachable.not_gone (h : m.Reachable) {name : String} {f : Future}
    (hf : m.world.futures.get? name = some f) (hc : c ∈ f.receivers) :
    m.world.channel c ≠ .gone := by
  intro hgone
  have hmem : c ∈ receiversIn m.traffic.futures + m.traffic.receivers :=
    Multiset.mem_add.2 (.inl (World.mem_receiversIn hf hc))
  have hopen : (m.world.channel c).isGone = false :=
    World.channel_of_each h.traffic_ok.receiving hmem
  simp [hgone, Channel.isGone] at hopen

/-- Between two machines a future has received its result from the channel, and the result was that
    its request had been dropped. -/
def Told (m m' : Machine) (c : ChannelId) : Prop :=
  ∃ before after, Reaches m before ∧ Next before after ∧ Reaches after m' ∧
    before.world.channel c = .abandoned ∧ after.world.channel c = .taken

/-- An entry is dropped uncalled now, after its grant was handed back. -/
inductive Drops : Machine → Grant → Entry → Prop where
  | mk {w : World} {g : Grant} {entry : Entry} {below : List Frame} {reply : Reply} :
      Drops ⟨w, .discarding g entry :: below, .returned reply⟩ g entry

namespace Drops

variable {g : Grant} {y : Machine}

theorem mem_senders (h : x.Drops g (.sender c)) : c ∈ x.traffic.senders := by
  cases h
  simp [traffic, World.traffic, sendersOf, Frame.senders, Entry.senders]

/-- The next thing that happens is the drop. -/
theorem eq_or_reaches {entry : Entry} (h : x.Drops g entry) (hy : Reaches x y) :
    y = x ∨ Reaches x.step y := by
  refine hy.eq_or_step ?_
  cases h
  simp

/-- The future at the other end is told, unless it is gone. -/
theorem channel_step (h : x.Drops g (.sender c)) (hx : x.Reachable) :
    ∃ ch, x.step.world.channels[c]? = some ch ∧ (ch = .abandoned ∨ ch = .gone) := by
  -- a sender that was not used belongs to a channel that nothing was sent on
  obtain ⟨ch, hch, hunsent⟩ := hx.traffic_ok.sending c h.mem_senders
  cases h with
  | @mk w g _ below reply =>
    have hch' : w.channels[c]? = some ch := hch
    have hlt : c < w.channels.length := (List.getElem?_eq_some_iff.1 hch').1
    show ∃ ch, (w.discard (some g) (.sender c)).channels[c]? = some ch ∧ _
    have hchannel : (w.emit (.discarded (some g) none)).channel c = ch :=
      World.channel_of_getElem? hch'
    unfold World.discard
    simp only [hchannel]
    -- either somebody still listens and is told, or the receiver is gone; anything else was sent
    cases ch with
    | «open» waker =>
      refine ⟨.abandoned, ?_, .inl rfl⟩
      have hset : (w.channels.set c .abandoned)[c]? = some .abandoned := List.getElem?_set_self hlt
      cases waker <;> exact hset
    | gone => exact ⟨.gone, hch', .inr rfl⟩
    | _ => simp [Channel.isUnsent] at hunsent

/-- From then on the future finds that its request was dropped, or has found it already. -/
theorem abandoned_or_told (h : x.Drops g (.sender c)) (hx : x.Reachable)
    (hy : Reaches x.step y) :
    ∃ ch, y.world.channels[c]? = some ch ∧
      (ch = .abandoned ∨ ch = .taken ∧ x.step.Told y c ∨ ch = .gone) := by
  induction hy with
  | refl =>
    obtain ⟨ch, hch, hor⟩ := h.channel_step hx
    exact ⟨ch, hch, hor.imp_right .inr⟩
  | @tail y z hxy hn ih =>
    obtain ⟨ch, hch, hor⟩ := ih
    have hspent : ch.isSpent = true := by
      rcases hor with rfl | ⟨rfl, -⟩ | rfl <;> rfl
    obtain ⟨ch', hch', hfades⟩ := hn.traffic.fades hch hspent
    refine ⟨ch', hch', ?_⟩
    -- the one step that tells the future is remembered
    rcases hor with rfl | ⟨rfl, before, after, hbefore, hn', hafter, hchannels⟩ | rfl
    · cases hfades with
      | stays => exact .inl rfl
      | told =>
        exact .inr (.inl ⟨rfl, y, z, hxy, hn, .refl, World.channel_of_getElem? hch,
          World.channel_of_getElem? hch'⟩)
      | closed => exact .inr (.inr rfl)
    · cases hfades with
      | stays => exact .inr (.inl ⟨rfl, before, after, hbefore, hn', hafter.tail hn, hchannels⟩)
      | closed => exact .inr (.inr rfl)
    · cases hfades with
      | stays => exact .inr (.inr rfl)
      | closed => exact .inr (.inr rfl)

/-- Nothing is sent through a channel whose sender is dropped in the end. -/
theorem not_sent (h : x.Drops g (.sender c)) (hx : x.Reachable) (hy : y.Reachable)
    (hold : c < y.world.channels.length) (horder : Reaches y x ∨ Reaches x y) (g' : Grant) :
    y.world.channel c ≠ .sent g' := by
  -- while the sender is there, nothing was sent
  have hunsent : c ∈ y.traffic.senders → y.world.channel c ≠ .sent g' := by
    intro hmem hsent
    have hwaits : (y.world.channel c).isUnsent = true :=
      World.channel_of_each hy.traffic_ok.sending hmem
    simp [hsent, Channel.isUnsent] at hwaits
  rcases horder with hbefore | hafter
  · -- it was there before, since it does not come back
    refine hunsent ?_
    by_contra hnone
    exact ((traffic_reaches hbefore).no_sender hold hnone).2 h.mem_senders
  · rcases h.eq_or_reaches hafter with rfl | hafter
    · exact hunsent h.mem_senders
    · obtain ⟨ch, hch, hor⟩ := h.abandoned_or_told hx hafter
      rw [World.channel_of_getElem? hch]
      rcases hor with rfl | ⟨rfl, -⟩ | rfl <;> simp

end Drops

end Machine

end FairLock
