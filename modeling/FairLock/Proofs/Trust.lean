import FairLock.Proofs.Machine.Keeping
import FairLock.Proofs.Serving

/-!
# Capabilities that are in trust stay alive

A grant whose capability is in trust is unended: there is one capability for it only, no task has
that one, and the boundary inside which it was sent has been left.  So nobody but the future for
which it was sent can end the grant.

## Main definitions

- `Machine.trust`: the grants whose capabilities are in trust.
- `Machine.Trusted`: the invariant.

## Main statements

- `Machine.Reachable.trusted`.
- `Machine.Reachable.unended_of_working`, `Machine.Reachable.unended_of_stored`: futures with work
  hold their grants.
-/

namespace FairLock

namespace World

variable {w : World} {g : Grant}

/-- No entry point of a grant with that number was started. -/
def Unheard (w : World) (g : Grant) : Prop := ∀ g', g'.Like g → ¬w.Knows g'

/-- What a task has is worth something. -/
theorem WellFormed.knows_of_owns (h : w.WellFormed) (hg : w.Owns g) : w.Knows g :=
  hg.elim (h.owned g) fun ⟨name, hstored⟩ => h.store (name, g) hstored

theorem mem_sentIn {channels : List Channel} (hg : g ∈ sentIn channels) :
    ∃ ch ∈ channels, g ∈ ch.held := by
  induction channels with
  | nil => simp [sentIn] at hg
  | cons first rest ih =>
    have hsum : sentIn (first :: rest) = (first.held : Multiset Grant) + sentIn rest := by
      simp [sentIn]
    -- the first channel holds it or one behind it does
    rw [hsum, Multiset.mem_add] at hg
    rcases hg with hg | hg
    · exact ⟨first, List.mem_cons_self, by simpa using hg⟩
    · obtain ⟨ch, hch, hheld⟩ := ih hg
      exact ⟨ch, List.mem_cons_of_mem _ hch, hheld⟩

theorem mem_sentIn_of_channel {c : ChannelId} (h : w.channel c = .sent g) :
    g ∈ sentIn w.channels := by
  have hset := sentIn_set w.channels c .taken
  have hheld : w.channels.getD c .gone = .sent g := h
  rw [hheld] at hset
  have hmem := Multiset.mem_of_le hset (Multiset.mem_add.2 (.inr (List.mem_singleton_self g)))
  exact (Multiset.mem_add.1 hmem).resolve_right (Multiset.notMem_zero g)

theorem mem_workingsIn {t : Table Future} (hg : g ∈ workingsIn t) :
    ∃ entry ∈ t, g ∈ entry.2.held := by
  induction t with
  | nil => simp [workingsIn, Table.gathered] at hg
  | cons first rest ih =>
    obtain ⟨name, f⟩ := first
    have hsum : workingsIn ((name, f) :: rest) = (f.held : Multiset Grant) + workingsIn rest := rfl
    -- the same with the futures of the table
    rw [hsum, Multiset.mem_add] at hg
    rcases hg with hg | hg
    · exact ⟨(name, f), List.mem_cons_self, by simpa using hg⟩
    · obtain ⟨entry, hentry, hheld⟩ := ih hg
      exact ⟨entry, List.mem_cons_of_mem _ hentry, hheld⟩

theorem mem_workingsIn_of_get? {t : Table Future} {name : String} {f : Future}
    (h : t.get? name = some f) (hg : g ∈ f.held) : g ∈ workingsIn t := by
  induction t with
  | nil => simp at h
  | cons first rest ih =>
    obtain ⟨n, v⟩ := first
    have hsum : workingsIn ((n, v) :: rest) = (v.held : Multiset Grant) + workingsIn rest := rfl
    rw [hsum, Multiset.mem_add]
    rw [Table.get?_cons] at h
    -- the first entry of the name is the future that is found
    split at h
    · cases h
      exact .inl (by simpa using hg)
    · exact .inr (ih h)

end World

theorem mem_workingsOf {frames : List Frame} {g : Grant} :
    g ∈ workingsOf frames ↔ ∃ f ∈ frames, g ∈ f.held := by
  induction frames with
  | nil => simp
  | cons f rest ih => simp [ih]

namespace Machine

variable {m m' : Machine} {g : Grant}

/-- The grants whose capabilities are in trust. -/
def trust (m : Machine) : Multiset Grant := m.world.trust + workingsOf m.frames

/-- There is one capability only for each grant whose capability is in trust, and nobody else can
    end the grant. -/
structure Trusted (m : Machine) : Prop where
  nodup : m.trust.Nodup
  unended : ∀ g ∈ m.trust, m.world.isUnended g = true
  alone : ∀ g ∈ m.trust, ¬m.world.Owns g
  bounds : ∀ g ∈ m.trust, .invocation g ∉ pastHead m.control m.frames

/-! ## Grants that are known -/

/-- Every frame can rely on the world but those that clean up after an unwound loop. -/
theorem supported_of_mem {w : World} {frames : List Frame} (h : StackOk w frames) {f : Frame}
    (hf : f ∈ frames) :
    f.Supported w ∨ (∃ lock items, f = .handingBack lock items) ∨
      ∃ g entry, f = .discarding g entry := by
  -- down the stack as it was put up; only two kinds of frames are not supported
  induction h with
  | nil => cases hf
  | frame hsupported _ ih =>
    rcases List.mem_cons.1 hf with rfl | hf
    · exact .inl hsupported
    · exact ih hf
  | handingBack hlock _ ih =>
    rcases List.mem_cons.1 hf with rfl | hf
    · exact .inr (.inl ⟨_, _, rfl⟩)
    · rcases List.mem_cons.1 hf with rfl | hf
      · exact .inl trivial
      · exact ih hf
  | discarding _ ih =>
    rcases List.mem_cons.1 hf with rfl | hf
    · exact .inr (.inr ⟨_, _, rfl⟩)
    · exact ih hf

theorem Ok.knows_of_invocation (h : m.Ok) (hg : .invocation g ∈ m.frames) : m.world.Knows g := by
  rcases supported_of_mem h.stack hg with hg | ⟨_, _, hg⟩ | ⟨_, _, hg⟩
  · exact hg
  · cases hg
  · cases hg

theorem Ok.knows_of_held (h : m.Ok) {f : Frame} (hf : f ∈ m.frames) (hg : g ∈ f.held) :
    m.world.Knows g := by
  cases f with
  | working name work g' last rest =>
    obtain rfl := Multiset.mem_singleton.1 hg
    rcases supported_of_mem h.stack hf with hf | ⟨_, _, hf⟩ | ⟨_, _, hf⟩
    · exact hf.2
    · cases hf
    · cases hf
  | _ => exact absurd hg (Multiset.notMem_zero g)

/-- A capability that is in trust is worth something. -/
theorem Ok.knows_of_trust (h : m.Ok) (hg : g ∈ m.trust) : m.world.Knows g := by
  simp only [trust, World.trust, Multiset.mem_add] at hg
  rcases hg with (hg | hg) | hg
  · obtain ⟨ch, hch, hheld⟩ := World.mem_sentIn hg
    exact h.world.channels ch hch g hheld
  · obtain ⟨entry, hentry, hheld⟩ := World.mem_workingsIn hg
    exact (h.world.futures entry hentry).1 g hheld
  · obtain ⟨f, hf, hheld⟩ := mem_workingsOf.1 hg
    exact h.knows_of_held hf hheld

/-- Two grants that were started are the same if they have the same number. -/
theorem Reachable.eq_of_like (h : m.Reachable) {g' : Grant} (hg : m.world.Knows g)
    (hg' : m.world.Knows g') (hlike : g'.Like g) : g' = g := by
  have hlock : g'.lock = g.lock := hlike.1
  have hissued := h.issued_of_started hg.2
  have hissued' := h.issued_of_started hg'.2
  rw [hlock] at hissued'
  have hbalanced := h.balanced g.lock
  exact hbalanced.eq_of_id_eq (hbalanced.issued_sublist.subset hissued')
    (hbalanced.issued_sublist.subset hissued) hlike.2

/-- Of a grant that was issued and whose entry point was not started nobody has heard. -/
theorem Reachable.unheard_of_issued (h : m.Reachable) (hg : g ∈ (m.world.journal g.lock).issued)
    (hnot : g ∉ (m.world.journal g.lock).started) : m.world.Unheard g := by
  intro g' hlike hknown
  have hlock : g'.lock = g.lock := hlike.1
  have hissued := h.issued_of_started hknown.2
  have hstarted := hknown.2
  rw [hlock] at hissued hstarted
  have hbalanced := h.balanced g.lock
  have heq := hbalanced.eq_of_id_eq (hbalanced.issued_sublist.subset hissued)
    (hbalanced.issued_sublist.subset hg) hlike.2
  exact hnot (heq ▸ hstarted)

/-- Nobody has heard of the next grant of a lock. -/
theorem Reachable.unheard_of_next (h : m.Reachable)
    (hnext : g.id = (m.world.lock g.lock).core.nextId) : m.world.Unheard g := by
  intro g' hlike hknown
  have hlock : g'.lock = g.lock := hlike.1
  have hissued := h.issued_of_started hknown.2
  rw [hlock] at hissued
  have hbalanced := h.balanced g.lock
  have hlt := hbalanced.id_lt_nextId (hbalanced.issued_sublist.subset hissued)
  rw [hlike.2, hnext] at hlt
  exact Nat.lt_irrefl _ hlt

/-! ## What a move preserves -/

end Machine

/-- What may come into being by a move: one grant at most, of which nobody has heard. -/
def World.Births (w : World) (born : Multiset Grant) : Prop :=
  born = 0 ∨ ∃ g, born = {g} ∧ w.Unheard g

theorem World.Births.unheard {w : World} {born : Multiset Grant} {g : Grant} (h : w.Births born)
    (hg : g ∈ born) : w.Unheard g := by
  rcases h with rfl | ⟨g', rfl, hunheard⟩
  · exact absurd hg (Multiset.notMem_zero g)
  · rwa [Multiset.mem_singleton.1 hg]

namespace Machine

variable {m m' : Machine} {g : Grant}

/-- What comes into being is not in trust already. -/
theorem Trusted.nodup_births (h : m.Trusted) (hm : m.Reachable) {born : Multiset Grant}
    (hborn : m.world.Births born) : (m.trust + born).Nodup := by
  rcases hborn with rfl | ⟨g, rfl, hunheard⟩
  · simpa using h.nodup
  · rw [add_comm, Multiset.singleton_add, Multiset.nodup_cons]
    exact ⟨fun hg => hunheard g (.refl g) (hm.exists_ledger.1.knows_of_trust hg), h.nodup⟩

/-- A capability in trust or coming into being has no double with a task. -/
theorem Trusted.not_owns (h : m.Trusted) (hm : m.Reachable) {born : Multiset Grant}
    (hborn : m.world.Births born) (hg : g ∈ m.trust + born) {g' : Grant} (hlike : g'.Like g) :
    ¬m.world.Owns g' := by
  intro howns
  have hok := hm.exists_ledger.1
  have hknown := hok.world.knows_of_owns howns
  rcases Multiset.mem_add.1 hg with hg | hg
  · obtain rfl := hm.eq_of_like (hok.knows_of_trust hg) hknown hlike
    exact h.alone _ hg howns
  · exact hborn.unheard hg g' hlike hknown

/-- Nor is there another capability in trust with its number. -/
theorem Trusted.eq_of_like (hm : m.Reachable) {born : Multiset Grant}
    (hborn : m.world.Births born) (hg : g ∈ m.trust + born) {g' : Grant}
    (hg' : g' ∈ m.trust + born) (hlike : g'.Like g) : g' = g := by
  have hok := hm.exists_ledger.1
  -- both in trust before, one of them new, or both new
  rcases Multiset.mem_add.1 hg with hg | hg
  · rcases Multiset.mem_add.1 hg' with hg' | hg'
    · exact hm.eq_of_like (hok.knows_of_trust hg) (hok.knows_of_trust hg') hlike
    · exact absurd (hok.knows_of_trust hg) (hborn.unheard hg' g ⟨hlike.1.symm, hlike.2.symm⟩)
  · rcases Multiset.mem_add.1 hg' with hg' | hg'
    · exact absurd (hok.knows_of_trust hg') (hborn.unheard hg g' hlike)
    · rcases hborn with rfl | ⟨other, rfl, -⟩
      · exact absurd hg (Multiset.notMem_zero g)
      · exact (Multiset.mem_singleton.1 hg').trans (Multiset.mem_singleton.1 hg).symm

/-- A move that was given what the topmost frame has, on top of the other frames. -/
theorem Trusted.ofMove (h : m.Trusted) (hm : m.Reachable) {move : Move}
    {given born : Multiset Grant} {below : List Frame}
    (htrust : m.trust = m.world.trust + given + workingsOf below)
    (hbelow : ∀ g, .invocation g ∈ below → .invocation g ∈ pastHead m.control m.frames)
    (hborn : m.world.Births born) (hkeeps : move.Keeps m.world given born) :
    (ofMove move below).Trusted := by
  obtain ⟨lost, hcustody, hbounds⟩ := hkeeps
  have htotal : (Machine.ofMove move below).trust + lost ≤ m.trust + born :=
    calc (Machine.ofMove move below).trust + lost
        = move.world.trust + workingsOf move.frames + lost + workingsOf below := by
          simp only [trust, Machine.ofMove, workingsOf_append]
          ac_rfl
      _ ≤ m.world.trust + given + born + workingsOf below := add_le_add_left hcustody.balance _
      _ = m.trust + born := by
          rw [htrust]
          ac_rfl
  have hnodup := Multiset.nodup_of_le htotal (h.nodup_births hm hborn)
  have hmem : ∀ g ∈ (Machine.ofMove move below).trust + lost, g ∈ m.trust + born := fun g =>
    Multiset.mem_of_le htotal
  -- what got lost is in trust no more
  have hlost : ∀ g ∈ (Machine.ofMove move below).trust, g ∉ lost := fun g hg hlost =>
    Multiset.disjoint_left.1 (Multiset.nodup_add.1 hnodup).2.2 hg hlost
  have hold : ∀ g ∈ (Machine.ofMove move below).trust, g ∈ m.trust + born := fun g hg =>
    hmem g (Multiset.mem_add.2 (.inl hg))
  refine ⟨(Multiset.nodup_add.1 hnodup).1, ?_, ?_, ?_⟩
  · intro g hg
    have hbefore : m.world.isUnended g = true ∨ g ∈ born :=
      (Multiset.mem_add.1 (hold g hg)).imp_left (h.unended g)
    rcases hcustody.alive g hbefore with hunended | ⟨g', hlike, howns | hgone⟩
    · exact hunended
    · exact absurd howns (h.not_owns hm hborn (hold g hg) hlike)
    · obtain rfl := Trusted.eq_of_like hm hborn (hold g hg)
        (hmem g' (Multiset.mem_add.2 (.inr hgone))) hlike
      exact absurd hgone (hlost _ hg)
  · intro g hg howns
    rcases hcustody.owns g howns with howns | hgone
    · exact h.not_owns hm hborn (hold g hg) (.refl g) howns
    · exact hlost g hg hgone
  · intro g hg hbound
    rcases mem_pastHead_append hbound with hbound | hbound
    · rcases hbounds g hbound with howns | hgone
      · exact h.not_owns hm hborn (hold g hg) (.refl g) howns
      · exact hlost g hg hgone
    · have hpast := hbelow g hbound
      rcases Multiset.mem_add.1 (hold g hg) with hg | hg
      · exact h.bounds g hg hpast
      · have hknown := hm.exists_ledger.1.knows_of_invocation (mem_of_mem_pastHead hpast)
        exact hborn.unheard hg g (.refl g) hknown

/-- A boundary ends a grant only that is not in trust. -/
theorem Trusted.contain {w : World} {below : List Frame} {fault : Fault}
    (h : Trusted ⟨w, .invocation g :: below, .unwinding fault⟩)
    (hm : Reachable ⟨w, .invocation g :: below, .unwinding fault⟩) :
    (Machine.ofMove ((Frame.invocation g).unwind w fault) below).Trusted := by
  have hbelow : ∀ g', .invocation g' ∈ below →
      .invocation g' ∈ pastHead (.unwinding fault) (.invocation g :: below) := fun g' hmem =>
    List.mem_cons_of_mem _ hmem
  have hleft : w.Keeps 0 0 w.leaveSpan 0 := .of_locks rfl rfl rfl rfl rfl
  have htrust : trust ⟨w, .invocation g :: below, .unwinding fault⟩ =
      w.trust + 0 + workingsOf below := by simp [trust, Frame.held]
  simp only [Frame.unwind, World.contain]
  -- destroyed with a panic, the failure leaves the boundary as it finds it
  split
  · exact h.ofMove hm htrust hbelow (.inl rfl) (.of_world hleft)
  -- contained, it ends the grant, and puts nothing on the stack that is in trust
  · obtain ⟨locks, history, hworld⟩ := w.leaveSpan.endGrant_world g
    have hordinary : ∀ f ∈ (w.leaveSpan.endGrant g).frames ++
        [Frame.reporting g (fault.failure g.id g.mode)], f.isOrdinary = true := by
      intro f hf
      rcases List.mem_append.1 hf with hf | hf
      · exact w.leaveSpan.ordinary_endGrant g f hf
      · rw [List.mem_singleton.1 hf]
        rfl
    have hsame : (Machine.ofMove ((w.leaveSpan.endGrant g).before
        [.reporting g (fault.failure g.id g.mode)]) below).trust = w.trust + workingsOf below := by
      simp only [trust, Machine.ofMove, Move.world_before, Move.frames_before,
        workingsOf_append _ below, workingsOf_of_ordinary hordinary, hworld, zero_add]
      rfl
    have hold : ∀ g' ∈ w.trust + workingsOf below,
        g' ∈ trust ⟨w, .invocation g :: below, .unwinding fault⟩ := by
      intro g' hg'
      rwa [htrust, add_zero]
    refine ⟨?_, ?_, ?_, ?_⟩
    · rw [hsame, ← add_zero w.trust, ← htrust]
      exact h.nodup
    · intro g' hg'
      rw [hsame] at hg'
      have hunended : w.leaveSpan.isUnended g' = true := h.unended g' (hold g' hg')
      -- only a grant like the one of the boundary could end with it
      rcases World.isUnended_endGrant hunended with hunended | hlike
      · exact hunended
      · have hok := hm.exists_ledger.1
        obtain rfl := hm.eq_of_like (hok.knows_of_trust (hold g' hg'))
          (hok.knows_of_invocation List.mem_cons_self) hlike
        exact absurd List.mem_cons_self (h.bounds _ (hold _ hg'))
    · intro g' hg' howns
      rw [hsame] at hg'
      refine h.alone g' (hold g' hg') ?_
      have howns' : (w.leaveSpan.endGrant g).world.Owns g' := howns
      -- to own a capability is not a matter of the locks or of the history
      rwa [hworld] at howns'
    · intro g' hg' hbound
      rw [hsame] at hg'
      refine h.bounds g' (hold g' hg') (hbelow g' ?_)
      rcases List.mem_append.1 (mem_of_mem_pastHead hbound) with hbound | hbound
      · exact absurd (hordinary _ hbound) Bool.false_ne_true
      · exact hbound

/-- A loop works off its run list: what it starts was issued before, and nobody has heard of it. -/
theorem Trusted.dispatch {w : World} {lock : LockId} {outcome : Option Reply} {below : List Frame}
    {reply : Reply} (h : Trusted ⟨w, .dispatching lock outcome :: below, .returned reply⟩)
    (hm : Reachable ⟨w, .dispatching lock outcome :: below, .returned reply⟩) :
    (Machine.ofMove ((Frame.dispatching lock outcome).resume w reply) below).Trusted := by
  have htrust : trust ⟨w, .dispatching lock outcome :: below, .returned reply⟩ =
      w.trust + 0 + workingsOf below := by simp [trust, Frame.held]
  simp only [Frame.resume]
  -- the loop closes its list, or starts a request that was issued long before
  cases hnext : (w.lock lock).next w.thread with
  | none =>
    exact h.ofMove hm htrust (fun _ hmem => hmem) (.inl rfl) (World.keeps_dispatch_none hnext _)
  | some found =>
    obtain ⟨r, l⟩ := found
    obtain ⟨out, -, hsound⟩ := hm.sound lock
    obtain ⟨before, deferred, after, -, hruns, -⟩ := Lock.next_cases hnext
    have hdeferred : r.grant lock ∈ (w.ledger out lock).deferred lock := by
      refine List.mem_map.2 ⟨r, ?_, rfl⟩
      show r ∈ deferredIn (w.lock lock).runLists
      simp [hruns]
    have hunended : w.isUnended (r.grant lock) = true :=
      (hsound.balanced.isUnended_iff (hsound.issued_of_deferred hdeferred)).2
        (hsound.held_of_deferred hdeferred)
    -- it has not been started, so nobody has been given its capability
    have hunheard : w.Unheard (r.grant lock) := hm.unheard_of_issued
      (hsound.issued_of_deferred hdeferred) (hsound.not_started_of_deferred hdeferred)
    exact h.ofMove hm htrust (fun _ hmem => hmem) (.inr ⟨_, rfl, hunheard⟩)
      (World.keeps_dispatch_some hnext hunended _)

/-- Nobody has heard of the grants either that are handed back for an unwound loop. -/
theorem Trusted.handBack {w : World} {lock : LockId} {items : List (Request Entry)}
    {below : List Frame} {reply : Reply}
    (h : Trusted ⟨w, .handingBack lock items :: below, .returned reply⟩)
    (hm : Reachable ⟨w, .handingBack lock items :: below, .returned reply⟩) :
    (Machine.ofMove (w.handBack lock items) below).Trusted := by
  have htrust : trust ⟨w, .handingBack lock items :: below, .returned reply⟩ =
      w.trust + 0 + workingsOf below := by simp [trust, Frame.held]
  -- nothing is left to hand back, or one more grant is ended that nobody has heard of
  cases items with
  | nil => exact h.ofMove hm htrust (fun _ hmem => hmem) (.inl rfl) (.of_world (.refl w 0))
  | cons r rest =>
    obtain ⟨taken, hholds, hsound⟩ := hm.sound lock
    have hout : r.grant lock ∈ (World.ledger w taken lock).out := by
      rw [hholds rfl]
      refine List.mem_filter.2 ⟨?_, by simp⟩
      simp [out, outOf, Frame.out, Request.grant]
    have hunheard : w.Unheard (r.grant lock) := hm.unheard_of_issued
      (hsound.issued_of_out hout) (hsound.not_started_of_takenOut (.inl hout))
    exact h.ofMove hm htrust (fun _ hmem => hmem) (.inr ⟨_, rfl, hunheard⟩)
      (w.keeps_handBack lock r rest)

theorem Reachable.births (hm : m.Reachable) {born : Multiset Grant}
    (hborn : m.world.AtMostNext born) : m.world.Births born := by
  rcases hborn with rfl | ⟨g, rfl, -, hnext⟩
  · exact .inl rfl
  · exact .inr ⟨g, rfl, hm.unheard_of_next hnext⟩

theorem Trusted.step (h : m.Trusted) (hm : m.Reachable) : m.step.Trusted := by
  obtain ⟨w, frames, control⟩ := m
  have hok := hm.exists_ledger.1
  have hsorted : Table.Sorted w.futures := hm.traffic_ok.names
  cases frames with
  | nil => exact h
  | cons f below =>
    have htrust : ∀ control, trust ⟨w, f :: below, control⟩ =
        w.trust + f.held + workingsOf below := by
      intro control
      simp only [trust, workingsOf_cons]
      ac_rfl
    -- three kinds of frame stand apart: a loop, what hands back, and a boundary that is unwound
    cases control with
    | aborted => exact h
    | returned reply =>
      show (Machine.ofMove (f.resume w reply) below).Trusted
      by_cases hloop : ∃ lock outcome, f = .dispatching lock outcome
      · obtain ⟨lock, outcome, rfl⟩ := hloop
        exact h.dispatch hm
      by_cases hback : ∃ lock items, f = .handingBack lock items
      · obtain ⟨lock, items, rfl⟩ := hback
        exact h.handBack hm
      -- the other frames bear at most one grant, which is new
      obtain ⟨born, hborn, hkeeps⟩ := Frame.bears_resume hok.world hsorted
        (fun lock outcome heq => hloop ⟨lock, outcome, heq⟩)
        (fun lock items heq => hback ⟨lock, items, heq⟩) reply
      exact h.ofMove hm (htrust _) (fun _ hmem => hmem) (hm.births hborn) hkeeps
    | unwinding fault =>
      show (Machine.ofMove (f.unwind w fault) below).Trusted
      by_cases hbound : ∃ g, f = .invocation g
      · obtain ⟨g, rfl⟩ := hbound
        exact h.contain hm
      exact h.ofMove hm (htrust _) (fun _ hmem => List.mem_cons_of_mem _ hmem) (.inl rfl)
        (Frame.keeps_unwind (fun g heq => hbound ⟨g, heq⟩) fault)

theorem Trusted.next (h : m.Trusted) (hm : m.Reachable) (hn : Next m m') : m'.Trusted := by
  cases hn with
  | step => exact h.step hm
  | @call w control a hcontrol =>
    have hok := hm.exists_ledger.1
    obtain ⟨born, hborn, hkeeps⟩ := World.bears_perform hok.world hm.traffic_ok.names {} a
    exact h.ofMove hm (by simp [trust]) (fun _ hmem => absurd hmem List.not_mem_nil)
      (hm.births hborn) hkeeps

theorem Trusted.of_initial (configs : List Config) (procedures : Table (List Action)) :
    (idle (World.initial configs procedures)).Trusted := by
  have hinitial := World.traffic_initial configs procedures
  have hchannels : (World.initial configs procedures).channels = [] :=
    congrArg Traffic.channels hinitial
  have hfutures : (World.initial configs procedures).futures = [] :=
    congrArg Traffic.futures hinitial
  -- at the beginning there is nothing that could be in trust
  have hnone : (idle (World.initial configs procedures)).trust = 0 := by
    simp [trust, idle, World.trust, hchannels, hfutures, sentIn, workingsIn, Table.gathered]
  refine ⟨by simp [hnone], ?_, ?_, ?_⟩ <;>
  · intro g hg
    rw [hnone] at hg
    exact absurd hg (Multiset.notMem_zero g)

/-- Whatever is done, nobody else can end the grants whose capabilities are in trust. -/
theorem Reachable.trusted (h : m.Reachable) : m.Trusted := by
  obtain ⟨configs, procedures, hr⟩ := h
  induction hr with
  | refl => exact .of_initial configs procedures
  | tail hr hn ih => exact ih.next ⟨configs, procedures, hr⟩ hn

/-- The work of a future is done while its grant is held. -/
theorem Reachable.unended_of_working (h : m.Reachable) {name : String} {work : Work}
    {last : Option String} {rest : List Action} (hf : .working name work g last rest ∈ m.frames) :
    m.world.isUnended g = true := by
  refine h.trusted.unended g ?_
  have hheld : g ∈ workingsOf m.frames :=
    mem_workingsOf.2 ⟨_, hf, Multiset.mem_singleton_self g⟩
  exact Multiset.mem_add.2 (.inr hheld)

/-- So it is while the work is left alone. -/
theorem Reachable.unended_of_stored (h : m.Reachable) {name : String} {work : Work}
    {rest : List Action} (hf : m.world.futures.get? name = some (.run work (.working g rest))) :
    m.world.isUnended g = true := by
  refine h.trusted.unended g ?_
  have hheld : g ∈ workingsIn m.world.futures :=
    World.mem_workingsIn_of_get? hf (List.mem_singleton_self g)
  exact Multiset.mem_add.2 (.inl (Multiset.mem_add.2 (.inr hheld)))

end Machine

end FairLock
