import FairLock.Proofs.Ledger
import Mathlib.Data.List.Nodup

/-!
# What a lock holds

The journal of a lock and its core agree: requests are numbered from one in the order in which
they are accepted, grants are issued in that order, the queue is exactly what is still to be
issued, and the state counts exactly the grants that were issued and have not ended.

What makes a lock grant as early as it may is `Balanced.blocked`: the front of the queue could
never start.  That nobody is granted too early is `Balanced.ordered`.

## Main definitions

- `Balanced`: the agreement, between a lock and the lists of accepted, issued and ended grants.

## Main statements

- `Balanced.submit_granted`, `Balanced.submit_queued`, `Balanced.release`: the operations keep it.
- `Balanced.issued_iff`: who has been granted is decided by who was accepted and who has ended.
-/

namespace FairLock

/-- A lock agrees with the requests that it has accepted, issued and ended. -/
structure Balanced (id : LockId) (l : Lock Entry) (accepted issued ended : List Grant) : Prop where
  /-- The grants are those of this lock. -/
  own : ∀ g ∈ accepted, g.lock = id
  /-- Accepted requests are numbered from one. -/
  ids : accepted.map (·.id) = List.range' 1 accepted.length
  /-- The next number is the first that was not given. -/
  nextId : l.core.nextId = accepted.length + 1
  /-- The queue holds what is still to be issued, in order. -/
  queue : accepted = issued ++ l.core.queue.map (Request.grant id)
  /-- The lock remembers the grants that were issued and have not ended. -/
  unended : l.unended = (stillHeld issued ended).map fun g => (g.id, g.mode)
  /-- Only issued grants end. -/
  issued_of_ended : ∀ g ∈ ended, g ∈ issued
  /-- No grant ends twice. -/
  endedOnce : ended.Nodup
  /-- The state counts the grants that were issued and have not ended. -/
  state : l.core.state.Counts ((stillHeld issued ended).map (·.mode))
  /-- The front of the queue could not start. -/
  blocked : l.core.Blocked
  /-- A grant is issued only after all earlier ones that it conflicts with have ended. -/
  ordered : ∀ i ∈ issued, ∀ j ∈ issued, i.id < j.id → i.mode.conflicts j.mode = true → i ∈ ended

namespace Balanced

variable {id : LockId} {l l' : Lock Entry} {accepted issued ended : List Grant}

theorem of_fresh (config : Config) : Balanced id { config := config } [] [] [] := by
  constructor
  case state => exact .free
  case blocked => simp [Core.Blocked]
  all_goals simp [stillHeld]

/-- Counters, settings and run lists do not matter. -/
theorem congr (h : Balanced id l accepted issued ended) (hcore : l'.core = l.core)
    (hunended : l'.unended = l.unended) : Balanced id l' accepted issued ended :=
  { h with
    nextId := hcore ▸ h.nextId
    queue := hcore ▸ h.queue
    unended := hunended ▸ h.unended
    state := hcore ▸ h.state
    blocked := hcore ▸ h.blocked }

/-! ## Numbers -/

theorem increasing (h : Balanced id l accepted issued ended) :
    accepted.Pairwise (·.id < ·.id) := by
  rw [← List.pairwise_map (f := fun g : Grant => g.id) (R := (· < ·)), h.ids]
  exact List.pairwise_lt_range'

theorem issued_sublist (h : Balanced id l accepted issued ended) : issued.Sublist accepted := by
  rw [h.queue]
  exact List.sublist_append_left _ _

theorem accepted_nodup (h : Balanced id l accepted issued ended) : accepted.Nodup :=
  h.increasing.imp fun hlt heq => by simp [heq] at hlt

theorem issued_nodup (h : Balanced id l accepted issued ended) : issued.Nodup :=
  h.accepted_nodup.sublist h.issued_sublist

theorem issued_eq_take (h : Balanced id l accepted issued ended) :
    issued = accepted.take issued.length := by
  rw [h.queue]
  simp

/-- Grants are issued in the order of their numbers, without gaps. -/
theorem issued_ids (h : Balanced id l accepted issued ended) :
    issued.map (·.id) = List.range' 1 issued.length := by
  conv_lhs => rw [h.issued_eq_take, List.map_take, h.ids]
  exact List.take_range'_of_length_ge h.issued_sublist.length_le

/-- Of two accepted requests with one number there is only one. -/
theorem eq_of_id_eq (h : Balanced id l accepted issued ended) {i j : Grant} (hi : i ∈ accepted)
    (hj : j ∈ accepted) (hid : i.id = j.id) : i = j := by
  have hnodup : (accepted.map (·.id)).Nodup := by
    rw [h.ids]
    exact List.nodup_range'
  exact List.inj_on_of_nodup_map hnodup hi hj hid

theorem id_lt_nextId (h : Balanced id l accepted issued ended) {g : Grant} (hg : g ∈ accepted) :
    g.id < l.core.nextId := by
  have hmem : g.id ∈ accepted.map (·.id) := List.mem_map_of_mem hg
  rw [h.ids, List.mem_range'_1, Nat.add_comm] at hmem
  exact h.nextId ▸ hmem.2

/-- Issued grants come before the waiting requests. -/
theorem issued_lt_waiting (h : Balanced id l accepted issued ended) {i : Grant} (hi : i ∈ issued)
    {r : Request Entry} (hr : r ∈ l.core.queue) : i.id < r.id := by
  have hsorted := h.increasing
  rw [h.queue, List.pairwise_append] at hsorted
  exact hsorted.2.2 i hi _ (List.mem_map_of_mem hr)

/-- Grants are issued without gaps: whoever was accepted before an issued grant is issued too. -/
theorem issued_of_lt (h : Balanced id l accepted issued ended) {i j : Grant} (hi : i ∈ accepted)
    (hj : j ∈ issued) (hij : i.id < j.id) : i ∈ issued := by
  rw [h.queue, List.mem_append, List.mem_map] at hi
  rcases hi with hi | ⟨r, hr, rfl⟩
  · exact hi
  · exact absurd hij (Nat.lt_asymm (h.issued_lt_waiting hj hr))

/-- The lock takes a grant for unended exactly if it is held. -/
theorem isUnended_iff (h : Balanced id l accepted issued ended) {g : Grant} (hg : g ∈ issued) :
    l.isUnended g.id = true ↔ g ∈ stillHeld issued ended := by
  simp only [Lock.isUnended, h.unended, List.any_map, List.any_eq_true, Function.comp_apply,
    beq_iff_eq]
  constructor
  · rintro ⟨g', hg', hid⟩
    have hsub := h.issued_sublist
    have heq := h.eq_of_id_eq (hsub.subset (mem_stillHeld.1 hg').1) (hsub.subset hg) hid
    exact heq ▸ hg'
  · intro hheld
    exact ⟨g, hheld, rfl⟩

/-! ## Operations -/

/-- A request is numbered when it is accepted. -/
theorem ids_append (h : Balanced id l accepted issued ended) (mode : Mode) :
    (accepted ++ [(⟨id, l.core.nextId, mode⟩ : Grant)]).map (·.id) =
      List.range' 1 (accepted ++ [(⟨id, l.core.nextId, mode⟩ : Grant)]).length := by
  simp [List.range'_1_concat, h.ids, h.nextId, Nat.add_comm]

theorem own_append (h : Balanced id l accepted issued ended) (n : GrantId) (mode : Mode) :
    ∀ g ∈ accepted ++ [⟨id, n, mode⟩], g.lock = id := by
  intro g hg
  rcases List.mem_append.1 hg with hg | hg
  · exact h.own g hg
  · rw [List.mem_singleton.1 hg]

section Submission

variable {mode : Mode} {entry : Entry}

/-- A request that is granted on the spot: nobody waits, and nothing that is held conflicts. -/
theorem submit_granted {r : Request Entry} (hb : Balanced id l accepted issued ended)
    (h : l.submit mode entry = (l', .granted r)) :
    Balanced id l' (accepted ++ [r.grant id]) (issued ++ [r.grant id]) ended := by
  obtain ⟨hqueue, hadmits, rfl, rfl⟩ := Lock.submit_granted h
  have hwait : accepted = issued := by simpa [hqueue] using hb.queue
  have hfresh : ∀ i ∈ issued, i.id < l.core.nextId := fun i hi =>
    hb.id_lt_nextId (hb.issued_sublist.subset hi)
  have hheld : stillHeld (issued ++ [⟨id, l.core.nextId, mode⟩]) ended =
      stillHeld issued ended ++ [⟨id, l.core.nextId, mode⟩] := by
    refine stillHeld_issue ?_
    intro g hg hended
    rw [List.mem_singleton.1 hg] at hended
    exact absurd (hfresh _ (hb.issued_of_ended _ hended)) (by simp)
  refine
    { own := hb.own_append _ _, ids := hb.ids_append mode, nextId := ?nextId,
      queue := ?queue, unended := ?unended, issued_of_ended := ?issued_of_ended,
      endedOnce := hb.endedOnce, state := ?state, blocked := ?blocked, ordered := ?ordered }
  case nextId => simp [hb.nextId]
  case queue => simp [hqueue, hwait]
  case unended => simp [Request.grant, hheld, hb.unended]
  case issued_of_ended =>
    intro g hg
    exact List.mem_append_left _ (hb.issued_of_ended g hg)
  case state =>
    simp only [Request.grant, hheld, List.map_append]
    exact hb.state.acquired hadmits
  case blocked => simp [Core.Blocked, hqueue]
  case ordered =>
    intro i hi j hj hij hconflict
    rcases List.mem_append.1 hi with hi | hi <;> rcases List.mem_append.1 hj with hj | hj
    · exact hb.ordered i hi j hj hij hconflict
    · -- what is held next to the new grant does not conflict with it
      rw [List.mem_singleton.1 hj] at hconflict
      by_cases hended : i ∈ ended
      · exact hended
      · have hmem : i.mode ∈ (stillHeld issued ended).map (·.mode) :=
          List.mem_map_of_mem (mem_stillHeld.2 ⟨hi, hended⟩)
        have := hb.state.not_conflicts hadmits _ hmem
        simp [this] at hconflict
    · rw [List.mem_singleton.1 hi] at hij
      exact absurd hij (Nat.lt_asymm (hfresh j hj))
    · rw [List.mem_singleton.1 hi, List.mem_singleton.1 hj] at hij
      exact absurd hij (Nat.lt_irrefl _)

/-- A request that waits joins the end of the queue; if it is the front, it could not start. -/
theorem submit_queued {n pending : Nat} (hb : Balanced id l accepted issued ended)
    (h : l.submit mode entry = (l', .queued n pending)) :
    Balanced id l' (accepted ++ [⟨id, n, mode⟩]) issued ended := by
  obtain ⟨hwait, -, rfl, -, rfl⟩ := Lock.submit_queued h
  refine
    { own := hb.own_append _ _, ids := hb.ids_append mode, nextId := ?nextId,
      queue := ?queue, unended := hb.unended, issued_of_ended := hb.issued_of_ended,
      endedOnce := hb.endedOnce, state := hb.state, blocked := hb.blocked.append hwait,
      ordered := hb.ordered }
  -- the number is used up and stands on the new request
  case nextId => simp [hb.nextId]
  case queue =>
    have := hb.queue
    simp [this, Request.grant]

end Submission

section Release

variable {g : Grant} (hb : Balanced id l accepted issued ended) (hg : g ∈ stillHeld issued ended)
include hb hg

/-- Once a lock is freed, all that was issued has ended. -/
theorem ended_of_freed (hfree : l.core.state.released g.mode = .free) :
    stillHeld issued (ended ++ [g]) = [] := by
  have hstate := hb.state.released hg
  rw [hfree] at hstate
  rw [stillHeld_end hb.issued_nodup]
  exact List.map_eq_nil_iff.1 (hstate.eq_free_iff.1 rfl)

/-- The lock forgets a grant by its number alone. -/
theorem forgets : (l.unended.filter fun p => p.1 != g.id) =
    (stillHeld issued (ended ++ [g])).map fun g => (g.id, g.mode) := by
  have hissued := (mem_stillHeld.1 hg).1
  -- the lock forgets by the number, the journal by the grant: one list remains, tested two ways
  rw [stillHeld_end hb.issued_nodup, List.Nodup.erase_eq_filter (stillHeld_nodup hb.issued_nodup),
    hb.unended, List.filter_map]
  congr 1
  refine List.filter_congr ?_
  intro x hx
  have hx' := hb.issued_sublist.subset (mem_stillHeld.1 hx).1
  -- two accepted grants with one number are one grant
  by_cases heq : x = g
  · simp [heq]
  · have hid : x.id ≠ g.id := fun hid =>
      heq (hb.eq_of_id_eq hx' (hb.issued_sublist.subset hissued) hid)
    show (x.id != g.id) = (x != g)
    rw [bne_iff_ne.2 hid, bne_iff_ne.2 heq]

theorem issued_of_ended_append : ∀ x ∈ ended ++ [g], x ∈ issued := by
  intro x hx
  rcases List.mem_append.1 hx with hx | hx
  · exact hb.issued_of_ended x hx
  · rw [List.mem_singleton.1 hx]
    exact (mem_stillHeld.1 hg).1

theorem ended_append_nodup : (ended ++ [g]).Nodup := by
  have hunended := (mem_stillHeld.1 hg).2
  simpa [List.nodup_append, hb.endedOnce] using fun x hx (heq : x = g) => hunended (heq ▸ hx)

/-- The end of a grant while others are held: nobody is granted. -/
theorem release_busy (hbusy : l.core.state.released g.mode ≠ .free) (stats : Stats) :
    Balanced id
      { l with
        core := { l.core with state := l.core.state.released g.mode }
        stats := stats
        unended := l.unended.filter fun p => p.1 != g.id }
      accepted issued (ended ++ [g]) := by
  refine
    { own := hb.own, ids := hb.ids, nextId := hb.nextId, queue := hb.queue,
      unended := hb.forgets hg, issued_of_ended := hb.issued_of_ended_append hg,
      endedOnce := hb.ended_append_nodup hg, state := ?state, blocked := ?blocked,
      ordered := ?ordered }
  case state =>
    rw [stillHeld_end hb.issued_nodup]
    exact hb.state.released hg
  -- the front was blocked before, and one of several holders leaves without letting it in
  case blocked =>
    intro front hfront
    exact hb.state.admits_released_eq_false (List.mem_map_of_mem hg) hbusy
      (hb.blocked front hfront)
  case ordered =>
    -- whoever precedes another and conflicts with it has ended already,
    -- and one more end does no harm
    intro i hi j hj hij hconflict
    exact List.mem_append_left _ (hb.ordered i hi j hj hij hconflict)

/-- The end of the last grant that was held: the batch at the front of the queue is issued. -/
theorem release_last (hfree : l.core.state.released g.mode = .free) (stats : Stats) :
    Balanced id
      { l with
        core :=
          { l.core with
            state := stateOf (batchOf l.core.queue)
            queue := restOf l.core.queue }
        stats := stats
        unended := (l.unended.filter fun p => p.1 != g.id) ++
          (batchOf l.core.queue).map fun r => (r.id, r.mode) }
      accepted (issued ++ (batchOf l.core.queue).map (Request.grant id)) (ended ++ [g]) := by
  have hnone := hb.ended_of_freed hg hfree
  have hended := hb.issued_of_ended_append hg
  have hbatch : ∀ r ∈ batchOf l.core.queue, r ∈ l.core.queue := fun r hr => by
    rw [← batchOf_append_rest l.core.queue]
    exact List.mem_append_left _ hr
  -- from here on the batch is all that is held
  have hheld : stillHeld (issued ++ (batchOf l.core.queue).map (Request.grant id))
      (ended ++ [g]) = (batchOf l.core.queue).map (Request.grant id) := by
    rw [stillHeld_issue, hnone, List.nil_append]
    intro x hx hmem
    obtain ⟨r, hr, rfl⟩ := List.mem_map.1 hx
    exact absurd (hb.issued_lt_waiting (hended _ hmem) (hbatch r hr)) (Nat.lt_irrefl _)
  refine
    { own := hb.own, ids := hb.ids, nextId := hb.nextId, queue := ?queue, unended := ?unended,
      issued_of_ended := fun x hx => List.mem_append_left _ (hended x hx),
      endedOnce := hb.ended_append_nodup hg, state := ?state,
      blocked := blocked_after_drain l.core.queue, ordered := ?ordered }
  case queue =>
    rw [List.append_assoc, ← List.map_append, batchOf_append_rest]
    exact hb.queue
  case unended => simp [hheld, hb.forgets hg, hnone, Function.comp_def]
  case state =>
    rw [hheld, List.map_map]
    exact counts_stateOf_batchOf l.core.queue
  case ordered =>
    intro i hi j hj hij hconflict
    rcases List.mem_append.1 hi with hi | hi
    · -- whoever was issued before the drain has ended by now
      by_cases hmem : i ∈ ended ++ [g]
      · exact hmem
      · have hi' : i ∈ stillHeld issued (ended ++ [g]) := mem_stillHeld.2 ⟨hi, hmem⟩
        rw [hnone] at hi'
        cases hi'
    · obtain ⟨r, hr, rfl⟩ := List.mem_map.1 hi
      rcases List.mem_append.1 hj with hj | hj
      · exact absurd hij (Nat.lt_asymm (hb.issued_lt_waiting hj (hbatch r hr)))
      · -- two members of one batch do not conflict, or they are the same writer
        obtain ⟨r', hr', rfl⟩ := List.mem_map.1 hj
        rcases batchOf_cases l.core.queue with hread | ⟨w, hw, -⟩
        · simp [Mode.conflicts, hread r hr, hread r' hr'] at hconflict
        · rw [hw, List.mem_singleton] at hr hr'
          simp [hr, hr'] at hij

/-- The end of a grant, with the batch that it lets start. -/
theorem release {batch : List (Request Entry)} (h : l.release g.id g.mode = (l', batch)) :
    Balanced id l' accepted (issued ++ batch.map (Request.grant id)) (ended ++ [g]) := by
  rcases Lock.release_cases h with ⟨hbusy, rfl, rfl⟩ | ⟨hfree, rfl, rfl⟩
  · simpa using hb.release_busy hg hbusy l.stats.countReleased
  · exact hb.release_last hg hfree _

end Release

/-! ## Who has been granted -/

/-- An accepted request has been granted if and only if every earlier one that it conflicts with
    has been granted and has ended. -/
theorem issued_iff (h : Balanced id l accepted issued ended) {j : Grant} (hj : j ∈ accepted) :
    j ∈ issued ↔ ∀ i ∈ accepted, i.id < j.id → i.mode.conflicts j.mode = true →
      i ∈ issued ∧ i ∈ ended := by
  constructor
  · intro hissued i hi hij hconflict
    have hi' := h.issued_of_lt hi hissued hij
    exact ⟨hi', h.ordered i hi' j hissued hij hconflict⟩
  · -- otherwise the request waits, and the front of the queue waits for something that is held
    intro hall
    by_contra hnot
    have hwaits : j ∈ l.core.queue.map (Request.grant id) := by
      rw [h.queue, List.mem_append] at hj
      exact hj.resolve_left hnot
    obtain ⟨front, rest, hq⟩ := List.exists_cons_of_ne_nil (l := l.core.queue) <| by
      rintro hq
      simp [hq] at hwaits
    have hfront : front.grant id ∈ accepted := by
      rw [h.queue, hq]
      simp
    obtain ⟨m, hm, hconflict⟩ := h.state.exists_conflict (h.blocked front (by simp [hq]))
    obtain ⟨i, hi, rfl⟩ := List.mem_map.1 hm
    obtain ⟨hissued, hunended⟩ := mem_stillHeld.1 hi
    have hlt := h.issued_lt_waiting hissued (r := front) (by simp [hq])
    by_cases hconf : i.mode.conflicts j.mode = true
    · -- it conflicts with the request too, so it should have ended
      have hij : i.id < j.id := by
        obtain ⟨r, hr, rfl⟩ := List.mem_map.1 hwaits
        exact h.issued_lt_waiting hissued hr
      exact hunended (hall i (h.issued_sublist.subset hissued) hij hconf).2
    · -- else the front is a writer, comes before the request, and should have been issued
      simp only [Bool.not_eq_true, Mode.conflicts_eq_false_iff] at hconf
      have hfw : front.mode = .write := by
        cases hf : front.mode with
        | read => simp [Mode.conflicts, hconf.1, hf] at hconflict
        | write => rfl
      have hne : j ≠ front.grant id := by
        rintro rfl
        simp [hfw] at hconf
      have hlt' : (front.grant id).id < j.id := by
        have hsorted := h.increasing
        rw [h.queue, hq, List.pairwise_append] at hsorted
        refine (List.pairwise_cons.1 hsorted.2.1).1 j ?_
        rw [hq, List.map_cons, List.mem_cons] at hwaits
        exact hwaits.resolve_left hne
      have := (hall _ hfront hlt' (by simp [Mode.conflicts, hfw])).1
      have := h.issued_lt_waiting this (r := front) (by simp [hq])
      simp at this

end Balanced

end FairLock
