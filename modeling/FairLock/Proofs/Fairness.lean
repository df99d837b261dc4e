import FairLock.Proofs.Machine.Runs
import Mathlib.Data.List.Perm.Subperm

/-!
# Fairness

Who has been granted is decided by who asked before and who has ended, and by nothing else: not by
the threads and tasks that asked, and not by the order in which grants ended.

## Main statements

- `issued_iff_conflicts_ended`: a request is granted exactly if all earlier ones that conflict with
  it have been granted and have ended.
-/

namespace FairLock

namespace Balanced

variable {id : LockId} {l : Lock Entry} {accepted issued ended : List Grant}

/-! ## Positions -/

/-- Whoever was submitted earlier has the smaller number. -/
theorem mem_before_iff (h : Balanced id l accepted issued ended) {before after : List Grant}
    {j : Grant} (hj : accepted = before ++ j :: after) (i : Grant) :
    i ∈ before ↔ i ∈ accepted ∧ i.id < j.id := by
  have hsorted := h.increasing
  rw [hj, List.pairwise_append, List.pairwise_cons] at hsorted
  -- the accepted grants go up in their numbers,
  -- so the number tells on which side of this one another lies
  obtain ⟨-, ⟨hafter, -⟩, hbefore⟩ := hsorted
  rw [hj, List.mem_append, List.mem_cons]
  constructor
  · intro hi
    exact ⟨.inl hi, hbefore i hi j (by simp)⟩
  · rintro ⟨hi | rfl | hi, hlt⟩
    · exact hi
    · exact absurd hlt (Nat.lt_irrefl _)
    · exact absurd hlt (Nat.lt_asymm (hafter i hi))

/-- Numbers and modes of held grants, without the grants. -/
theorem held_modes (h : Balanced id l accepted issued ended) :
    (stillHeld issued ended).map (·.mode) =
      (((issued.map (·.id)).zip (issued.map (·.mode))).filter
        fun p => p.1 ∉ ended.map (·.id)).map (·.2) := by
  rw [List.zip_map', List.filter_map, List.map_map]
  refine congrArg _ (List.filter_congr ?_)
  intro g hg
  have hsub := h.issued_sublist.subset
  -- of the ended grants only this one has its number
  have hsame : g.id ∈ ended.map (·.id) ↔ g ∈ ended := by
    refine ⟨?_, fun hended => List.mem_map_of_mem hended⟩
    intro hid
    obtain ⟨g', hg', heq⟩ := List.mem_map.1 hid
    exact h.eq_of_id_eq (hsub (h.issued_of_ended g' hg')) (hsub hg) heq ▸ hg'
  simp only [Function.comp_apply, hsame]

/-! ## Two locks with the same requests -/

section TwoLocks

variable {id' : LockId} {l' : Lock Entry} {accepted' issued' ended' : List Grant}
  (h : Balanced id l accepted issued ended) (h' : Balanced id' l' accepted' issued' ended')
  (hmodes : accepted.map (·.mode) = accepted'.map (·.mode))
include h h' hmodes

/-- A request of the one lock has a twin at the other, with the same number and mode. -/
theorem exists_twin {i : Grant} (hi : i ∈ accepted) :
    ∃ i' ∈ accepted', i'.id = i.id ∧ i'.mode = i.mode := by
  -- numbers are given one after the other from the same start, so equal modes make equal pairs
  have hlength : accepted.length = accepted'.length := by
    simpa using congrArg List.length hmodes
  have hpairs : (accepted.map fun g => (g.id, g.mode)) =
      accepted'.map fun g => (g.id, g.mode) := by
    rw [← List.zip_map', ← List.zip_map', h.ids, h'.ids, hlength, hmodes]
  have hmem : (i.id, i.mode) ∈ accepted'.map fun g => (g.id, g.mode) :=
    hpairs ▸ List.mem_map_of_mem (f := fun g : Grant => (g.id, g.mode)) hi
  obtain ⟨i', hi', heq⟩ := List.mem_map.1 hmem
  exact ⟨i', hi', congrArg Prod.fst heq, congrArg Prod.snd heq⟩

variable (hended : ∀ n, n ∈ ended.map (·.id) ↔ n ∈ ended'.map (·.id))
include hended

/-- If the grants that have ended are twins too, so are the granted requests.  By induction on the
    number: whether a request is granted depends on those with smaller numbers. -/
theorem issued_twin {j : Grant} (hj : j ∈ issued) :
    ∀ j' ∈ accepted', j'.id = j.id → j' ∈ issued' := by
  induction hn : j.id using Nat.strongRecOn generalizing j with
  | _ n ih =>
    subst hn
    intro j' hj' hid
    have hja := h.issued_sublist.subset hj
    have hmode : j'.mode = j.mode := by
      obtain ⟨k, hk, hkid, hkmode⟩ := h.exists_twin h' hmodes hja
      rw [h'.eq_of_id_eq hj' hk (hid.trans hkid.symm), hkmode]
    refine (h'.issued_iff hj').2 ?_
    -- whoever is in the way of the twin is the twin of somebody in the way of the request
    intro i' hi' hlt hconflict
    obtain ⟨i, hi, hiid, himode⟩ := h'.exists_twin h hmodes.symm hi'
    have hilt : i.id < j.id := by rwa [hiid, ← hid]
    have hiconflict : i.mode.conflicts j.mode = true := by rwa [himode, ← hmode]
    obtain ⟨hissued, hiended⟩ := (h.issued_iff hja).1 hj i hi hilt hiconflict
    refine ⟨ih i.id hilt hissued rfl i' hi' hiid.symm, ?_⟩
    obtain ⟨e, he, heid⟩ := List.mem_map.1 ((hended i.id).1 (List.mem_map_of_mem hiended))
    have hea := h'.issued_sublist.subset (h'.issued_of_ended e he)
    exact h'.eq_of_id_eq hea hi' (heid.trans hiid) ▸ he

theorem length_issued_le : issued.length ≤ issued'.length := by
  have hnodup : (issued.map (·.id)).Nodup := by
    rw [h.issued_ids]
    exact List.nodup_range'
  have hsubset : issued.map (·.id) ⊆ issued'.map (·.id) := by
    intro n hn
    obtain ⟨j, hj, rfl⟩ := List.mem_map.1 hn
    obtain ⟨j', hj', hid, -⟩ := h.exists_twin h' hmodes (h.issued_sublist.subset hj)
    exact hid ▸ List.mem_map_of_mem (h.issued_twin h' hmodes hended hj j' hj' hid)
  simpa using (List.subperm_of_subset hnodup hsubset).length_le

/-- The granted requests and the state are functions of the accepted modes and the ended grants. -/
theorem issued_ids_eq_and_state_eq :
    issued.map (·.id) = issued'.map (·.id) ∧ l.core.state = l'.core.state := by
  -- by symmetry: neither lock has granted more than the other
  have hlength : issued.length = issued'.length :=
    Nat.le_antisymm (h.length_issued_le h' hmodes hended)
      (h'.length_issued_le h hmodes.symm fun n => (hended n).symm)
  have hids : issued.map (·.id) = issued'.map (·.id) := by
    rw [h.issued_ids, h'.issued_ids, hlength]
  refine ⟨hids, ?_⟩
  have hissued : issued.map (·.mode) = issued'.map (·.mode) := by
    rw [h.issued_eq_take, h'.issued_eq_take, List.map_take, List.map_take, hmodes, hlength]
  -- what is held are the issued ones whose numbers have not ended,
  -- and both are the same on either side
  have hheld : (stillHeld issued ended).map (·.mode) = (stillHeld issued' ended').map (·.mode) := by
    rw [h.held_modes, h'.held_modes, hids, hissued]
    refine congrArg _ (List.filter_congr ?_)
    intro p _
    simp only [hended]
  exact (hheld ▸ h.state).unique h'.state

end TwoLocks

end Balanced

/-- At every moment of a run an accepted request has been granted if and only if every request that
    was accepted before it and conflicts with it has been granted and its grant has ended.

    So two locks, in one run or in two, that have accepted requests of the same modes in the same
    order and whose ended grants have the same numbers have granted the same requests and are in the
    same state, in whatever order the grants have ended. -/
theorem issued_iff_conflicts_ended {m : Machine} (h : m.Reachable) (id : LockId) :
    (∀ before j after, (m.world.journal id).accepted = before ++ j :: after →
      (j ∈ (m.world.journal id).issued ↔
        ∀ i ∈ before, i.mode.conflicts j.mode = true →
          i ∈ (m.world.journal id).issued ∧ i ∈ (m.world.journal id).ended)) ∧
    (∀ m' : Machine, m'.Reachable → ∀ id',
      (m.world.journal id).accepted.map (·.mode) = (m'.world.journal id').accepted.map (·.mode) →
      (∀ n, n ∈ (m.world.journal id).ended.map (·.id) ↔
        n ∈ (m'.world.journal id').ended.map (·.id)) →
      (m.world.journal id).issued.map (·.id) = (m'.world.journal id').issued.map (·.id) ∧
        (m.world.lock id).state = (m'.world.lock id').state) := by
  have hbalanced := h.balanced id
  constructor
  · intro before j after hj
    have hmem : j ∈ (m.world.journal id).accepted := by simp [hj]
    -- among all that were accepted before,
    -- those that conflict are the earlier ones in the way of it
    rw [hbalanced.issued_iff hmem]
    simp only [hbalanced.mem_before_iff hj, and_imp]
  · intro m' h' id' hmodes hended
    exact hbalanced.issued_ids_eq_and_state_eq (h'.balanced id') hmodes hended

/-- Two runs in which the readers end in different orders, the third before the first and after it:
    in both the second reader has been granted and is held alone. -/
theorem issued_iff_conflicts_ended_writerAndReaders :
    (((writerAndReadersAfter {} [] 14).world.journal 0).ended.map (·.id) = [1, 4, 2] ∧
      ((writerAndReadersAfter {} [.release .own] 12).world.journal 0).ended.map (·.id) =
        [1, 2, 4]) ∧
    (⟨0, 3, .read⟩ ∈ ((writerAndReadersAfter {} [] 14).world.journal 0).issued ↔
      ∀ i ∈ ([⟨0, 1, .write⟩, ⟨0, 2, .read⟩] : List Grant), i.mode.conflicts .read = true →
        i ∈ ((writerAndReadersAfter {} [] 14).world.journal 0).issued ∧
          i ∈ ((writerAndReadersAfter {} [] 14).world.journal 0).ended) ∧
    ((writerAndReadersAfter {} [] 14).world.journal 0).issued.map (·.id) =
      ((writerAndReadersAfter {} [.release .own] 12).world.journal 0).issued.map (·.id) ∧
    ((writerAndReadersAfter {} [] 14).world.lock 0).state =
      ((writerAndReadersAfter {} [.release .own] 12).world.lock 0).state := by
  have hended : ((writerAndReadersAfter {} [] 14).world.journal 0).ended.map (·.id) =
      [1, 4, 2] := by decide
  have hended' : ((writerAndReadersAfter {} [.release .own] 12).world.journal 0).ended.map (·.id) =
      [1, 2, 4] := by decide
  -- the one run gives the order before the other: only the sets of ended numbers are compared
  obtain ⟨hissued, hsame⟩ := issued_iff_conflicts_ended (reachable_writerAndReadersAfter {} [] 14) 0
  refine ⟨⟨hended, hended'⟩, ?_, ?_⟩
  · exact hissued [⟨0, 1, .write⟩, ⟨0, 2, .read⟩] ⟨0, 3, .read⟩ [⟨0, 4, .read⟩] (by decide)
  · refine hsame _ (reachable_writerAndReadersAfter {} [.release .own] 12) 0 (by decide) ?_
    intro n
    rw [hended, hended']
    simp only [List.mem_cons, List.not_mem_nil, or_false]
    exact or_congr_right or_comm

end FairLock
