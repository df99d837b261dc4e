import FairLock.Proofs.Ledger.Replay
import FairLock.Proofs.Machine.Runs

/-!
# Mutual exclusion

The state of a lock is a counter that is moved by modes alone, while grants end in four ways: by a
release, by the drop of a capability, by the containment of a failure, and by a hand-back.  At every
moment of every run the counter stands for exactly the grants that were issued and have not ended.

## Main statements

- `state_counts_held`: the state of a lock and the grants that are held.
-/

namespace FairLock

/-- At every moment of a run the state of a lock is free if no grant is held, reading with the
    number of held grants if all of them are readers, and writing if there is one and it is a
    writer.  A grant on a run list is held.

    Acquiring was only ever done for a mode that the state admitted, and releasing only for one that
    was counted: with checked operations in their place the journal leads to the same state. -/
theorem state_counts_held {m : Machine} (h : m.Reachable) (id : LockId) :
    ((m.world.lock id).state = .free ↔ (m.world.journal id).held = []) ∧
      (∀ n, (m.world.lock id).state = .reading n ↔
        1 ≤ n ∧ (m.world.journal id).held.length = n ∧
          ∀ g ∈ (m.world.journal id).held, g.mode = .read) ∧
      ((m.world.lock id).state = .writing ↔
        ∃ g, (m.world.journal id).held = [g] ∧ g.mode = .write) ∧
      (m.world.journal id).replay? = some (m.world.lock id).state := by
  have hcounts := (h.balanced id).state
  -- the state counts the modes of what is held, and each form is a count
  refine ⟨?free, ?reading, ?writing, ?replay⟩
  case free =>
    have := hcounts.eq_free_iff
    rwa [List.map_eq_nil_iff] at this
  case reading =>
    intro n
    have := hcounts.eq_reading_iff n
    simp only [List.length_map, List.forall_mem_map] at this
    exact this
  case writing =>
    have := hcounts.eq_writing_iff
    rwa [List.map_eq_singleton_iff] at this
  case replay =>
    obtain ⟨-, out, -, hreachable⟩ := h.exists_ledger
    exact (hreachable id).replay

/-- While the third reader runs, the second one is held on the run list. -/
theorem state_counts_held_writerAndReaders :
    ((writerAndReadersAfter {} [] 8).world.lock 0).state = .reading 3 ∧
      ((writerAndReadersAfter {} [] 8).world.journal 0).held.length = 3 ∧
      ((writerAndReadersAfter {} [] 8).world.journal 0).replay? = some (.reading 3) := by
  have hstate : ((writerAndReadersAfter {} [] 8).world.lock 0).state = .reading 3 := by decide
  obtain ⟨-, hreading, -, hreplay⟩ := state_counts_held (reachable_writerAndReadersAfter {} [] 8) 0
  exact ⟨hstate, ((hreading 3).1 hstate).2.1, hstate ▸ hreplay⟩

end FairLock
