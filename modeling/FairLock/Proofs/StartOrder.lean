import FairLock.Proofs.Machine.Runs

/-!
# The order of starts

Requests are granted in order, but a drain only puts its batch on a run list, while a request that
is granted on the spot is started in place.  So a reader can be started before an older one that is
still deferred.  Nothing else is ever started out of order.

## Main statements

- `Ledger.Sound.ended_before_start`: conflicting requests are started in order.
- `Ledger.Sound.overtaken_of_not_started`: only a reader that is granted on the spot overtakes, and
  only readers from the queue, unless an unwound loop takes them out.
- `start_order`: both for reachable machines.
-/

namespace FairLock

namespace Ledger

variable {id : LockId} {k : Ledger} {i j : Grant}

/-- Whoever was accepted before somebody in an earlier journal was accepted there. -/
theorem Sound.accepted_of_lt (h : Sound id k) {before : Journal} (hbefore : before <:+ k.journal)
    (hi : i ∈ k.journal.accepted) (hj : j ∈ before.accepted) (hij : i.id < j.id) :
    i ∈ before.accepted := by
  obtain ⟨later, hlater⟩ := hbefore
  have hsorted := h.balanced.increasing
  rw [← hlater, Journal.accepted, occurrences_append, List.pairwise_append] at hsorted
  rw [← hlater, Journal.accepted, occurrences_append, List.mem_append] at hi
  rcases hi with hi | hi
  · exact hi
  · exact absurd hij (Nat.lt_asymm (hsorted.2.2 j hj i hi))

/-- No request is granted on the spot and also has to wait. -/
theorem Sound.not_immediate_and_queued (h : Sound id k) {g : Grant}
    (himmediate : g ∈ k.journal.immediate) : g ∉ k.journal.queued := by
  have hnodup := (Journal.accepted_perm k.journal).nodup_iff.1 h.balanced.accepted_nodup
  rw [List.nodup_append] at hnodup
  intro hqueued
  exact hnodup.2.2 g himmediate g hqueued rfl

/-- An entry point that conflicts with an earlier request is started only after the earlier grant
    has ended.  The earlier entry point was started before that, or will never be. -/
theorem Sound.ended_before_start (h : Sound id k) {before : Journal}
    (hj : k.journal.StartedAfter before j)
    (hi : i ∈ k.journal.accepted) (hij : i.id < j.id) (hconflict : i.mode.conflicts j.mode = true) :
    i ∈ before.ended ∧
      (i ∈ before.started ∨
        i ∉ k.journal.started ∧ (i ∈ k.out ∨ i ∈ k.journal.handedBack)) := by
  have hbefore := hj.suffix
  have hrightful := h.starts j before hj
  have haccepted := h.accepted_of_lt hbefore hi hrightful.accepted hij
  have hended := hrightful.conflicts i haccepted hij hconflict
  refine ⟨hended, ?_⟩
  have hended' : i ∈ k.journal.ended := mem_occurrences_of_suffix hbefore hended
  have hplace := h.places.mem_iff.1 (h.balanced.issued_of_ended i hended')
  simp only [List.mem_append] at hplace
  rcases hplace with ((hstarted | hdeferred) | hout) | hback
  · -- its start came first, for it had not ended then
    obtain ⟨before', hstart⟩ := Journal.exists_startedAfter hstarted
    have hne : i ≠ j := by
      rintro rfl
      exact Nat.lt_irrefl _ hij
    rcases hstart.or hj hne with hfirst | hlast
    · exact .inl hfirst.mem_started
    · have hunended := (h.starts i before' hstart).unended
      exact absurd (mem_occurrences_of_suffix hlast.suffix hended) hunended
  · exact absurd hended' (h.pending i hdeferred)
  · exact .inr ⟨h.not_started_of_takenOut (.inl hout), .inl hout⟩
  · exact .inr ⟨h.not_started_of_takenOut (.inr hback), .inr hback⟩

/-- Whoever had to wait had to wait from its submission on. -/
theorem Sound.queued_before (h : Sound id k) {before : Journal} (hbefore : before <:+ k.journal)
    (hi : i ∈ before.accepted) (hqueued : i ∈ k.journal.queued) : i ∈ before.queued := by
  rcases List.mem_append.1 (before.accepted_perm.mem_iff.1 hi) with hmem | hmem
  · exact absurd hqueued (h.not_immediate_and_queued (mem_occurrences_of_suffix hbefore hmem))
  · exact hmem

theorem Sound.immediate_before (h : Sound id k) {before : Journal} (hbefore : before <:+ k.journal)
    (hi : i ∈ before.accepted) (himmediate : i ∈ k.journal.immediate) : i ∈ before.immediate := by
  rcases List.mem_append.1 (before.accepted_perm.mem_iff.1 hi) with hmem | hmem
  · exact hmem
  · exact absurd (mem_occurrences_of_suffix hbefore hmem) (h.not_immediate_and_queued himmediate)

/-- What an earlier request is like that a later one has overtaken, whether it has been started
    since or is still deferred. -/
theorem Sound.overtaken_of_later (h : Sound id k) {before : Journal}
    (hj : k.journal.StartedAfter before j) (hnot : i ∉ before.started) (hij : i.id < j.id)
    (hplace : i ∈ k.journal.started ∨ i ∈ k.deferred id) :
    i ∉ before.ended ∧ i.mode = .read ∧ j.mode = .read ∧
      i ∈ k.journal.queued ∧ j ∈ k.journal.immediate := by
  rcases hplace with hstarted | hdeferred
  · obtain ⟨before', hi⟩ := Journal.exists_startedAfter hstarted
    have hne : i ≠ j := by
      rintro rfl
      exact Nat.lt_irrefl _ hij
    rcases hi.or hj hne with hfirst | hlast
    · exact absurd hfirst.mem_started hnot
    · -- the start of the earlier one has seen that of the later one
      have hrightful := h.starts i before' hi
      obtain ⟨hiread, hjread, hqueued, himmediate⟩ := hrightful.overtaken j hlast.mem_started hij
      refine ⟨fun hended => ?_, hiread, hjread, mem_occurrences_of_suffix hi.suffix hqueued,
        mem_occurrences_of_suffix hi.suffix himmediate⟩
      exact hrightful.unended (mem_occurrences_of_suffix hlast.suffix hended)
  · obtain ⟨hiread, hjread, himmediate⟩ := h.overtaken i hdeferred j hj.mem_started hij
    refine ⟨fun hended => ?_, hiread, hjread, h.queued_of_deferred hdeferred, himmediate⟩
    exact h.pending i hdeferred (mem_occurrences_of_suffix hj.suffix hended)

/-- If a later request is started when an earlier one has not been, both are readers, the earlier
    one was granted from the queue and is held, and the later one was granted on the spot; or the
    earlier one is taken out. -/
theorem Sound.overtaken_of_not_started (h : Sound id k) {before : Journal}
    (hj : k.journal.StartedAfter before j) (hi : i ∈ k.journal.accepted) (hnot : i ∉ before.started)
    (hij : i.id < j.id) :
    (i.mode = .read ∧ j.mode = .read ∧ i ∈ before.issued ∧ i ∉ before.ended ∧ i ∈ before.queued ∧
      j ∈ before.immediate ∧ (i ∈ k.journal.started ∨ i ∈ k.deferred id)) ∨
    (i ∈ k.out ∨ i ∈ k.journal.handedBack) := by
  have hbefore := hj.suffix
  have hrightful := h.starts j before hj
  -- at the start of the later one, the earlier one was issued, and is in one of the places since
  have haccepted := h.accepted_of_lt hbefore hi hrightful.accepted hij
  have hissued := hrightful.earlier i haccepted hij
  have hplace := h.places.mem_iff.1 (mem_occurrences_of_suffix hbefore hissued)
  simp only [List.mem_append] at hplace
  rcases hplace with (hplace | hout) | hback
  -- still deferred, or started later: then the two are readers
  · obtain ⟨hunended, hiread, hjread, hqueued, himmediate⟩ :=
      h.overtaken_of_later hj hnot hij hplace
    exact .inl ⟨hiread, hjread, hissued, hunended, h.queued_before hbefore haccepted hqueued,
      h.immediate_before hbefore hrightful.accepted himmediate, hplace⟩
  · exact .inr (.inl hout)
  · exact .inr (.inr hback)

/-- Requests that were granted in the same way are started in order. -/
theorem Sound.not_started_before (h : Sound id k) (hij : i.id < j.id)
    (hsame : i ∈ k.journal.queued ∧ j ∈ k.journal.queued ∨
      i ∈ k.journal.immediate ∧ j ∈ k.journal.immediate)
    {before : Journal} (hi : k.journal.StartedAfter before i) : j ∉ before.started := by
  intro hj
  have hbefore := hi.suffix
  -- an overtaken request was queued, and its overtaker was not
  obtain ⟨-, -, hqueued, himmediate⟩ := (h.starts i before hi).overtaken j hj hij
  -- two of one kind cannot be overtaken by each other
  rcases hsame with ⟨-, hjqueued⟩ | ⟨hiimmediate, -⟩
  · exact h.not_immediate_and_queued (mem_occurrences_of_suffix hbefore himmediate) hjqueued
  · exact h.not_immediate_and_queued hiimmediate (mem_occurrences_of_suffix hbefore hqueued)

end Ledger

/-- Let an earlier and a later request of one lock be accepted, and the later one started.

    If they conflict, then the grant of the earlier one had ended when the later one was started,
    and its entry point was started before or was taken out by an unwound loop and is never started.

    If the earlier one had not been started when the later one was, both are readers: the earlier
    one had been granted from the queue and was held, and the later one had been granted on the
    spot; the earlier one lies on a run list until it is started.  Otherwise an unwound loop takes
    the earlier one out, and it is never started.

    Two requests that were both granted from the queue, or both on the spot, start in order. -/
theorem start_order {m : Machine} (h : m.Reachable) (id : LockId) :
    (∀ i j, ∀ before : Journal, (m.world.journal id).StartedAfter before j →
      i ∈ (m.world.journal id).accepted → i.id < j.id → i.mode.conflicts j.mode = true →
      i ∈ before.ended ∧
        (i ∈ before.started ∨
          (m.isAborting = false → i ∈ m.takenOut id) ∧
            ∀ m', Machine.Reaches m m' → i ∉ (m'.world.journal id).started)) ∧
    (∀ i j, ∀ before : Journal, (m.world.journal id).StartedAfter before j →
      i ∈ (m.world.journal id).accepted → i ∉ before.started → i.id < j.id →
      (i.mode = .read ∧ j.mode = .read ∧
        i ∈ before.issued ∧ i ∉ before.ended ∧ i ∈ before.queued ∧ j ∈ before.immediate ∧
        (i ∈ (m.world.journal id).started ∨
          i ∈ (deferredIn (m.world.lock id).runLists).map (Request.grant id))) ∨
      (m.isAborting = false → i ∈ m.takenOut id) ∧
        ∀ m', Machine.Reaches m m' → i ∉ (m'.world.journal id).started) ∧
    (∀ i j, i.id < j.id →
      (i ∈ (m.world.journal id).queued ∧ j ∈ (m.world.journal id).queued ∨
        i ∈ (m.world.journal id).immediate ∧ j ∈ (m.world.journal id).immediate) →
      ∀ before : Journal, (m.world.journal id).StartedAfter before i → j ∉ before.started) := by
  obtain ⟨hok, out, hholds, hreachable⟩ := h.exists_ledger
  have hsound := (hreachable id).sound
  -- whoever was taken out is with a frame or dropped, and stays so in any later run
  have htaken : ∀ i, i ∈ (m.world.ledger out id).out ∨ i ∈ (m.world.journal id).handedBack →
      (m.isAborting = false → i ∈ m.takenOut id) ∧
        ∀ m', Machine.Reaches m m' → i ∉ (m'.world.journal id).started := by
    intro i hi
    constructor
    · intro htasks
      rw [Machine.takenOut, List.mem_append, ← hholds htasks]
      exact hi
    · intro m' hr
      obtain ⟨-, out', hleads, -⟩ := hok.reaches hr hholds
      have hlater := ((hreachable id).run (hleads.run id)).sound
      exact hlater.not_started_of_takenOut ((hleads.run id).takenOut hi)
  refine ⟨?conflicts, ?overtaken, ?sameWay⟩
  case conflicts =>
    intro i j before hj hi hij hconflict
    obtain ⟨hended, hstarted | ⟨-, hout⟩⟩ := hsound.ended_before_start hj hi hij hconflict
    · exact ⟨hended, .inl hstarted⟩
    · exact ⟨hended, .inr (htaken i hout)⟩
  case overtaken =>
    intro i j before hj hi hnot hij
    rcases hsound.overtaken_of_not_started hj hi hnot hij with hlater | hout
    · exact .inl hlater
    · exact .inr (htaken i hout)
  case sameWay =>
    intro i j hij hsame before hi
    exact hsound.not_started_before hij hsame hi

/-- The third reader is started while the second is deferred. -/
theorem start_order_writerAndReaders :
    ⟨0, 4, .read⟩ ∈ ((writerAndReadersAfter {} [] 8).world.journal 0).started ∧
    ⟨0, 3, .read⟩ ∈
      (deferredIn ((writerAndReadersAfter {} [] 8).world.lock 0).runLists).map (Request.grant 0) ∧
    ⟨0, 3, .read⟩ ∈ ((writerAndReadersAfter {} [] 17).world.journal 0).started := by
  have hstarted : (⟨0, 4, .read⟩ : Grant) ∈
      ((writerAndReadersAfter {} [] 8).world.journal 0).started := by decide
  have hlater : (⟨0, 3, .read⟩ : Grant) ∈
      ((writerAndReadersAfter {} [] 17).world.journal 0).started := by decide
  obtain ⟨-, hovertaken, -⟩ := start_order (reachable_writerAndReadersAfter {} [] 8) 0
  refine ⟨hstarted, ?_, hlater⟩
  have hnot : (⟨0, 3, .read⟩ : Grant) ∉
      ((writerAndReadersAfter {} [] 8).world.journal 0).started := by decide
  -- take the moment at which the third reader was started
  obtain ⟨before, hj⟩ := Journal.exists_startedAfter hstarted
  have hcases := hovertaken ⟨0, 3, .read⟩ ⟨0, 4, .read⟩ before hj (by decide)
    (fun hmem => hnot (mem_occurrences_of_suffix hj.suffix hmem)) (by decide)
  rcases hcases with ⟨-, -, -, -, -, -, hmem | hdeferred⟩ | ⟨htaken, -⟩
  · exact absurd hmem hnot
  · exact hdeferred
  · exact absurd (htaken (by decide)) (by decide)

end FairLock
