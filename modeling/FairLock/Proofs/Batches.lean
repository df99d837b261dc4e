import FairLock.Proofs.Chain.Lock
import FairLock.Proofs.Machine.Runs

/-!
# How a queue empties

When nobody submits any more, the queue of a core is given away by releases alone.  It leaves in
batches, and these are the same whatever the order of the releases: single writers and maximal runs
of readers, each granted by the release that ends the last grant held.

## Main definitions

- `Core.Occurs`: the core comes about by submissions and releases, with some grants held in the end.
- `Core.Releases`: held grants are released one after the other.
- `State.OfBatch`: a batch is all that is held.

## Main statements

- `Core.Occurs.settled`: the state counts what is held, and the front of the queue has to wait.
- `Core.Settled.release`: what one release does.
- `Core.Releases.splitBy_queue`, `Core.Releases.length_batches`: what a row of releases does.
- `Machine.Reachable.occurs`: the cores of a reachable machine are among those that come about.
- `queue_leaves_in_batches`: how the queue is given away, and how long this takes.
-/

namespace FairLock

universe u

variable {α : Type u}

/-- The grants that requests are given, by number and mode. -/
def grantsOf (batch : List (Request α)) : List (GrantId × Mode) :=
  batch.map fun r => (r.id, r.mode)

/-- The grant that a submission is answered with, if it is granted. -/
def Submission.grants : Submission α → List (GrantId × Mode)
  | granted r => [(r.id, r.mode)]
  | queued _ _ => []
  | rejected _ _ => []

namespace Core

/-- The core comes about by submissions, under any settings, and by releases of grants that were
    held; the grants that are held in the end are listed. -/
inductive Occurs : Core α → List (GrantId × Mode) → Prop where
  | fresh : Occurs {} []
  | submit {c : Core α} {held : List (GrantId × Mode)} (h : c.Occurs held) (mode : Mode)
      (payload : α) (config : Config) :
      Occurs (c.submit mode payload config).1 (held ++ (c.submit mode payload config).2.grants)
  | release {c : Core α} {held : List (GrantId × Mode)} {g : GrantId × Mode} (h : c.Occurs held)
      (hg : g ∈ held) : Occurs (c.release g.2).1 (held.erase g ++ grantsOf (c.release g.2).2)

/-- Grants that are held are released one after the other, in any order and those included that are
    issued on the way.  Each release gives one batch. -/
inductive Releases : Core α → List (GrantId × Mode) → List (List (Request α)) → Core α →
    List (GrantId × Mode) → Prop where
  | none (c : Core α) (held : List (GrantId × Mode)) : Releases c held [] c held
  | first {c c' : Core α} {held held' : List (GrantId × Mode)} {g : GrantId × Mode}
      {batches : List (List (Request α))} (hg : g ∈ held)
      (h : Releases (c.release g.2).1 (held.erase g ++ grantsOf (c.release g.2).2) batches c'
        held') :
      Releases c held ((c.release g.2).2 :: batches) c' held'

/-- The state counts the grants that are held, and the front of the queue cannot start next to
    them. -/
structure Settled (c : Core α) (held : List (GrantId × Mode)) : Prop where
  counts : c.state.Counts (held.map (·.2))
  blocked : c.Blocked

variable {c c' : Core α} {held held' : List (GrantId × Mode)} {g : GrantId × Mode}
  {batches : List (List (Request α))}

namespace Settled

theorem holders (h : c.Settled held) : c.state.holders = held.length := by
  rw [h.counts.holders, List.length_map]

theorem free_iff (h : c.Settled held) : c.state = .free ↔ held = [] := by
  rw [h.counts.eq_free_iff, List.map_eq_nil_iff]

theorem queue_eq_nil (h : c.Settled held) (hfree : c.state = .free) : c.queue = [] :=
  h.blocked.queue_eq_nil hfree

end Settled

/-- What one release does: it frees the lock if and only if it ends the last grant that is held, and
    then it grants the first batch of the queue; otherwise it moves nothing. -/
theorem Settled.release (h : c.Settled held) (hg : g ∈ held) :
    (c.release g.2).1.Settled (held.erase g ++ grantsOf (c.release g.2).2) ∧
      ((held = [g] ∧ (c.release g.2).2 = batchOf c.queue ∧
          (c.release g.2).1.queue = restOf c.queue ∧
          (c.release g.2).1.state = stateOf (batchOf c.queue)) ∨
        (held ≠ [g] ∧ (c.release g.2).2 = [] ∧ (c.release g.2).1.queue = c.queue)) := by
  have hcounts := h.counts.released hg
  have hlength := List.length_erase_of_mem hg
  by_cases hfree : c.state.released g.2 = .free
  -- nobody holds the lock any more, so the grant that has ended was the only one
  · have hrest : held.erase g = [] := List.map_eq_nil_iff.1 (hcounts.eq_free_iff.1 hfree)
    have hone : held = [g] := by
      rw [hrest] at hlength
      have hpos := List.length_pos_of_mem hg
      obtain ⟨x, rfl⟩ := List.length_eq_one_iff.1 (by simp at hlength; omega : held.length = 1)
      rw [List.mem_singleton.1 hg]
    -- the drain leaves what its batch amounts to, and a front that does not fit in
    rw [release_of_free hfree, hrest]
    refine ⟨⟨?_, blocked_after_drain c.queue⟩, .inl ⟨hone, rfl, rfl, rfl⟩⟩
    simpa [grantsOf, Function.comp_def] using counts_stateOf_batchOf c.queue
  · have hmore : held ≠ [g] := by
      rintro rfl
      exact hfree (hcounts.eq_free_iff.2 (by simp))
    rw [release_of_not_free hfree]
    -- somebody still holds it: nothing is granted, and who was blocked before is blocked now
    refine ⟨⟨by simpa [grantsOf] using hcounts, ?_⟩, .inr ⟨hmore, rfl, rfl⟩⟩
    intro front hfront
    exact h.counts.admits_released_eq_false (List.mem_map_of_mem hg) hfree
      (h.blocked front hfront)

/-- A submission joins what is held, or waits behind it. -/
theorem Settled.submit (h : c.Settled held) (mode : Mode) (payload : α) (config : Config) :
    (c.submit mode payload config).1.Settled
      (held ++ (c.submit mode payload config).2.grants) := by
  by_cases hwait : c.MustWait mode
  -- whoever must wait is rejected or goes to the end of the queue, behind a front that is blocked
  · cases hlimit : config.reachedLimit c.pending with
    | some limit =>
      rw [submit_of_full hwait hlimit]
      simpa [Submission.grants] using h
    | none =>
      rw [submit_of_room hwait hlimit]
      exact ⟨by simpa [Submission.grants] using h.counts, h.blocked.append hwait⟩
  -- whoever need not wait has found an empty queue, so there is no front to be blocked
  · simp only [MustWait, Classical.not_imp, Bool.not_eq_false] at hwait
    obtain ⟨hqueue, hadmits⟩ := hwait
    rw [submit_of_admitted hqueue hadmits]
    refine ⟨by simpa [Submission.grants] using h.counts.acquired hadmits, ?_⟩
    intro front hfront
    rw [show _ = c.queue from rfl, hqueue] at hfront
    cases hfront

theorem Occurs.settled (h : c.Occurs held) : c.Settled held := by
  induction h with
  | fresh => exact ⟨.free, by simp [Blocked]⟩
  | submit _ mode payload config ih => exact ih.submit mode payload config
  | release _ hg ih => exact (ih.release hg).1

/-! ## Rows of releases -/

/-- A release takes the first batch off the queue or none at all. -/
theorem Settled.splitBy_release (h : c.Settled held) (hg : g ∈ held) :
    c.queue.splitBy Request.bothRead =
      [(c.release g.2).2].filter (fun batch => !batch.isEmpty) ++
        (c.release g.2).1.queue.splitBy Request.bothRead := by
  obtain ⟨-, ⟨-, hbatch, hrest, -⟩ | ⟨-, hbatch, hqueue⟩⟩ := h.release hg
  · rw [hbatch, hrest]
    by_cases hnone : c.queue = []
    · simp [hnone, batchOf, restOf]
    · have hsome : batchOf c.queue ≠ [] := mt batchOf_eq_nil_iff.1 hnone
      simp [splitBy_bothRead hnone, hsome]
  · simp [hbatch, hqueue]

/-- A release makes what is held or waits one less. -/
theorem Settled.length_release (h : c.Settled held) (hg : g ∈ held) :
    1 + (held.erase g ++ grantsOf (c.release g.2).2).length + (c.release g.2).1.queue.length =
      held.length + c.queue.length := by
  have hpos := List.length_pos_of_mem hg
  have herase := List.length_erase_of_mem hg
  obtain ⟨-, ⟨-, hbatch, hrest, -⟩ | ⟨-, hbatch, hqueue⟩⟩ := h.release hg
  -- what the batch brings to the held grants is what it takes from the queue
  · have hall := congrArg List.length (batchOf_append_rest c.queue)
    simp only [hbatch, hrest, grantsOf, List.length_append, List.length_map] at hall ⊢
    omega
  · simp only [hbatch, hqueue, grantsOf, List.length_append, List.length_map, List.length_nil]
    omega

namespace Releases

theorem settled (hr : c.Releases held batches c' held') (h : c.Settled held) :
    c'.Settled held' := by
  induction hr with
  | none => exact h
  | first hg _ ih => exact ih (h.release hg).1

/-- Some batches have been taken off the queue from the front, each of them whole. -/
theorem splitBy_queue (hr : c.Releases held batches c' held') (h : c.Settled held) :
    c.queue.splitBy Request.bothRead =
      batches.filter (fun batch => !batch.isEmpty) ++ c'.queue.splitBy Request.bothRead := by
  induction hr with
  | none => simp
  | first hg _ ih =>
    rw [h.splitBy_release hg, ih (h.release hg).1, ← List.append_assoc, ← List.filter_append,
      List.singleton_append]

/-- Every release has ended one grant of those that were held or waited. -/
theorem length_batches (hr : c.Releases held batches c' held') (h : c.Settled held) :
    -- each release takes one away, whether it ends a batch or leaves the others holding
    batches.length + held'.length + c'.queue.length = held.length + c.queue.length := by
  induction hr with
  | none => simp
  | first hg _ ih =>
    rw [← h.length_release hg, List.length_cons]
    have hrest := ih (h.release hg).1
    omega

end Releases

end Core

/-- The state with the given batch granted and nothing else held. -/
def State.OfBatch (s : State) (batch : List (Request α)) : Prop :=
  (∃ r, batch = [r] ∧ r.mode = .write ∧ s = .writing) ∨
    (∀ r ∈ batch, r.mode = .read) ∧ s = .reading batch.length

theorem ofBatch_stateOf {q : List (Request α)} (hq : q ≠ []) :
    (stateOf (batchOf q)).OfBatch (batchOf q) := by
  have hcounts := counts_stateOf_batchOf q
  rcases batchOf_cases q with hreads | ⟨r, hone, hwrite⟩
  · refine .inr ⟨hreads, (hcounts.eq_reading_iff _).2 ⟨?_, by simp, ?_⟩⟩
    · exact List.length_pos_iff.2 (mt batchOf_eq_nil_iff.1 hq)
    · simpa using hreads
  · refine .inl ⟨r, hone, hwrite, hcounts.eq_writing_iff.2 ?_⟩
    simp [hone, hwrite]

/-! ## The cores of a machine -/

namespace Lock

variable {l l' : Lock α} {mode : Mode}

/-- A lock submits to its core, and remembers what that has granted. -/
theorem submit_core (l : Lock α) (mode : Mode) (payload : α) :
    (l.submit mode payload).1.core = (l.core.submit mode payload l.config).1 ∧
      (l.submit mode payload).1.unended =
        l.unended ++ (l.core.submit mode payload l.config).2.grants := by
  unfold submit
  cases l.core.submit mode payload l.config with
  | mk core submission => cases submission <;> simp [Submission.grants]

end Lock

/-- The grants that a lock remembers have different numbers, so a number is enough to forget one. -/
theorem Balanced.filter_unended {id : LockId} {l : Lock Entry}
    {accepted issued ended : List Grant} (h : Balanced id l accepted issued ended) {g : Grant}
    (hg : g ∈ stillHeld issued ended) :
    (g.id, g.mode) ∈ l.unended ∧
      (l.unended.filter fun x => x.1 != g.id) = l.unended.erase (g.id, g.mode) := by
  -- the numbers of the issued grants differ, so the numbers of what is left of them do too
  have hids : (l.unended.map (·.1)).Nodup := by
    rw [h.unended, List.map_map]
    refine (stillHeld_nodup h.issued_nodup).map_on ?_
    intro x hx y hy hid
    have hsub := h.issued_sublist.subset
    exact h.eq_of_id_eq (hsub (mem_stillHeld.1 hx).1) (hsub (mem_stillHeld.1 hy).1) hid
  have hmem : (g.id, g.mode) ∈ l.unended := by
    rw [h.unended]
    exact List.mem_map_of_mem hg
  refine ⟨hmem, ?_⟩
  -- among pairs with different numbers, whoever has this number is this pair
  rw [hids.of_map.erase_eq_filter]
  refine List.filter_congr ?_
  intro x hx
  by_cases heq : x = (g.id, g.mode)
  · simp [heq]
  · have hother : x.1 ≠ g.id := fun hid => heq (List.inj_on_of_nodup_map hids hx hmem hid)
    rw [bne_iff_ne.2 hother, bne_iff_ne.2 heq]

namespace Ledger

variable {id : LockId} {k k' : Ledger}

theorem Sound.occurs_step (h : Sound id k) (hs : Step id k k')
    (hoccurs : k.lock.core.Occurs k.lock.unended) : k'.lock.core.Occurs k'.lock.unended := by
  -- a lock submits as its core does; what it logs and counts is not looked at
  have hsubmit : ∀ {l l' : Lock Entry} {mode entry submission}, l.core.Occurs l.unended →
      l.submit mode entry = (l', submission) → l'.core.Occurs l'.unended := by
    intro l l' mode entry submission hl heq
    have hnext := hl.submit mode entry l.config
    rw [← (l.submit_core mode entry).1, ← (l.submit_core mode entry).2, heq] at hnext
    exact hnext
  cases hs with
  | granted thread parent entered shown heq =>
    rw [Lock.dispatchOn_eq]
    have hgranted := hsubmit hoccurs heq
    exact hgranted
  | queued entered heq => exact hsubmit hoccurs heq
  | rejected entered heq => exact hsubmit hoccurs heq
  -- the lock forgets a grant by its number, and the core by the grant itself: the same here
  | ended thread parent entered hlock hunended hsource hrelease =>
    obtain ⟨hmem, hfilter⟩ :=
      h.balanced.filter_unended (h.held_of_isUnended hsource hunended)
    rw [Lock.deferBatch_eq]
    have hnext := hoccurs.release hmem
    rw [← hfilter] at hnext
    cases hrelease
    exact hnext
  | taken thread shown hnext =>
    obtain ⟨before, rest, after, -, -, rfl⟩ := Lock.next_cases hnext
    exact hoccurs
  | redundant entered hlock hended => exact hoccurs
  | failed failure entered hlock => exact hoccurs
  | closed thread => exact hoccurs
  | dropped tag hlock => exact hoccurs

theorem Reachable.occurs (h : Reachable id k) : k.lock.core.Occurs k.lock.unended := by
  -- which grants are remembered follows from the balance, so the balance is carried along
  have hboth := h.induct (P := fun k => Sound id k ∧ k.lock.core.Occurs k.lock.unended) ?_ ?_
  · exact hboth.2
  · intro start hstart
    refine ⟨.of_fresh hstart, ?_⟩
    obtain ⟨config, hlock⟩ := hstart.lock
    rw [hlock]
    exact .fresh
  · rintro k k' ⟨hsound, hoccurs⟩ hs
    exact ⟨hsound.step hs, hsound.occurs_step hs hoccurs⟩

end Ledger

/-- Every core that a run of the machine leads to comes about by submissions and releases, and the
    lock remembers what is held. -/
theorem Machine.Reachable.occurs {m : Machine} (h : m.Reachable) (id : LockId) :
    (m.world.lock id).core.Occurs (m.world.lock id).unended := by
  obtain ⟨-, out, -, hledgers⟩ := h.exists_ledger
  exact (hledgers id).occurs

/-! ## The queue of a core -/

/-- Take a core that has come about by submissions and releases, and release what is held, in any
    order and what is granted on the way included, while nobody submits.  Up to any moment the
    batches that were not empty are the first of the single writers and maximal runs of readers
    into which the queue falls, whole and in order, and what still waits falls into the others;
    so nothing of the queue is lost, repeated or put elsewhere.

    A release gives a batch that is not empty if and only if somebody waits and it ends the last
    grant that is held; then this batch is all that is held.  As long as the number of releases is
    below that of the grants that were held and the requests that waited at first, something is
    held that can be released; after exactly so many the core is free, not before, and nobody
    waits. -/
theorem queue_leaves_in_batches {c c' : Core α} {held held' : List (GrantId × Mode)}
    {batches : List (List (Request α))} (h : c.Occurs held)
    (hr : c.Releases held batches c' held') :
    c.state.holders = held.length ∧
    c.queue.splitBy Request.bothRead =
      batches.filter (fun batch => !batch.isEmpty) ++ c'.queue.splitBy Request.bothRead ∧
    c.queue = batches.flatten ++ c'.queue ∧
    (∀ g ∈ held', ((c'.release g.2).2 ≠ [] ↔ c'.queue ≠ [] ∧ held' = [g]) ∧
      ((c'.release g.2).2 ≠ [] → (c'.release g.2).1.state.OfBatch (c'.release g.2).2)) ∧
    (batches.length < held.length + c.queue.length → ∃ g, g ∈ held') ∧
    (c'.state = .free ↔ batches.length = held.length + c.queue.length) ∧
    (c'.state = .free → c'.queue = [] ∧
      batches.filter (fun batch => !batch.isEmpty) = c.queue.splitBy Request.bothRead ∧
      batches.flatten = c.queue) := by
  have hstart := h.settled
  have hlater := hr.settled hstart
  have hblocks := hr.splitBy_queue hstart
  have hlength := hr.length_batches hstart
  -- the runs, joined together again, are the queue, and empty batches add nothing to it
  have hflat : c.queue = batches.flatten ++ c'.queue := by
    have hjoined := congrArg List.flatten hblocks
    rwa [List.flatten_append, List.flatten_splitBy, List.flatten_splitBy,
      List.flatten_filter_not_isEmpty] at hjoined
  -- each release makes one grant less of what is held or waits, so the count says when all is gone
  have hdone : c'.state = .free ↔ batches.length = held.length + c.queue.length := by
    constructor
    · intro hfree
      simp only [hlater.free_iff.1 hfree, hlater.queue_eq_nil hfree, List.length_nil] at hlength
      exact hlength
    · intro hall
      exact hlater.free_iff.2 (List.eq_nil_of_length_eq_zero (by omega))
  refine ⟨hstart.holders, hblocks, hflat, ?release, ?goesOn, hdone, ?done⟩
  case release =>
    -- the last grant that is held brings the batch, and any other one leaves the queue as it is
    intro g hg
    obtain ⟨-, ⟨hone, hbatch, -, hstate⟩ | ⟨hmore, hbatch, -⟩⟩ := hlater.release hg
    · rw [hbatch, hstate, ne_eq, batchOf_eq_nil_iff]
      exact ⟨(and_iff_left hone).symm, ofBatch_stateOf⟩
    · rw [hbatch]
      exact ⟨iff_of_false (fun hnot => hnot rfl) fun hone => hmore hone.2,
        fun hnot => absurd rfl hnot⟩
  case goesOn =>
    intro hless
    refine List.exists_mem_of_ne_nil held' ?_
    -- with nothing held the lock would be free, which it is only after all of the releases
    intro hnone
    exact absurd (hdone.1 (hlater.free_iff.2 hnone)) (Nat.ne_of_lt hless)
  case done =>
    intro hfree
    have hnone := hlater.queue_eq_nil hfree
    refine ⟨hnone, ?_, ?_⟩
    · rw [hblocks, hnone, List.splitBy_nil, List.append_nil]
    · rw [hflat, hnone, List.append_nil]

/-! ## A queue behind a writer -/

/-- While a writer runs, two readers, a writer and a reader wait. -/
def behindWriter : Core Unit where
  state := .writing
  queue := [⟨2, .read, ()⟩, ⟨3, .read, ()⟩, ⟨4, .write, ()⟩, ⟨5, .read, ()⟩]
  nextId := 6

theorem occurs_behindWriter : behindWriter.Occurs [(1, .write)] :=
  (((((Core.Occurs.fresh.submit .write () {}).submit .read () {}).submit .read () {}).submit
    .write () {}).submit .read () {})

/-- The second of the two readers is released first. -/
theorem queue_leaves_in_batches_behindWriter :
    ∃ (c' : Core Unit) (batches : List (List (Request Unit))),
      behindWriter.Releases [(1, .write)] batches c' [] ∧
      batches.map (·.map (·.id)) = [[2, 3], [], [4], [5], []] ∧
      batches.filter (fun batch => !batch.isEmpty) =
        behindWriter.queue.splitBy Request.bothRead ∧
      c'.state = .free ∧ c'.queue = [] ∧
      ((behindWriter.release .write).2 ≠ [] ∧
        (behindWriter.release .write).1.state.OfBatch (behindWriter.release .write).2) := by
  have hstart := queue_leaves_in_batches occurs_behindWriter (.none behindWriter [(1, .write)])
  obtain ⟨-, -, -, hrelease, -⟩ := hstart
  obtain ⟨hbatch, hstate⟩ := hrelease (1, .write) List.mem_cons_self
  have hsome : (behindWriter.release .write).2 ≠ [] := hbatch.2 ⟨by decide, rfl⟩
  -- whatever is held may be released next, here the later reader first
  have hall : behindWriter.Releases [(1, .write)] _ _ [] :=
    .first (g := (1, .write)) (by decide) <| .first (g := (3, .read)) (by decide) <|
    .first (g := (2, .read)) (by decide) <| .first (g := (4, .write)) (by decide) <|
    .first (g := (5, .read)) (by decide) <| .none _ _
  obtain ⟨-, -, -, -, -, hfree, hdone⟩ := queue_leaves_in_batches occurs_behindWriter hall
  have hend := hfree.2 rfl
  exact ⟨_, _, hall, rfl, (hdone hend).2.1, hend, (hdone hend).1, hsome, hstate hsome⟩

end FairLock
