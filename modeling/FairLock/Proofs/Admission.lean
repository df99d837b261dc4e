import FairLock.Lock

/-!
# Admission and draining

What a core and a lock do with one submission and with one release, said once.  A state has no
identities in it; `State.Counts` says which held modes it stands for, and the lemmas on it show
that issuing and ending grants keep the count exact.

## Main definitions

- `State.Counts`: the state stands for grants of exactly these modes.
- `Core.Blocked`: the front of the queue cannot start in the present state.

## Main statements

- `State.Counts.acquired`, `State.Counts.released`, `counts_stateOf_batchOf`.
- `Lock.submit_granted`, `Lock.submit_queued`, `Lock.submit_rejected`, `Lock.release_cases`: all
  that a submission and a release can do.
-/

namespace FairLock

universe u

variable {α : Type u}

/-! ## States and the modes that they count -/

/-- The state stands for held grants of exactly these modes. -/
inductive State.Counts : State → List Mode → Prop where
  | free : Counts .free []
  | reading (n : Nat) : Counts (.reading (n + 1)) (List.replicate (n + 1) .read)
  | writing : Counts .writing [.write]

namespace State.Counts

variable {s : State} {modes : List Mode}

theorem eq_free_iff (h : s.Counts modes) : s = .free ↔ modes = [] := by
  cases h <;> simp

theorem eq_reading_iff (h : s.Counts modes) (n : Nat) :
    s = .reading n ↔ 1 ≤ n ∧ modes.length = n ∧ ∀ m ∈ modes, m = .read := by
  cases h with
  | free => simp; omega
  | reading k =>
    -- the counted modes are n + 1 readers, so that the counter is their number
    simp only [State.reading.injEq, List.length_replicate, List.mem_replicate]
    constructor
    · rintro rfl
      exact ⟨by omega, rfl, fun m hm => hm.2⟩
    · rintro ⟨-, rfl, -⟩
      rfl
  | writing => simp

theorem eq_writing_iff (h : s.Counts modes) : s = .writing ↔ modes = [.write] := by
  cases h with
  | free => simp
  | reading k =>
    simp only [reduceCtorEq, false_iff]
    intro heq
    simp [List.replicate_succ] at heq
  | writing => simp

/-- There is one holder for each mode that is counted. -/
theorem holders (h : s.Counts modes) : s.holders = modes.length := by
  cases h with
  | free => rfl
  | reading n => simp [State.holders]
  | writing => rfl

/-- The modes determine the state. -/
theorem unique {s' : State} (h : s.Counts modes) (h' : s'.Counts modes) : s = s' := by
  cases hs : s with
  | free => exact (h'.eq_free_iff.2 (h.eq_free_iff.1 hs)).symm
  | reading n => exact ((h'.eq_reading_iff n).2 ((h.eq_reading_iff n).1 hs)).symm
  | writing => exact (h'.eq_writing_iff.2 (h.eq_writing_iff.1 hs)).symm

/-- A mode that the state admits conflicts with nothing that is held. -/
theorem not_conflicts (h : s.Counts modes) {m : Mode} (ha : s.admits m = true) :
    ∀ m' ∈ modes, m'.conflicts m = false := by
  intro m' hm'
  cases h with
  | free => cases hm'
  | reading k =>
    rw [Mode.conflicts_eq_false_iff]
    exact ⟨(List.mem_replicate.1 hm').2, by simpa using ha⟩
  | writing => simp at ha

/-- A mode that the state does not admit conflicts with something that is held. -/
theorem exists_conflict (h : s.Counts modes) {m : Mode} (ha : s.admits m = false) :
    ∃ m' ∈ modes, m'.conflicts m = true := by
  cases h with
  | free => simp at ha
  | reading k =>
    have hm : m = .write := by simpa using ha
    subst hm
    exact ⟨.read, by simp [List.replicate_succ], rfl⟩
  | writing => exact ⟨.write, by simp, rfl⟩

theorem acquired (h : s.Counts modes) {m : Mode} (ha : s.admits m = true) :
    (s.acquired m).Counts (modes ++ [m]) := by
  cases h with
  | free =>
    cases m with
    | read => exact .reading 0
    | write => exact .writing
  | reading k =>
    -- next to readers only one more reader is admitted
    have hm : m = .read := by simpa using ha
    subst hm
    rw [← List.replicate_succ']
    exact .reading (k + 1)
  | writing => simp at ha

theorem released {β : Type} [BEq β] [LawfulBEq β] {f : β → Mode} {gs : List β} {g : β}
    (h : s.Counts (gs.map f)) (hg : g ∈ gs) : (s.released (f g)).Counts ((gs.erase g).map f) := by
  have hlen := List.length_erase_of_mem hg
  generalize hms : gs.map f = ms at h
  cases h with
  | free =>
    rw [List.map_eq_nil_iff] at hms
    subst hms
    cases hg
  | reading k =>
    -- without one of its readers, the list is a shorter list of readers
    have hread : ∀ x ∈ gs, f x = .read := by
      intro x hx
      have : f x ∈ List.replicate (k + 1) Mode.read := hms ▸ List.mem_map_of_mem hx
      exact (List.mem_replicate.1 this).2
    have hgs : gs.length = k + 1 := by simpa using congrArg List.length hms
    have hrest : (gs.erase g).map f = List.replicate k .read := by
      rw [List.eq_replicate_iff, List.length_map]
      refine ⟨by omega, ?_⟩
      intro m hm
      obtain ⟨x, hx, rfl⟩ := List.mem_map.1 hm
      exact hread x (List.mem_of_mem_erase hx)
    rw [hrest, hread g hg]
    cases k with
    | zero => exact .free
    | succ k => simpa [State.released] using Counts.reading k
  | writing =>
    obtain ⟨x, rfl, hx⟩ := List.map_eq_singleton_iff.1 hms
    obtain rfl := List.mem_singleton.1 hg
    simpa [hx, State.released] using Counts.free

/-- While something else is held, a release admits nothing that was not admitted before. -/
theorem admits_released_eq_false (h : s.Counts modes) {m m' : Mode} (hm : m ∈ modes)
    (hbusy : s.released m ≠ .free) (ha : s.admits m' = false) :
    (s.released m).admits m' = false := by
  cases h with
  | free => cases hm
  | reading k =>
    obtain ⟨-, rfl⟩ := List.mem_replicate.1 hm
    -- the last reader would free the lock, so others are left and the lock still reads
    cases k with
    | zero => exact absurd rfl hbusy
    | succ k => simpa [State.released] using ha
  | writing =>
    obtain rfl := List.mem_singleton.1 hm
    exact absurd rfl hbusy

end State.Counts

/-! ## Batches -/

/-- A batch is empty, consists of readers, or is one writer. -/
theorem batchOf_cases (q : List (Request α)) :
    (∀ r ∈ batchOf q, r.mode = .read) ∨ ∃ r, batchOf q = [r] ∧ r.mode = .write := by
  cases q with
  | nil => exact .inl (by simp [batchOf])
  | cons front rest =>
    cases h : front.mode with
    | write => exact .inr ⟨front, by simp [batchOf, h], h⟩
    | read =>
      -- the batch is the front and the readers that follow it up to the first writer
      refine .inl ?_
      intro r hr
      simp only [batchOf, h, List.mem_cons] at hr
      rcases hr with rfl | hr
      · exact h
      · simpa using List.all_eq_true.1 List.all_takeWhile r hr

theorem foldl_acquired_counts {batch : List (Request α)} (h : ∀ r ∈ batch, r.mode = .read)
    {s : State} {modes : List Mode} (hs : s.Counts modes) (hread : s.admits .read = true) :
    (batch.foldl (fun s r => s.acquired r.mode) s).Counts (modes ++ batch.map (·.mode)) := by
  induction batch generalizing s modes with
  | nil => simpa using hs
  | cons r rest ih =>
    have hr : r.mode = .read := h r (by simp)
    have hnext : (s.acquired .read).admits .read = true := by cases s <;> simp [State.acquired]
    have := ih (fun x hx => h x (by simp [hx])) (hs.acquired hread) hnext
    simpa [hr, List.append_assoc] using this

/-- A free lock counts exactly the batch that it has granted. -/
theorem counts_stateOf_batchOf (q : List (Request α)) :
    (stateOf (batchOf q)).Counts ((batchOf q).map (·.mode)) := by
  rcases batchOf_cases q with h | ⟨r, hb, hr⟩
  · exact foldl_acquired_counts h .free (by simp)
  · rw [hb]
    simpa [stateOf, hr, State.acquired] using State.Counts.writing

/-! ## The front of the queue -/

/-- The front of the queue, if there is one, is not admitted by the state. -/
def Core.Blocked (c : Core α) : Prop :=
  ∀ front ∈ c.queue.head?, c.state.admits front.mode = false

/-- Nobody waits at a free lock. -/
theorem Core.Blocked.queue_eq_nil {c : Core α} (h : c.Blocked) (hfree : c.state = .free) :
    c.queue = [] := by
  cases hqueue : c.queue with
  | nil => rfl
  | cons front rest =>
    have hfront := h front (by simp [hqueue])
    simp [hfree] at hfront

/-- A drain stops only in front of a request that cannot join the batch. -/
theorem blocked_after_drain (q : List (Request α)) :
    ∀ front ∈ (restOf q).head?, (stateOf (batchOf q)).admits front.mode = false := by
  cases q with
  | nil => simp [restOf]
  | cons first rest =>
    cases h : first.mode with
    | write =>
      intro front _
      simp [batchOf, h, stateOf, State.acquired]
    | read =>
      -- the batch has taken all readers from the front, so a writer is left there
      intro front hfront
      have hw : front.mode.isRead = false := by
        simp only [restOf, h] at hfront
        have := List.head?_dropWhile_not (fun r : Request α => r.mode.isRead) rest
        rw [Option.mem_def.1 hfront] at this
        simpa using this
      have hbatch := counts_stateOf_batchOf (first :: rest)
      have hmem : Mode.read ∈ (batchOf (first :: rest)).map (·.mode) := by simp [batchOf, h]
      cases hs : stateOf (batchOf (first :: rest)) with
      | free =>
        rw [hbatch.eq_free_iff.1 hs] at hmem
        cases hmem
      | reading n => simpa using hw
      | writing => simp

/-! ## One submission and one release of a lock -/

/-- Has a request of the mode to wait, whatever the bound on the queue? -/
def Core.MustWait (c : Core α) (mode : Mode) : Prop :=
  c.queue = [] → c.state.admits mode = false

namespace Core

variable {c : Core α} {mode : Mode} {config : Config}

/-- Who has to wait joins the end of the queue, and the front still cannot start. -/
theorem Blocked.append (h : c.Blocked) {r : Request α} (hwait : c.MustWait r.mode) :
    ∀ front ∈ (c.queue ++ [r]).head?, c.state.admits front.mode = false := by
  intro front hfront
  cases hqueue : c.queue with
  | nil =>
    obtain rfl : r = front := by simpa [hqueue] using hfront
    exact hwait hqueue
  | cons first rest => exact h front (by simpa [hqueue] using hfront)

theorem submit_of_admitted (hq : c.queue = []) (ha : c.state.admits mode = true) (payload : α) :
    c.submit mode payload config =
      ({ c with state := c.state.acquired mode, nextId := c.nextId + 1 },
        .granted ⟨c.nextId, mode, payload⟩) := by
  simp [submit, hq, ha]

theorem not_admitted_iff : ¬(c.queue.isEmpty && c.state.admits mode) = true ↔ c.MustWait mode := by
  cases hq : c.queue <;> simp [MustWait, hq]

theorem submit_of_full {limit : Nat} (hw : c.MustWait mode)
    (hl : config.reachedLimit c.pending = some limit) (payload : α) :
    c.submit mode payload config = (c, .rejected payload limit) := by
  unfold submit
  rw [if_neg (not_admitted_iff.2 hw), hl]

theorem submit_of_room (hw : c.MustWait mode) (hl : config.reachedLimit c.pending = none)
    (payload : α) :
    c.submit mode payload config =
      ({ c with queue := c.queue ++ [⟨c.nextId, mode, payload⟩], nextId := c.nextId + 1 },
        .queued c.nextId (c.queue.length + 1)) := by
  unfold submit
  rw [if_neg (not_admitted_iff.2 hw), hl]
  rfl

end Core

namespace Lock

variable {l l' : Lock α} {mode : Mode} {payload : α}

/-- A submission is granted, turned away, or has to wait. -/
theorem submit_cases (l : Lock α) (mode : Mode) (payload : α) :
    (l.core.queue = [] ∧ l.core.state.admits mode = true ∧
      l.submit mode payload =
        ({ l with
            core :=
              { l.core with state := l.core.state.acquired mode, nextId := l.core.nextId + 1 }
            stats := l.stats.countGranted
            unended := l.unended ++ [(l.core.nextId, mode)] },
          .granted ⟨l.core.nextId, mode, payload⟩)) ∨
    (l.core.MustWait mode ∧ ∃ limit, l.config.reachedLimit l.pending = some limit ∧
      l.submit mode payload =
        ({ l with stats := l.stats.countRejected }, .rejected payload limit)) ∨
    (l.core.MustWait mode ∧ l.config.reachedLimit l.pending = none ∧
      l.submit mode payload =
        ({ l with
            core :=
              { l.core with
                queue := l.core.queue ++ [⟨l.core.nextId, mode, payload⟩]
                nextId := l.core.nextId + 1 }
            stats := l.stats.countQueued (l.core.queue.length + 1) },
          .queued l.core.nextId (l.core.queue.length + 1))) := by
  -- who has to wait is turned away or queued, as the bound has it;
  -- who need not finds nobody waiting
  by_cases hw : l.core.MustWait mode
  · cases hl : l.config.reachedLimit l.core.pending with
    | some limit =>
      refine .inr (.inl ⟨hw, limit, hl, ?_⟩)
      unfold submit
      rw [Core.submit_of_full hw hl]
    | none =>
      refine .inr (.inr ⟨hw, hl, ?_⟩)
      unfold submit
      rw [Core.submit_of_room hw hl]
  · simp only [Core.MustWait, Classical.not_imp, Bool.not_eq_false] at hw
    refine .inl ⟨hw.1, hw.2, ?_⟩
    unfold submit
    rw [Core.submit_of_admitted hw.1 hw.2]

theorem submit_granted {r : Request α} (h : l.submit mode payload = (l', .granted r)) :
    l.core.queue = [] ∧ l.core.state.admits mode = true ∧ r = ⟨l.core.nextId, mode, payload⟩ ∧
      l' =
        { l with
          core :=
            { l.core with state := l.core.state.acquired mode, nextId := l.core.nextId + 1 }
          stats := l.stats.countGranted
          unended := l.unended ++ [(l.core.nextId, mode)] } := by
  rcases submit_cases l mode payload with ⟨hq, ha, he⟩ | ⟨_, _, _, he⟩ | ⟨_, _, he⟩
  -- the other two outcomes answer in another form
  all_goals
    rw [he] at h
    cases h
  exact ⟨hq, ha, rfl, rfl⟩

theorem submit_queued {id : GrantId} {pending : Nat}
    (h : l.submit mode payload = (l', .queued id pending)) :
    l.core.MustWait mode ∧ l.config.reachedLimit l.pending = none ∧ id = l.core.nextId ∧
      pending = l.core.queue.length + 1 ∧
      l' =
        { l with
          core :=
            { l.core with
              queue := l.core.queue ++ [⟨l.core.nextId, mode, payload⟩]
              nextId := l.core.nextId + 1 }
          stats := l.stats.countQueued (l.core.queue.length + 1) } := by
  rcases submit_cases l mode payload with ⟨_, _, he⟩ | ⟨_, _, _, he⟩ | ⟨hw, hl, he⟩
  all_goals
    rw [he] at h
    cases h
  exact ⟨hw, hl, rfl, rfl, rfl⟩

theorem submit_rejected {refused : α} {limit : Nat}
    (h : l.submit mode payload = (l', .rejected refused limit)) :
    l.core.MustWait mode ∧ l.config.reachedLimit l.pending = some limit ∧ refused = payload ∧
      l' = { l with stats := l.stats.countRejected } := by
  rcases submit_cases l mode payload with ⟨_, _, he⟩ | ⟨hw, _, hl, he⟩ | ⟨_, _, he⟩
  all_goals
    rw [he] at h
    cases h
  exact ⟨hw, hl, rfl, rfl⟩

/-- A release leaves grants behind and moves nothing, or it frees the lock and grants the batch at
    the front of the queue. -/
theorem release_cases {id : GrantId} {batch : List (Request α)}
    (h : l.release id mode = (l', batch)) :
    (l.core.state.released mode ≠ .free ∧ batch = [] ∧
      l' =
        { l with
          core := { l.core with state := l.core.state.released mode }
          stats := l.stats.countReleased
          unended := l.unended.filter fun g => g.1 != id }) ∨
    (l.core.state.released mode = .free ∧ batch = batchOf l.core.queue ∧
      l' =
        { l with
          core :=
            { l.core with
              state := stateOf (batchOf l.core.queue)
              queue := restOf l.core.queue }
          stats :=
            if batch.isEmpty then l.stats.countReleased
            else l.stats.countReleased.countDrain batch.length (startsWithRead batch)
          unended :=
            (l.unended.filter fun g => g.1 != id) ++ batch.map fun r => (r.id, r.mode) }) := by
  unfold release at h
  -- only a release that frees the lock looks at the queue
  by_cases hfree : l.core.state.released mode = .free
  · rw [Core.release_of_free hfree] at h
    cases h
    exact .inr ⟨hfree, rfl, rfl⟩
  · rw [Core.release_of_not_free hfree] at h
    cases h
    exact .inl ⟨hfree, rfl, by simp⟩

end Lock

end FairLock
