import FairLock.Proofs.Batches

/-!
# Nobody waits for nothing

A core looks at its queue only when it has become free.  While anything is held, a drain returns at
once and does not even look at who is in front.  This is right because of what a core looks like
between two calls: nobody waits at a free lock, and who waits next to readers waits behind a writer.
So a drain that never returned early, and granted the front for as long as the state admits it,
would grant the same requests.

## Main definitions

- `Core.WellFormed`: what the state of a core says about its queue.
- `admittedFrom`, `Core.drainAdmitted`: a drain that does not return early.

## Main statements

- `Core.wellFormed_iff`: a core is of this form if and only if readers are counted and the front of
  its queue has to wait.
- `Core.drain_eq_drainAdmitted_iff`: when returning early makes no difference.
- `waiting_front_not_admitted`: after every call on a core the front of its queue has to wait.
- `Core.WellFormed.exists_occurs`: every state and queue of this form comes about.
-/

namespace FairLock

universe u

variable {α : Type u}

/-! ## A drain that does not return early -/

/-- The requests at the front of a queue that are admitted one after the other, each next to what is
    held and to those before it. -/
def admittedFrom : State → List (Request α) → List (Request α)
  | _, [] => []
  | s, front :: rest =>
    if s.admits front.mode then front :: admittedFrom (s.acquired front.mode) rest else []

theorem admittedFrom_eq_nil_iff {s : State} {q : List (Request α)} :
    admittedFrom s q = [] ↔ ∀ front ∈ q.head?, s.admits front.mode = false := by
  cases q with
  | nil => simp [admittedFrom]
  | cons front rest => simp [admittedFrom]

/-- Next to readers all readers at the front are admitted, and no writer is. -/
theorem admittedFrom_reading (n : Nat) (q : List (Request α)) :
    admittedFrom (.reading n) q = q.takeWhile fun r => r.mode.isRead := by
  induction q generalizing n with
  | nil => rfl
  | cons front rest ih =>
    cases hmode : front.mode with
    | read => simp [admittedFrom, hmode, State.acquired, ih]
    | write => simp [admittedFrom, hmode]

/-- Next to a writer nobody is admitted. -/
theorem admittedFrom_writing (q : List (Request α)) : admittedFrom .writing q = [] :=
  admittedFrom_eq_nil_iff.2 fun front _ => State.admits_writing front.mode

/-- At a free lock the batch at the front is admitted. -/
theorem admittedFrom_free (q : List (Request α)) : admittedFrom .free q = batchOf q := by
  cases q with
  | nil => rfl
  | cons front rest =>
    cases hmode : front.mode with
    | read => simp [admittedFrom, batchOf, hmode, State.acquired, admittedFrom_reading]
    | write => simp [admittedFrom, batchOf, hmode, State.acquired, admittedFrom_writing]

theorem drop_batchOf (q : List (Request α)) : q.drop (batchOf q).length = restOf q := by
  have hdrop : (batchOf q ++ restOf q).drop (batchOf q).length = restOf q := List.drop_left
  rwa [batchOf_append_rest] at hdrop

namespace Core

variable {c : Core α} {held : List (GrantId × Mode)}

/-- Grant the front of the queue for as long as the state admits it, whether the lock is free or
    not. -/
def drainAdmitted (c : Core α) : Core α × List (Request α) :=
  ({ c with
      state := (admittedFrom c.state c.queue).foldl (fun s r => s.acquired r.mode) c.state
      queue := c.queue.drop (admittedFrom c.state c.queue).length },
    admittedFrom c.state c.queue)

/-- To return early makes no difference if and only if the front has to wait whenever a lock is not
    free. -/
theorem drain_eq_drainAdmitted_iff : c.drain = c.drainAdmitted ↔ (c.state ≠ .free → c.Blocked) := by
  -- a free lock drains the same batch either way, and one that is not free drains nothing
  by_cases hfree : c.state = .free
  · simp [drain, drainAdmitted, hfree, admittedFrom_free, drop_batchOf, stateOf]
  · constructor
    · intro heq _
      have hnone : [] = admittedFrom c.state c.queue := by
        simpa [drain, drainAdmitted, hfree] using congrArg Prod.snd heq
      exact admittedFrom_eq_nil_iff.1 hnone.symm
    · intro hblocked
      have hnone : admittedFrom c.state c.queue = [] :=
        admittedFrom_eq_nil_iff.2 (hblocked hfree)
      simp [drain, drainAdmitted, hfree, hnone]

/-! ## The form of a core -/

/-- What the state of a core says about its queue. -/
structure WellFormed (c : Core α) : Prop where
  /-- Nobody waits at a free lock. -/
  free : c.state = .free → c.queue = []
  /-- Readers are counted from one. -/
  counted : ∀ n, c.state = .reading n → 1 ≤ n
  /-- Who waits next to readers waits behind a writer. -/
  reading : ∀ n, c.state = .reading n → ∀ front ∈ c.queue.head?, front.mode = .write

theorem wellFormed_iff : c.WellFormed ↔ c.state ≠ .reading 0 ∧ c.Blocked := by
  constructor
  · intro h
    refine ⟨fun hzero => absurd (h.counted 0 hzero) (by decide), ?_⟩
    intro front hfront
    -- the state says whom it admits; a front that waits is none of those
    cases hstate : c.state with
    | free => simp [h.free hstate] at hfront
    | reading n => simp [h.reading n hstate front hfront]
    | writing => simp
  -- the other way round the same, state by state
  · rintro ⟨hcounted, hblocked⟩
    constructor
    case free => exact hblocked.queue_eq_nil
    case counted =>
      intro n hn
      refine Nat.one_le_iff_ne_zero.2 ?_
      rintro rfl
      exact hcounted hn
    case reading =>
      intro n hn front hfront
      simpa [hn] using hblocked front hfront

theorem Settled.wellFormed (h : c.Settled held) : c.WellFormed := by
  refine wellFormed_iff.2 ⟨?_, h.blocked⟩
  intro hzero
  exact absurd ((h.counts.eq_reading_iff 0).1 hzero).1 (by decide)

/-! ## Every form comes about -/

/-- If the first of some requests has to wait, all of them can join the queue. -/
theorem Occurs.exists_append (h : c.Occurs held) {q : List (Request α)}
    (hwait : ∀ r ∈ q.head?, c.MustWait r.mode) :
    ∃ c' : Core α, c'.Occurs held ∧ c'.state = c.state ∧
      c'.queue.map (·.mode) = c.queue.map (·.mode) ++ q.map (·.mode) := by
  induction q generalizing c with
  | nil => exact ⟨c, h, rfl, by simp⟩
  | cons r rest ih =>
    -- default settings leave the number of waiting requests open
    have hroom : Config.reachedLimit {} c.pending = none := rfl
    have hnext := submit_of_room (hwait r (by simp)) hroom r.payload
    have hoccurs := h.submit r.mode r.payload {}
    rw [hnext, Submission.grants, List.append_nil] at hoccurs
    -- behind the first request there is a queue, so that the others have to wait for it
    obtain ⟨c', hc', hstate, hqueue⟩ := ih hoccurs fun r' _ hempty => by simp at hempty
    exact ⟨c', hc', hstate, by simpa using hqueue⟩

/-- Any number of readers can be held. -/
theorem exists_occurs_reading (payload : α) (n : Nat) :
    ∃ (c : Core α) (held : List (GrantId × Mode)),
      c.Occurs held ∧ c.state = .reading (n + 1) ∧ c.queue = [] := by
  induction n with
  | zero => exact ⟨_, _, Occurs.fresh.submit .read payload {}, rfl, rfl⟩
  -- one more reader joins, as nobody waits
  | succ n ih =>
    obtain ⟨c, held, hoccurs, hstate, hqueue⟩ := ih
    have hadmits : c.state.admits .read = true := by simp [hstate]
    have hnext : c.submit .read payload {} = _ := submit_of_admitted hqueue hadmits payload
    refine ⟨_, _, hoccurs.submit .read payload {}, ?_, ?_⟩
    · rw [hnext, hstate]
      rfl
    · rw [hnext]
      exact hqueue

/-- Every state in which readers are counted from one comes about while nobody waits. -/
theorem exists_occurs_state (payload : α) {s : State} (hs : s ≠ .reading 0) :
    ∃ (c : Core α) (held : List (GrantId × Mode)),
      c.Occurs held ∧ c.state = s ∧ c.queue = [] := by
  cases s with
  | free => exact ⟨_, _, .fresh, rfl, rfl⟩
  | reading n =>
    cases n with
    | zero => exact absurd rfl hs
    | succ n => exact exists_occurs_reading payload n
  | writing => exact ⟨_, _, Occurs.fresh.submit .write payload {}, rfl, rfl⟩

/-- The form is all that there is to say: if a core has it, some calls lead to the same state and to
    a queue of the same modes. -/
theorem WellFormed.exists_occurs (h : c.WellFormed) (payload : α) :
    ∃ (c' : Core α) (held : List (GrantId × Mode)),
      c'.Occurs held ∧ c'.state = c.state ∧ c'.queue.map (·.mode) = c.queue.map (·.mode) := by
  obtain ⟨hcounted, hblocked⟩ := wellFormed_iff.1 h
  -- the state comes about first, and then the queue joins
  obtain ⟨c₀, held, hoccurs, hstate, hqueue⟩ := exists_occurs_state payload hcounted
  have hwait : ∀ r ∈ c.queue.head?, c₀.MustWait r.mode := by
    intro r hr _
    rw [hstate]
    exact hblocked r hr
  obtain ⟨c', hoccurs', hstate', hqueue'⟩ := hoccurs.exists_append hwait
  rw [hqueue, List.map_nil, List.nil_append] at hqueue'
  exact ⟨c', held, hoccurs', hstate'.trans hstate, hqueue'⟩

end Core

/-! ## After every call -/

/-- After every call of a row of submissions, under any settings, and releases of what is held,
    nobody waits at a free lock, readers are counted from one, and the front of a queue next to
    readers is a writer; so the state never admits the front.

    A release that leaves something held drains nothing and returns early, and then too the front is
    not admitted: every release grants just what a drain would that goes on for as long as the state
    admits the front. -/
theorem waiting_front_not_admitted {c : Core α} {held : List (GrantId × Mode)}
    (h : c.Occurs held) :
    c.WellFormed ∧
    (∀ front ∈ c.queue.head?, c.state.admits front.mode = false) ∧
    ∀ g ∈ held,
      (c.state.released g.2 ≠ .free →
        c.release g.2 = ({ c with state := c.state.released g.2 }, []) ∧
        ∀ front ∈ c.queue.head?, (c.state.released g.2).admits front.mode = false) ∧
      c.release g.2 = ({ c with state := c.state.released g.2 } : Core α).drainAdmitted := by
  have hsettled := h.settled
  refine ⟨hsettled.wellFormed, hsettled.blocked, ?_⟩
  intro g hg
  -- what the release leaves behind comes about as well, so that its front has to wait too
  have hlater : c.state.released g.2 ≠ .free →
      ({ c with state := c.state.released g.2 } : Core α).Blocked := by
    intro hbusy
    have hblocked := (hsettled.release hg).1.blocked
    rwa [Core.release_of_not_free hbusy] at hblocked
  refine ⟨fun hbusy => ⟨Core.release_of_not_free hbusy, hlater hbusy⟩, ?_⟩
  exact Core.drain_eq_drainAdmitted_iff.2 hlater

/-! ## A writer between readers -/

/-- While two readers run, a writer waits, and behind it a reader. -/
def writerBetweenReaders : Core Unit where
  state := .reading 2
  queue := [⟨3, .write, ()⟩, ⟨4, .read, ()⟩]
  nextId := 5

theorem occurs_writerBetweenReaders :
    writerBetweenReaders.Occurs [(1, .read), (2, .read)] :=
  (((Core.Occurs.fresh.submit .read () {}).submit .read () {}).submit .write () {}).submit .read
    () {}

/-- The first release returns early, the second one grants the writer and leaves the reader behind
    it. -/
theorem waiting_front_not_admitted_writerBetweenReaders :
    writerBetweenReaders.Occurs [(1, .read), (2, .read)] ∧
    writerBetweenReaders.WellFormed ∧
    writerBetweenReaders.release .read =
      ({ writerBetweenReaders with state := .reading 1 }, []) ∧
    ({ writerBetweenReaders with state := .reading 1 } : Core Unit).Occurs [(2, .read)] ∧
    ({ writerBetweenReaders with state := .reading 1 } : Core Unit).release .read =
      ({ state := .writing, queue := [⟨4, .read, ()⟩], nextId := 5 }, [⟨3, .write, ()⟩]) := by
  obtain ⟨hform, -, hreleases⟩ := waiting_front_not_admitted occurs_writerBetweenReaders
  obtain ⟨hearly, -⟩ := hreleases (1, .read) (by decide)
  have hreleased := (hearly (by decide)).1
  -- the release has left the core as it says, so it can be followed by another
  have hoccurs := occurs_writerBetweenReaders.release (g := (1, .read)) (by decide)
  rw [hreleased] at hoccurs
  obtain ⟨-, -, hreleases'⟩ := waiting_front_not_admitted hoccurs
  exact ⟨occurs_writerBetweenReaders, hform, hreleased, hoccurs,
    (hreleases' (2, .read) (by decide)).2⟩

end FairLock
