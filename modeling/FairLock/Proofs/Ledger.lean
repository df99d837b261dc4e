import FairLock.Proofs.Admission
import FairLock.Proofs.Journal
import FairLock.Proofs.RunLists
import Mathlib.Logic.Relation

/-!
# The ledger of a lock

A ledger is what one lock looks like from outside the machine: the lock itself, its journal, and
the grants that an unwound loop has taken off a run list and not yet dropped.  `Ledger.Step` lists
all that can happen to it, with the events that each step leaves in the journal.  Nothing here
knows of frames, tasks or futures, so what is proved of a ledger holds however the machine around
it is driven.

## Main definitions

- `Ledger`, `Ledger.waiting`, `Ledger.deferred`.
- `Ledger.Step`: one step; `Ledger.Run`: any number of steps.
- `Ledger.Fresh`: a lock that was just created; `Ledger.Reachable`.
-/

namespace FairLock

/-- The grant that a request of a lock is given. -/
def Request.grant {α : Type} (lock : LockId) (r : Request α) : Grant := ⟨lock, r.id, r.mode⟩

section Grant

variable {α : Type} {lock : LockId} {r : Request α}

@[simp] theorem Request.grant_lock : (r.grant lock).lock = lock := rfl
@[simp] theorem Request.grant_id : (r.grant lock).id = r.id := rfl
@[simp] theorem Request.grant_mode : (r.grant lock).mode = r.mode := rfl

end Grant

namespace Lock

variable {α : Type}

/-- The notice that a lock makes when a grant ends. -/
def holdNotice (l : Lock α) (g : Grant) : Notice :=
  if l.config.slowHold.totalNanos = 0 then .slow g else .closed g

/-- What a lock reports of a contained failure. -/
def failureEvents (l : Lock α) (g : Grant) (failure : Failure) (entered : List Grant) : Journal :=
  if l.config.logFailures then [.notice (.entryFailed g failure) entered] else []

end Lock

/-- What a drain leaves in the journal. -/
def drainEvents {α : Type} (lock : LockId) (batch : List (Request α)) (pending : Nat)
    (parent : Option Grant) (entered : List Grant) : Journal :=
  match batch with
  | [] => []
  | front :: _ =>
    (batch.map fun r => Event.issued (r.grant lock) parent).reverse ++
      [.notice (.draining lock front.mode batch.length pending) entered]

/-- A lock as it is seen from outside the machine. -/
structure Ledger where
  /-- The lock. -/
  lock : Lock Entry
  /-- What has happened on it. -/
  journal : Journal
  /-- The grants that an unwound loop took off its run list and that are still to be dropped. -/
  out : List Grant

namespace Ledger

/-- The requests that wait, the oldest first. -/
def waiting (id : LockId) (k : Ledger) : List Grant := k.lock.core.queue.map (Request.grant id)

/-- The granted requests on the run lists. -/
def deferred (id : LockId) (k : Ledger) : List Grant :=
  (deferredIn k.lock.runLists).map (Request.grant id)

/-- One step of the lock with the given number. -/
inductive Step (id : LockId) : Ledger → Ledger → Prop where
  /-- A submission is granted, and its entry point started in place. -/
  | granted {l l' journal out mode entry r} (thread : ThreadId) (parent : Option Grant)
      (entered : List Grant) (shown : Option (String × Option State))
      (h : l.submit mode entry = (l', .granted r)) :
      Step id ⟨l, journal, out⟩
        ⟨l'.dispatchOn thread,
          .started (r.grant id) thread shown :: .issued (r.grant id) parent ::
            .notice (.grantedImmediately (r.grant id) l'.state) entered :: journal, out⟩
  /-- A submission has to wait. -/
  | queued {l l' journal out mode entry n pending} (entered : List Grant)
      (h : l.submit mode entry = (l', .queued n pending)) :
      Step id ⟨l, journal, out⟩
        ⟨l', .notice (.queued ⟨id, n, mode⟩ l'.state pending) entered :: journal, out⟩
  /-- A submission is turned away. -/
  | rejected {l l' journal out mode entry refused limit} (entered : List Grant)
      (h : l.submit mode entry = (l', .rejected refused limit)) :
      Step id ⟨l, journal, out⟩
        ⟨l', .notice (.rejected id mode limit) entered :: journal, out⟩
  /-- A grant ends: that of an entry point that was started, or one that is handed back. -/
  | ended {l l' journal out g batch} (thread : ThreadId) (parent : Option Grant)
      (entered : List Grant) (hlock : g.lock = id) (hunended : l.isUnended g.id = true)
      (hsource : g ∈ journal.started ∨ g ∈ out) (h : l.release g.id g.mode = (l', batch)) :
      Step id ⟨l, journal, out⟩
        ⟨l'.deferBatch thread batch,
          drainEvents id batch l'.pending parent entered ++
            .notice (.released g l'.state l'.pending) entered ::
              .notice (l.holdNotice g) (g :: entered) :: journal, out⟩
  /-- A grant is released that has ended before. -/
  | redundant {l journal out g} (entered : List Grant) (hlock : g.lock = id)
      (hended : l.isUnended g.id = false) :
      Step id ⟨l, journal, out⟩
        ⟨l.countRedundant, .notice (.redundant g) entered :: journal, out⟩
  /-- A contained failure is counted and reported. -/
  | failed {l journal out g} (failure : Failure) (entered : List Grant) (hlock : g.lock = id) :
      Step id ⟨l, journal, out⟩
        ⟨l.countFailure, l.failureEvents g failure entered ++ journal, out⟩
  /-- A thread starts the next entry point on its run list. -/
  | taken {l l' journal out r} (thread : ThreadId) (shown : Option (String × Option State))
      (h : l.next thread = some (r, l')) :
      Step id ⟨l, journal, out⟩
        ⟨l', .started (r.grant id) thread shown :: journal, out⟩
  /-- A thread gives up its run list, with what it still holds. -/
  | closed {l journal out} (thread : ThreadId) :
      Step id ⟨l, journal, out⟩
        ⟨(l.close thread).1, journal, (l.deferredOn thread).map (Request.grant id) ++ out⟩
  /-- An entry point that was taken off a run list is dropped uncalled. -/
  | dropped {l journal out g} (tag : Option String) (hlock : g.lock = id) :
      Step id ⟨l, journal, g :: out⟩ ⟨l, .discarded (some g) tag :: journal, out⟩

/-- Any number of steps. -/
abbrev Run (id : LockId) : Ledger → Ledger → Prop := Relation.ReflTransGen (Step id)

/-- A lock that was just created. -/
structure Fresh (k : Ledger) : Prop where
  lock : ∃ config, k.lock = { config := config }
  journal : ∀ e ∈ k.journal, ∃ id entered, e = .notice (.created id) entered
  out : k.out = []

/-- A ledger that a lock can come to have. -/
def Reachable (id : LockId) (k : Ledger) : Prop := ∃ start, Fresh start ∧ Run id start k

theorem Reachable.run {id : LockId} {k k' : Ledger} (h : Reachable id k) (hr : Run id k k') :
    Reachable id k' := by
  obtain ⟨start, hstart, hrun⟩ := h
  exact ⟨start, hstart, hrun.trans hr⟩

/-- What every fresh ledger has and every step keeps, every reachable ledger has. -/
theorem Reachable.induct {id : LockId} {P : Ledger → Prop} (fresh : ∀ k, Fresh k → P k)
    (step : ∀ k k', P k → Step id k k' → P k') {k : Ledger} (h : Reachable id k) : P k := by
  obtain ⟨start, hstart, hrun⟩ := h
  induction hrun with
  | refl => exact fresh start hstart
  | tail _ hs ih => exact step _ _ ih hs

/-- A step only adds to the journal. -/
theorem Step.journal_suffix {id : LockId} {k k' : Ledger} (h : Step id k k') :
    k.journal <:+ k'.journal := by
  -- the end of a grant is reported in two parts, and its drain comes on top of both
  cases h with
  | ended thread parent entered hlock hunended hsource h =>
    exact ((List.suffix_cons _ _).trans (List.suffix_cons _ _)).trans (List.suffix_append _ _)
  | failed failure entered hlock => exact List.suffix_append _ _
  | closed thread => exact List.suffix_refl _
  | granted thread parent entered shown h => exact ⟨[_, _, _], rfl⟩
  | queued entered h => exact List.suffix_cons _ _
  | rejected entered h => exact List.suffix_cons _ _
  | redundant entered hlock hended => exact List.suffix_cons _ _
  | taken thread shown h => exact List.suffix_cons _ _
  | dropped tag hlock => exact List.suffix_cons _ _

/-- A lock keeps its settings. -/
theorem Step.config_eq {id : LockId} {k k' : Ledger} (h : Step id k k') :
    k'.lock.config = k.lock.config := by
  -- a lock changes field by field, and no step writes to the field of its settings
  cases h with
  | granted thread parent entered shown h =>
    obtain ⟨-, -, -, rfl⟩ := Lock.submit_granted h
    rw [Lock.dispatchOn_eq]
  | queued entered h =>
    obtain ⟨-, -, -, -, rfl⟩ := Lock.submit_queued h
    rfl
  | rejected entered h =>
    obtain ⟨-, -, -, rfl⟩ := Lock.submit_rejected h
    rfl
  | ended thread parent entered hlock hunended hsource h =>
    rw [Lock.deferBatch_eq]
    rcases Lock.release_cases h with ⟨-, -, rfl⟩ | ⟨-, -, rfl⟩ <;> rfl
  | taken thread shown h =>
    obtain ⟨before, rest, after, -, -, rfl⟩ := Lock.next_cases h
    rfl
  | _ => rfl

theorem Run.config_eq {id : LockId} {k k' : Ledger} (h : Run id k k') :
    k'.lock.config = k.lock.config := by
  induction h with
  | refl => rfl
  | tail _ hs ih => exact hs.config_eq.trans ih

/-- What an unwound loop has taken out stays taken out: it is still held by the loop, or dropped. -/
theorem Step.takenOut {id : LockId} {k k' : Ledger} (h : Step id k k') {g : Grant}
    (hg : g ∈ k.out ∨ g ∈ k.journal.handedBack) : g ∈ k'.out ∨ g ∈ k'.journal.handedBack := by
  have hkept := h.journal_suffix
  rcases hg with hg | hg
  · -- only a drop takes a grant away from the loop, and a drop is recorded
    cases h with
    | closed thread => exact .inl (List.mem_append_right _ hg)
    | dropped tag hlock =>
      rcases List.mem_cons.1 hg with rfl | hg
      · exact .inr (by simp)
      · exact .inl hg
    | _ => exact .inl hg
  · exact .inr (mem_occurrences_of_suffix hkept hg)

theorem Run.takenOut {id : LockId} {k k' : Ledger} (h : Run id k k') {g : Grant}
    (hg : g ∈ k.out ∨ g ∈ k.journal.handedBack) : g ∈ k'.out ∨ g ∈ k'.journal.handedBack := by
  induction h with
  | refl => exact hg
  | tail _ hs ih => exact hs.takenOut ih

/-! ## What the events of single steps say -/

/-- Events that issue these grants and say nothing else about requests and grants. -/
structure Issues (new : Journal) (grants : List Grant) : Prop where
  issued : new.issued = grants
  accepted : new.accepted = []
  immediate : new.immediate = []
  queued : new.queued = []
  ended : new.ended = []
  started : new.started = []
  handedBack : new.handedBack = []

/-- A drain issues the grants of its batch, in order. -/
theorem issues_drainEvents {α : Type} (id : LockId) (batch : List (Request α)) (pending : Nat)
    (parent : Option Grant) (entered : List Grant) :
    Issues (drainEvents id batch pending parent entered) (batch.map (Request.grant id)) := by
  cases batch with
  | nil => exact ⟨rfl, rfl, rfl, rfl, rfl, rfl, rfl⟩
  | cons front rest =>
    constructor
    -- the grants of a batch are reported in the order of the batch
    case issued =>
      have h := occurrences_issued ((front :: rest).map (Request.grant id)) parent
      rw [List.map_map] at h
      simpa [drainEvents, Function.comp_def] using h
    -- no other report of a drain is about a grant that is issued, ended or started
    all_goals
      simp only [occurrences, drainEvents, List.reverse_eq_nil_iff, List.filterMap_eq_nil_iff,
        List.mem_append, List.mem_reverse, List.mem_map, List.mem_singleton]
      rintro e (⟨r, -, rfl⟩ | rfl) <;> rfl

/-- A failure report says nothing about requests and grants. -/
theorem issues_failureEvents {α : Type} (l : Lock α) (g : Grant) (failure : Failure)
    (entered : List Grant) : Issues (l.failureEvents g failure entered) [] := by
  unfold Lock.failureEvents
  split <;> exact ⟨rfl, rfl, rfl, rfl, rfl, rfl, rfl⟩

/-- Neither does the report of how long a grant was held. -/
theorem issues_holdNotice {α : Type} (l : Lock α) (g : Grant) (entered : List Grant) :
    Issues [.notice (l.holdNotice g) entered] [] := by
  unfold Lock.holdNotice
  split <;> exact ⟨rfl, rfl, rfl, rfl, rfl, rfl, rfl⟩

/-- Nor does anything that was reported before the first submission. -/
theorem Fresh.silent {k : Ledger} (h : Fresh k) : Issues k.journal [] := by
  -- before the first submission only the creation of the lock was reported
  have hnone : ∀ {pick : Event → Option Grant},
      (∀ id entered, pick (.notice (.created id) entered) = none) →
        occurrences pick k.journal = [] := by
    intro pick hpick
    simp only [occurrences, List.reverse_eq_nil_iff, List.filterMap_eq_nil_iff]
    intro e he
    obtain ⟨id, entered, rfl⟩ := h.journal e he
    exact hpick id entered
  constructor <;> exact hnone fun _ _ => rfl

end Ledger

end FairLock
