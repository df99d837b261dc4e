import FairLock.Proofs.Draining
import FairLock.Proofs.HandBack

/-!
# What is deferred

Granted requests lie on a run list until their thread gets to them, and meanwhile anything may
happen to the lock: readers are granted on the spot, other threads release, loops are unwound.  But
what is deferred is held, so the lock is not free and drains nothing more.  All that is deferred is
therefore left over from one drain, the latest.

## Main definitions

- `Journal.latestDrain`: the grants that the latest drain has issued.
- `Ledger.OneDrain`: what is deferred was issued by that drain.
- `Ledger.Drained`: what a transition does to the latest drain.

## Main statements

- `Ledger.OneDrain.step`, `Ledger.Reachable.oneDrain`: a step keeps it.
- `Ledger.Sound.deferred_cases`: what is deferred is one writer, or readers that the state counts.
- `Machine.Turn.drained`: a transition drains a lock only where nothing is deferred.
- `deferred_by_latest_drain`: both for reachable machines, and what follows for their drains.
-/

namespace FairLock

/-! ## The latest drain -/

/-- How many requests an event tells to have been drained, if it tells of a drain. -/
def Event.drained? : Event → Option Nat
  | notice (.draining _ _ count _) _ => some count
  | _ => none

namespace Journal

/-- How many requests the latest drain has granted. -/
def drainCount : Journal → Nat
  | [] => 0
  | e :: before => e.drained?.getD (drainCount before)

/-- The grants that were issued since the latest drain began. -/
def issuedSince : Journal → List Grant
  | [] => []
  | e :: before => if e.drained?.isSome then [] else issuedSince before ++ e.issued?.toList

/-- The grants that the latest drain has issued: of those that were issued since it began the first
    ones, as many as it tells.  What is granted on the spot later is not among them. -/
def latestDrain (j : Journal) : List Grant := j.issuedSince.take j.drainCount

variable {new j : Journal}

/-- Where no drain begins, the latest one is still the one before. -/
theorem drainCount_append (hnew : ∀ e ∈ new, e.drained? = none) :
    drainCount (new ++ j) = drainCount j := by
  induction new with
  | nil => rfl
  | cons e new ih =>
    obtain ⟨he, hrest⟩ := List.forall_mem_cons.1 hnew
    rw [List.cons_append, drainCount, he, ih hrest]
    rfl

theorem issuedSince_append (hnew : ∀ e ∈ new, e.drained? = none) :
    issuedSince (new ++ j) = issuedSince j ++ new.issued := by
  induction new with
  | nil => simp
  | cons e new ih =>
    obtain ⟨he, hrest⟩ := List.forall_mem_cons.1 hnew
    simp [issuedSince, he, ih hrest]

/-- A drain tells how many requests it grants, and then issues their grants. -/
theorem drainEvents_eq {α : Type} (id : LockId) {batch : List (Request α)} (hbatch : batch ≠ [])
    (pending : Nat) (parent : Option Grant) (entered : List Grant) :
    ∃ e new, drainEvents id batch pending parent entered = new ++ [e] ∧
      e.drained? = some batch.length ∧ (∀ e ∈ new, e.drained? = none) ∧
      Journal.issued new = batch.map (Request.grant id) := by
  obtain ⟨front, rest, rfl⟩ := List.exists_cons_of_ne_nil hbatch
  -- the report of the drain lies at the bottom, and what is above it are the issues
  refine ⟨_, _, rfl, rfl, ?_, ?_⟩
  · intro e he
    obtain ⟨r, -, rfl⟩ := List.mem_map.1 (List.mem_reverse.1 he)
    rfl
  · have hissued := occurrences_issued ((front :: rest).map (Request.grant id)) parent
    rwa [List.map_map] at hissued

section Drain

variable {α : Type} {id : LockId} {batch : List (Request α)} (hbatch : batch ≠ []) (pending : Nat)
  (parent : Option Grant) (entered : List Grant)
include hbatch

theorem drainCount_drainEvents :
    drainCount (drainEvents id batch pending parent entered ++ j) = batch.length := by
  obtain ⟨e, new, heq, he, hnew, -⟩ := drainEvents_eq id hbatch pending parent entered
  rw [heq, List.append_assoc, drainCount_append hnew, List.singleton_append, drainCount, he]
  rfl

theorem issuedSince_drainEvents :
    issuedSince (drainEvents id batch pending parent entered ++ j) =
      batch.map (Request.grant id) := by
  obtain ⟨e, new, heq, he, hnew, hissued⟩ := drainEvents_eq id hbatch pending parent entered
  rw [heq, List.append_assoc, issuedSince_append hnew, hissued, List.singleton_append,
    issuedSince, he]
  rfl

/-- A drain is the latest one from its first event on. -/
theorem latestDrain_drainEvents :
    latestDrain (drainEvents id batch pending parent entered ++ j) =
      batch.map (Request.grant id) := by
  rw [latestDrain, drainCount_drainEvents hbatch, issuedSince_drainEvents hbatch]
  exact List.take_of_length_le (by simp)

end Drain

/-- Nor does it change by what is issued later, once all that it tells has been issued. -/
theorem latestDrain_append (hwhole : j.drainCount ≤ j.issuedSince.length) (new : Journal)
    (hnew : ∀ e ∈ new, e.drained? = none) : latestDrain (new ++ j) = latestDrain j := by
  rw [latestDrain, drainCount_append hnew, issuedSince_append hnew,
    List.take_append_of_le_length hwhole]
  rfl

end Journal

/-- What the end of a grant leaves in the journal, apart from a drain. -/
def endEvents {α : Type} (l l' : Lock α) (g : Grant) (entered : List Grant) : Journal :=
  [.notice (.released g l'.state l'.pending) entered, .notice (l.holdNotice g) (g :: entered)]

/-- Neither the end of a grant nor the report of a failure begins a drain. -/
theorem drained?_endEvents {α : Type} (l l' : Lock α) (g : Grant) (entered : List Grant) :
    ∀ e ∈ endEvents l l' g entered, e.drained? = none := by
  have hhold : (Event.notice (l.holdNotice g) (g :: entered)).drained? = none := by
    unfold Lock.holdNotice
    split <;> rfl
  exact List.forall_mem_cons.2 ⟨rfl, List.forall_mem_cons.2 ⟨hhold, by simp⟩⟩

theorem Lock.drained?_failureEvents {α : Type} (l : Lock α) (g : Grant) (failure : Failure)
    (entered : List Grant) : ∀ e ∈ l.failureEvents g failure entered, e.drained? = none := by
  unfold Lock.failureEvents
  split <;> simp [Event.drained?]

namespace Ledger

variable {id : LockId} {k k' : Ledger}

/-- What is deferred was issued by the latest drain, and that drain has issued all that it tells. -/
structure OneDrain (id : LockId) (k : Ledger) : Prop where
  whole : k.journal.drainCount ≤ k.journal.issuedSince.length
  latest : (k.deferred id).Sublist k.journal.latestDrain

namespace OneDrain

variable {l l' : Lock Entry} {j new : Journal} {out out' : List Grant}

theorem of_fresh (h : Fresh k) : OneDrain id k := by
  have hnone : ∀ e ∈ k.journal, e.drained? = none := by
    intro e he
    obtain ⟨lock, entered, rfl⟩ := h.journal e he
    rfl
  have hcount := Journal.drainCount_append (j := []) hnone
  rw [List.append_nil] at hcount
  obtain ⟨config, hlock⟩ := h.lock
  constructor
  -- nothing was drained yet, and nothing can be deferred
  · rw [hcount]
    exact Nat.zero_le _
  · simp [deferred, hlock]

/-- Nothing is drained, and nothing is put on a run list. -/
theorem idle (h : OneDrain id ⟨l, j, out⟩) (new : Journal) (hnew : ∀ e ∈ new, e.drained? = none)
    (hdeferred : (deferredIn l'.runLists).Sublist (deferredIn l.runLists)) :
    OneDrain id ⟨l', new ++ j, out'⟩ := by
  obtain ⟨whole, latest⟩ := h
  constructor
  case whole =>
    rw [Journal.drainCount_append hnew, Journal.issuedSince_append hnew, List.length_append]
    exact Nat.le_add_right_of_le whole
  case latest =>
    rw [Journal.latestDrain_append whole new hnew]
    exact (hdeferred.map _).trans latest

/-- The end of a grant drains nothing, or it finds nothing deferred. -/
theorem ended {g : Grant} {batch : List (Request Entry)} (thread : ThreadId)
    (parent : Option Grant) (entered : List Grant) (h : OneDrain id ⟨l, j, out⟩)
    (hsound : Sound id ⟨l, j, out⟩) (hunended : l.isUnended g.id = true)
    (hsource : g ∈ j.started ∨ g ∈ out) (hrelease : l.release g.id g.mode = (l', batch)) :
    OneDrain id
      ⟨l'.deferBatch thread batch,
        drainEvents id batch l'.pending parent entered ++
          .notice (.released g l'.state l'.pending) entered ::
            .notice (l.holdNotice g) (g :: entered) :: j, out⟩ := by
  have hruns := (Lock.release_batch hrelease).2.2.1
  -- a drain of nobody counts as no drain: the latest one is still the latest
  rcases List.eq_nil_or_concat' batch with rfl | ⟨_, _, hbatch⟩
  · exact h.idle (endEvents l l' g entered) (drained?_endEvents l l' g entered)
      (hruns ▸ .refl _)
  · have hne : batch ≠ [] := by simp [hbatch]
    have hheld := hsound.held_of_isUnended hsource hunended
    -- a batch that is not empty comes of a freed lock, and then all that was deferred has ended
    have hempty : deferredIn l'.runLists = [] := by
      rcases Lock.release_cases hrelease with ⟨-, hnil, -⟩ | ⟨hfree, -, -⟩
      · exact absurd hnil hne
      · exact hruns ▸ hsound.deferredIn_of_freed hheld hsource hfree
    constructor
    · rw [Journal.drainCount_drainEvents hne, Journal.issuedSince_drainEvents hne,
        List.length_map]
    · rw [Journal.latestDrain_drainEvents hne, deferred,
        Lock.deferredIn_deferBatch_of_empty hempty]

theorem step (h : OneDrain id k) (hsound : Sound id k) (hs : Step id k k') : OneDrain id k' := by
  cases hs with
  -- of the steps only the end of a grant drains; the others defer nothing new
  | granted thread parent entered shown hsubmit =>
    obtain ⟨-, -, -, rfl⟩ := Lock.submit_granted hsubmit
    refine h.idle [_, _, _] (by simp [Event.drained?]) ?_
    rw [Lock.deferredIn_dispatchOn]
  | queued entered hsubmit =>
    obtain ⟨-, -, -, -, rfl⟩ := Lock.submit_queued hsubmit
    exact h.idle [_] (by simp [Event.drained?]) (.refl _)
  | rejected entered hsubmit =>
    obtain ⟨-, -, -, rfl⟩ := Lock.submit_rejected hsubmit
    exact h.idle [_] (by simp [Event.drained?]) (.refl _)
  | ended thread parent entered hlock hunended hsource hrelease =>
    exact h.ended thread parent entered hsound hunended hsource hrelease
  | redundant entered hlock hended => exact h.idle [_] (by simp [Event.drained?]) (.refl _)
  | failed failure entered hlock =>
    exact h.idle _ (Lock.drained?_failureEvents _ _ failure entered) (.refl _)
  | taken thread shown hnext =>
    refine h.idle [_] (by simp [Event.drained?]) ?_
    rw [hsound.deferred_next hnext]
    exact List.sublist_cons_self _ _
  | @closed l j out thread =>
    refine h.idle [] (by simp) ?_
    -- closing a run list drops what is deferred on it, if there is such a list
    rcases l.close_cases thread with ⟨before, rest, after, -, hl, he⟩ | ⟨-, he⟩
    · rw [he, hl, deferredIn_append, deferredIn_append, deferredIn_cons]
      exact List.Sublist.append_left (List.sublist_append_right _ _) _
    · rw [he]
  | dropped tag hlock => exact h.idle [_] (by simp [Event.drained?]) (.refl _)

end OneDrain

/-- Every ledger that a lock can come to have defers only what its latest drain has issued. -/
theorem Reachable.oneDrain (h : Reachable id k) : OneDrain id k := by
  -- that a drain finds nothing deferred is known of sound ledgers only
  have hboth := h.induct (P := fun k => Sound id k ∧ OneDrain id k)
    (fun k hk => ⟨.of_fresh hk, .of_fresh hk⟩)
    fun k k' hk hs => ⟨hk.1.step hs, hk.2.step hk.1 hs⟩
  exact hboth.2

/-! ## Writers and readers -/

/-- What is deferred is held, so the state counts it: it is one writer, or it consists of readers,
    next to which there may be others. -/
theorem Sound.deferred_cases (h : Sound id k) :
    k.deferred id = [] ∨
      (∃ g, k.deferred id = [g] ∧ g.mode = .write ∧ k.lock.state = .writing) ∨
      ∃ n, k.lock.state = .reading n ∧ (k.deferred id).length ≤ n ∧
        ∀ g ∈ k.deferred id, g.mode = .read := by
  have hnodup : (k.deferred id).Nodup := h.sorted.imp fun hlt heq => by simp [heq] at hlt
  have hheld : k.deferred id ⊆ stillHeld k.journal.issued k.journal.ended :=
    fun g hg => h.held_of_deferred hg
  have hle := (List.subperm_of_subset hnodup hheld).length_le
  have hcounts := h.balanced.state
  cases hstate : k.lock.core.state with
  | free =>
    have hnone := List.map_eq_nil_iff.1 (hcounts.eq_free_iff.1 hstate)
    exact .inl (List.subset_nil.1 (hnone ▸ hheld))
  | reading n =>
    obtain ⟨-, hlength, hread⟩ := (hcounts.eq_reading_iff n).1 hstate
    rw [List.length_map] at hlength
    refine .inr (.inr ⟨n, hstate, hlength ▸ hle, ?_⟩)
    exact fun g hg => hread g.mode (List.mem_map_of_mem (hheld hg))
  | writing =>
    obtain ⟨g, hg, hmode⟩ := List.map_eq_singleton_iff.1 (hcounts.eq_writing_iff.1 hstate)
    rw [hg] at hheld
    cases hdeferred : k.deferred id with
    | nil => exact .inl rfl
    | cons first rest =>
      rw [hdeferred] at hheld hnodup
      obtain ⟨hfirst, hrest⟩ := List.cons_subset.1 hheld
      obtain rfl := List.mem_singleton.1 hfirst
      -- nothing but the writer can follow it, and it is not there twice
      have hnil : rest = [] := by
        refine List.eq_nil_iff_forall_not_mem.2 fun x hx => ?_
        exact (List.nodup_cons.1 hnodup).1 (List.mem_singleton.1 (hrest hx) ▸ hx)
      exact .inr (.inl ⟨first, by rw [hnil], hmode, hstate⟩)

end Ledger

/-- A run list on which something is deferred has all that is deferred. -/
theorem Lock.deferred_eq_deferredIn {α : Type} {l : Lock α}
    (hthreads : (l.runLists.map (·.thread)).Nodup) (hone : OneThread l.runLists) {run : RunList α}
    (hrun : run ∈ l.runLists) (hsome : run.deferred ≠ []) :
    run.deferred = deferredIn l.runLists := by
  obtain ⟨owner, howner⟩ := hone
  obtain ⟨before, after, hl⟩ := List.append_of_mem hrun
  -- deferred requests lie with one thread, and this list has some, so it is the list of that thread
  have hthread : run.thread = owner := by
    by_contra hne
    exact hsome (howner run hrun hne)
  rw [hl, List.map_append, List.map_cons, List.nodup_append, List.nodup_cons] at hthreads
  obtain ⟨-, ⟨hafter, -⟩, hbefore⟩ := hthreads
  -- no other list is of this thread
  have hempty : ∀ other, other ∈ before ∨ other ∈ after → other.deferred = [] := by
    intro other hother
    refine howner other (by simp only [hl, List.mem_append, List.mem_cons]; tauto) ?_
    rintro hsame
    rcases hother with hother | hother
    · exact hbefore _ (List.mem_map_of_mem hother) _ List.mem_cons_self (hsame.trans hthread.symm)
    · exact hafter ((hsame.trans hthread.symm) ▸ List.mem_map_of_mem hother)
  have hfront : deferredIn before = [] := deferredIn_eq_nil fun run hrun => hempty run (.inl hrun)
  have hback : deferredIn after = [] := deferredIn_eq_nil fun run hrun => hempty run (.inr hrun)
  rw [hl, deferredIn_append, deferredIn_cons, hfront, hback, List.append_nil, List.nil_append]

/-! ## Drains -/

/-- If nothing was issued, nothing was drained. -/
theorem Balanced.drained_eq_nil {id : LockId} {l : Lock Entry} {accepted issued ended : List Grant}
    (h : Balanced id l accepted issued ended) {later : Journal} (hissued : later.issued = issued) :
    l.drained id later = [] :=
  h.drained_eq (List.nil_append l.core.queue).symm (by simp [hissued])

/-- What is drained at the end of a grant is the latest drain from then on. -/
theorem Lock.Ends.latestDrain {id : LockId} {thread : ThreadId} {g : Grant} {l l' : Lock Entry}
    {j j' : Journal} (h : Lock.Ends id thread g l j l' j')
    (hb : Balanced id l j.accepted j.issued j.ended)
    (hwhole : j.drainCount ≤ j.issuedSince.length) :
    (l.drained id j' = [] → j'.latestDrain = j.latestDrain) ∧
      (l.drained id j' ≠ [] → j'.latestDrain = l.drained id j' ∧ g ∈ j'.ended ∧
        ((deferredIn l'.runLists).map (Request.grant id)).Perm
          ((deferredIn l.runLists).map (Request.grant id) ++ l.drained id j')) := by
  obtain ⟨batch, ⟨rest, hqueue⟩, -, hissued, -, -, -⟩ := h.exists_batch
  have hdrained := hb.drained_eq hqueue hissued
  cases h with
  -- a grant that was ended before is not ended again, and nothing is drained
  | same =>
    refine ⟨fun _ => rfl, fun hne => ?_⟩
    exact absurd (hb.drained_eq_nil rfl) hne
  | ended parent entered hlock hunended hrelease =>
    rename_i freed batch'
    have hruns := (Lock.release_batch hrelease).2.2.1
    -- the drain is what was issued on the way, and it is the batch that the release has given
    have hsame : batch'.map (Request.grant id) = batch.map (Request.grant id) := by
      have hdrain := Ledger.issues_drainEvents id batch' freed.pending parent entered
      simpa [hdrain.issued] using hissued
    rw [hdrained, ← hsame]
    constructor
    · intro hnil
      obtain rfl := List.map_eq_nil_iff.1 hnil
      exact Journal.latestDrain_append hwhole (endEvents l freed g entered)
        (drained?_endEvents l freed g entered)
    · intro hsome
      -- the new drain is the latest, and it lies behind what was deferred already
      have hne : batch' ≠ [] := fun hnil => hsome (by rw [hnil]; rfl)
      have hended : g ∈ Journal.ended (drainEvents id batch' freed.pending parent entered ++
          .notice (.released g freed.state freed.pending) entered ::
            .notice (l.holdNotice g) (g :: entered) :: j) :=
        mem_occurrences.2 ⟨_, List.mem_append_right _ List.mem_cons_self, rfl⟩
      refine ⟨Journal.latestDrain_drainEvents hne _ _ _, hended, ?_⟩
      rw [← List.map_append, ← hruns]
      exact (freed.deferredIn_deferBatch thread batch').map _

/-- What a transition does to the latest drain: it drains nothing, or what it drains is all that is
    deferred afterwards. -/
structure Ledger.Drained (id : LockId) (l : Lock Entry) (j : Journal) (l' : Lock Entry)
    (j' : Journal) : Prop where
  idle : l.drained id j' = [] → j'.latestDrain = j.latestDrain
  latest : l.drained id j' ≠ [] → j'.latestDrain = l.drained id j'
  whole : l.drained id j' ≠ [] →
    (deferredIn l'.runLists).map (Request.grant id) = l.drained id j'
  /-- Nothing is deferred before, or the last deferred request is taken and its grant ends first. -/
  alone : l.drained id j' ≠ [] →
    deferredIn l.runLists = [] ∨ ∃ r, deferredIn l.runLists = [r] ∧ r.grant id ∈ j'.ended

namespace Ledger.Drained

variable {id : LockId} {l l' : Lock Entry} {j j' : Journal} {before : List (Request Entry)}
  {out : List Grant}

/-- No drain begins and nothing is drained. -/
theorem of_idle (new : Journal) (hone : OneDrain id ⟨l, j, out⟩)
    (hnew : ∀ e ∈ new, e.drained? = none) (hnone : l.drained id (new ++ j) = []) :
    Drained id l j l' (new ++ j) where
  idle _ := Journal.latestDrain_append hone.whole new hnew
  latest hsome := absurd hnone hsome
  whole hsome := absurd hnone hsome
  alone hsome := absurd hnone hsome

/-- Of a drain that nobody else adds to, nothing is left out: what lay on the run lists next to it
    would not be its own. -/
theorem whole_of_latest (hone : OneDrain id ⟨l', j', out⟩)
    (hlatest : j'.latestDrain = l.drained id j')
    (hperm : ((deferredIn l'.runLists).map (Request.grant id)).Perm
      (before.map (Request.grant id) ++ l.drained id j')) :
    before = [] ∧ (deferredIn l'.runLists).map (Request.grant id) = l.drained id j' := by
  -- what is deferred afterwards is at most the latest drain, so what was deferred before is nothing
  have hsub : ((deferredIn l'.runLists).map (Request.grant id)).Sublist (l.drained id j') :=
    hlatest ▸ hone.latest
  have hlength := hperm.length_eq
  have hle := hsub.length_le
  simp only [List.length_append, List.length_map] at hlength hle
  refine ⟨List.eq_nil_of_length_eq_zero (by omega), hsub.eq_of_length_le ?_⟩
  rw [List.length_map]
  omega

end Ledger.Drained

namespace Machine

variable {may : Call → Prop} {loop : Option (LockId × Bool)} {id : LockId} {thread : ThreadId}
  {l l' : Lock Entry} {j j' : Journal} {m m' : Machine}

/-- A transition that drains nothing leaves the latest drain what it is.  One that drains something
    finds nothing deferred, unless it first takes the last deferred request and ends its grant. -/
theorem Turn.drained {out out' : List Grant} (h : Turn may loop id thread l j l' j')
    (hs : Ledger.Sound id ⟨l, j, out⟩) (hone : Ledger.OneDrain id ⟨l, j, out⟩)
    (hone' : Ledger.OneDrain id ⟨l', j', out'⟩) : Ledger.Drained id l j l' j' := by
  -- whatever leaves the queue alone drains nothing
  have hidle : ∀ new : Journal, new.issued = [] → (∀ e ∈ new, e.drained? = none) →
      Ledger.Drained id l j l' (new ++ j) := fun new hissued hnew =>
    .of_idle new hone hnew (hs.balanced.drained_eq_nil (by simp [hissued]))
  cases h with
  | same => exact hidle [] rfl (by simp)
  | granted parent entered shown hsubmit =>
    obtain ⟨hqueue, -, -, -⟩ := Lock.submit_granted hsubmit
    exact .of_idle [_, _, _] hone (by simp [Event.drained?])
      (by simp [Lock.drained, hqueue])
  | queued entered hsubmit => exact hidle [_] (by simp) (by simp [Event.drained?])
  | rejected entered hsubmit => exact hidle [_] (by simp) (by simp [Event.drained?])
  -- the end of a grant alone: all that is deferred afterwards was drained by it
  | ended hend =>
    obtain ⟨hnone, hsome⟩ := hend.latestDrain hs.balanced hone.whole
    have hwhole := fun hne => Ledger.Drained.whole_of_latest hone' (hsome hne).1 (hsome hne).2.2
    exact ⟨hnone, fun hne => (hsome hne).1, fun hne => (hwhole hne).2,
      fun hne => .inl (hwhole hne).1⟩
  | redundant entered hlock hmay hended => exact hidle [_] (by simp) (by simp [Event.drained?])
  | failed failure entered hlock =>
    rename_i g
    exact hidle _ (Ledger.issues_failureEvents l g failure entered).issued
      (Lock.drained?_failureEvents _ _ failure entered)
  | taken shown hloop hnext hend =>
    rename_i l₁ r
    -- an entry point taken off the run list drains only by the end of its own grant
    have htaken := hs.taken thread shown hnext
    have hqueue : l₁.drained id j' = l.drained id j' := by
      obtain ⟨before, deferred, after, -, -, rfl⟩ := Lock.next_cases hnext
      rfl
    have hnew : ∀ e ∈ [Event.started (r.grant id) thread shown], e.drained? = none := by
      simp [Event.drained?]
    -- up to that end there is one request less on the run lists, and no drain
    have hkept : Ledger.OneDrain id ⟨l₁, .started (r.grant id) thread shown :: j, out⟩ := by
      refine hone.idle [_] hnew ?_
      rw [hs.deferred_next hnext]
      exact List.sublist_cons_self _ _
    obtain ⟨hnone, hsome⟩ := hend.latestDrain htaken.balanced hkept.whole
    rw [hqueue] at hnone hsome
    have hwhole := fun hne => Ledger.Drained.whole_of_latest hone' (hsome hne).1 (hsome hne).2.2
    refine ⟨fun hnil => ?_, fun hne => (hsome hne).1, fun hne => (hwhole hne).2, fun hne => ?_⟩
    · exact (hnone hnil).trans (Journal.latestDrain_append hone.whole [_] hnew)
    · exact .inr ⟨r, by rw [hs.deferred_next hnext, (hwhole hne).1], (hsome hne).2.1⟩
  | closed hloop hnext => exact hidle [] rfl (by simp)
  | unwound hloop => exact hidle [] rfl (by simp)
  | dropped tag hlock => exact hidle [_] (by simp) (by simp [Event.drained?])

theorem Reachable.drained (h : m.Reachable) (hn : Next m m') (id : LockId) :
    Ledger.Drained id (m.world.lock id) (m.world.journal id) (m'.world.lock id)
      (m'.world.journal id) := by
  obtain ⟨-, out, -, hledger⟩ := h.exists_ledger
  obtain ⟨-, out', -, hledger'⟩ := (h.reaches (.single hn)).exists_ledger
  exact (h.turn hn id).drained (hledger id).sound (hledger id).oneDrain (hledger' id).oneDrain

end Machine

/-- At every moment of a run all that is deferred on a lock lies on one run list, in the order of
    the numbers, and was issued by one drain, the latest.  Either it is one writer and the state is
    writing, or it consists of readers and the state counts at least these.

    So a transition that drains a lock finds nothing deferred there; if the loop on top first takes
    the last deferred request, its grant has ended before the drain.  What is drained is all that is
    deferred afterwards, it lies on the run list of the running thread, and it is the latest drain
    until something is drained again. -/
theorem deferred_by_latest_drain {m : Machine} (h : m.Reachable) (id : LockId) :
    ((deferredIn (m.world.lock id).runLists).map (Request.grant id)).Sublist
        (m.world.journal id).latestDrain ∧
      (∀ run ∈ (m.world.lock id).runLists, run.deferred ≠ [] →
        run.deferred = deferredIn (m.world.lock id).runLists) ∧
      (deferredIn (m.world.lock id).runLists).Pairwise (·.id < ·.id) ∧
      (deferredIn (m.world.lock id).runLists = [] ∨
        (∃ r, deferredIn (m.world.lock id).runLists = [r] ∧ r.mode = .write ∧
          (m.world.lock id).state = .writing) ∨
        ∃ n, (m.world.lock id).state = .reading n ∧
          (deferredIn (m.world.lock id).runLists).length ≤ n ∧
          ∀ r ∈ deferredIn (m.world.lock id).runLists, r.mode = .read) ∧
      ∀ m', Machine.Next m m' →
        (m.world.drained m'.world id = [] →
          (m'.world.journal id).latestDrain = (m.world.journal id).latestDrain) ∧
        (m.world.drained m'.world id ≠ [] →
          (deferredIn (m.world.lock id).runLists = [] ∨
            ∃ r, deferredIn (m.world.lock id).runLists = [r] ∧
              r.grant id ∈ (m'.world.journal id).ended) ∧
          (m'.world.journal id).latestDrain = m.world.drained m'.world id ∧
          (deferredIn (m'.world.lock id).runLists).map (Request.grant id) =
            m.world.drained m'.world id ∧
          m'.deferredOn id m.world.thread = m.world.drained m'.world id) := by
  obtain ⟨-, out, -, hledger⟩ := h.exists_ledger
  have hsound := (hledger id).sound
  refine ⟨(hledger id).oneDrain.latest, ?list, ?order, ?modes, ?drains⟩
  case list =>
    exact fun run hrun hsome =>
      Lock.deferred_eq_deferredIn hsound.threads hsound.oneThread hrun hsome
  case order => exact (List.pairwise_map (f := Request.grant id)).1 hsound.sorted
  case modes =>
    rcases hsound.deferred_cases with hnone | ⟨g, hg, hwrite, hstate⟩ | ⟨n, hstate, hle, hread⟩
    · exact .inl (List.map_eq_nil_iff.1 hnone)
    · obtain ⟨r, hr, rfl⟩ := List.map_eq_singleton_iff.1 hg
      exact .inr (.inl ⟨r, hr, hwrite, hstate⟩)
    · rw [Ledger.deferred, List.length_map] at hle
      exact .inr (.inr ⟨n, hstate, hle, fun r hr => hread _ (List.mem_map_of_mem hr)⟩)
  case drains =>
    intro m' hn
    have hdrains := h.drained hn id
    refine ⟨hdrains.idle, fun hne => ?_⟩
    have hafter : (deferredIn (m'.world.lock id).runLists).map (Request.grant id) =
        m.world.drained m'.world id := hdrains.whole hne
    refine ⟨hdrains.alone hne, hdrains.latest hne, hafter, ?_⟩
    obtain ⟨batch, hdrained, hsuffix, -⟩ := (h.turn hn id).exists_batch (h.balanced id)
    have hsub := ((m'.world.lock id).deferredOn_sublist m.world.thread).map (Request.grant id)
    rw [hafter] at hsub
    -- the batch is at the end of the list, and there is nothing else
    refine hsub.eq_of_length_le ?_
    rw [World.drained, hdrained]
    exact (hsuffix.map (Request.grant id)).length_le

/-- When the writer ends, both readers are drained and deferred.  While the third one runs, which
    was granted on the spot, the second is left over from that drain, and the state counts three. -/
theorem deferred_by_latest_drain_writerAndReaders :
    (writerAndReadersAfter {} [] 4).deferredOn 0 0 = [⟨0, 2, .read⟩, ⟨0, 3, .read⟩] ∧
      ((writerAndReadersAfter {} [] 8).world.journal 0).latestDrain =
        [⟨0, 2, .read⟩, ⟨0, 3, .read⟩] ∧
      ∃ rs, rs.map (Request.grant 0) = [⟨0, 3, .read⟩] ∧
        deferredIn ((writerAndReadersAfter {} [] 8).world.lock 0).runLists = rs ∧
        (rs.map (Request.grant 0)).Sublist
          ((writerAndReadersAfter {} [] 8).world.journal 0).latestDrain ∧
        ∃ n, ((writerAndReadersAfter {} [] 8).world.lock 0).state = .reading n ∧ rs.length ≤ n := by
  have hdrained : (writerAndReadersAfter {} [] 3).world.drained
      (writerAndReadersAfter {} [] 4).world 0 = [⟨0, 2, .read⟩, ⟨0, 3, .read⟩] := by decide
  obtain ⟨-, -, -, -, hdrains⟩ :=
    deferred_by_latest_drain (reachable_writerAndReadersAfter {} [] 3) 0
  obtain ⟨-, -, -, hdeferred⟩ :=
    (hdrains (writerAndReadersAfter {} [] 4) (.step _)).2 (by rw [hdrained]; simp)
  obtain ⟨hlatest, -, -, hmodes, -⟩ :=
    deferred_by_latest_drain (reachable_writerAndReadersAfter {} [] 8) 0
  have hleft : (deferredIn ((writerAndReadersAfter {} [] 8).world.lock 0).runLists).map
      (Request.grant 0) = [⟨0, 3, .read⟩] := by decide
  refine ⟨hdeferred.trans hdrained, by decide, _, hleft, rfl, hlatest, ?_⟩
  rcases hmodes with hnone | ⟨r, hr, hwrite, -⟩ | ⟨n, hstate, hle, -⟩
  · rw [hnone] at hleft
    cases hleft
  · simp [hr, Request.grant, hwrite] at hleft
  -- a reader was left over, so neither nothing nor a writer is deferred
  · exact ⟨n, hstate, hle⟩

end FairLock
