import FairLock.Proofs.Machine.Threads
import FairLock.Proofs.Machine.Turns
import FairLock.Proofs.StartOrder

/-!
# What a transition drains

The end of a grant may free its lock, and then the batch at the front of the queue is granted: the
lock is drained.  A transition ends one grant of a lock at most, so what it drains is one batch.

What a thread drains joins its run list, and leaves it at the front when it is started.  So what was
started and what is still deferred is together what was drained, in that order, unless a run list is
given up with something on it.

## Main definitions

- `Lock.drained`, `World.drained`: the waiting requests that are granted.
- `Journal.served`: the requests that had to wait and were started on a thread.

## Main statements

- `Lock.Ends.exists_batch`: what is drained at the end of a grant, and where it is put.
- `Machine.Turn.exists_batch`: what a transition drains.
- `Machine.Turn.served_append_deferredOn`: what a thread starts and defers is what it drains.
-/

namespace FairLock

/-- The waiting requests of a lock that a later journal tells to be granted, the oldest first. -/
def Lock.drained (id : LockId) (l : Lock Entry) (later : Journal) : List Grant :=
  (l.core.queue.map (Request.grant id)).filter fun g => g ∈ later.issued

/-- The requests of a lock that wait in one world and are granted in another. -/
def World.drained (w v : World) (id : LockId) : List Grant := (w.lock id).drained id (v.journal id)

/-- The grant whose entry point was started on a thread. -/
@[simp] def Event.startedOn? (thread : ThreadId) : Event → Option Grant
  | started g t _ => if t = thread then some g else none
  | _ => none

/-- The grants whose entry points were started on a thread, in that order. -/
abbrev Journal.startedOn (thread : ThreadId) (j : Journal) : List Grant :=
  occurrences (Event.startedOn? thread) j

/-- Those among them whose requests had to wait. -/
def Journal.served (thread : ThreadId) (j : Journal) : List Grant :=
  (j.startedOn thread).filter fun g => g ∈ j.queued

section Served

variable {thread : ThreadId} {new j : Journal}

theorem Event.started?_of_startedOn? {e : Event} {g : Grant} (h : e.startedOn? thread = some g) :
    e.started? = some g := by
  cases e with
  | started g' t shown =>
    simp only [startedOn?, Option.ite_none_right_eq_some, Option.some.injEq] at h
    simp [h.2]
  | _ => cases h

theorem Journal.mem_started_of_startedOn {g : Grant}
    (h : g ∈ j.startedOn thread) : g ∈ j.started := by
  obtain ⟨e, he, hpick⟩ := mem_occurrences.1 h
  exact mem_occurrences.2 ⟨e, he, Event.started?_of_startedOn? hpick⟩

/-- What had to wait and is started joins what was started before. -/
theorem Ledger.Sound.served_append {id : LockId} {l l' : Lock Entry} {out out' : List Grant}
    (h : Ledger.Sound id ⟨l, j, out⟩) (h' : Ledger.Sound id ⟨l', new ++ j, out'⟩) :
    (new ++ j).served thread =
      j.served thread ++ (new.startedOn thread).filter fun g => g ∈ (new ++ j).queued := by
  unfold Journal.served
  rw [Journal.startedOn, occurrences_append, List.filter_append]
  congr 1
  apply List.filter_congr
  intro g hg
  -- whoever was started before was accepted before, and so was told before whether to wait
  have haccepted : g ∈ j.accepted :=
    h.balanced.issued_sublist.subset (h.issued_of_started (Journal.mem_started_of_startedOn hg))
  have hsuffix : j <:+ new ++ j := List.suffix_append _ _
  have hiff : g ∈ (new ++ j).queued ↔ g ∈ j.queued :=
    ⟨fun hq => h'.queued_before hsuffix haccepted hq, mem_occurrences_of_suffix hsuffix⟩
  simp only [hiff]

/-- Nothing more is served as long as nobody is started who had to wait. -/
theorem Ledger.Sound.served_of_not_queued {id : LockId} {l l' : Lock Entry} {out out' : List Grant}
    (h : Ledger.Sound id ⟨l, j, out⟩) (h' : Ledger.Sound id ⟨l', new ++ j, out'⟩)
    (hnew : ∀ g ∈ new.started, g ∉ (new ++ j).queued) :
    (new ++ j).served thread = j.served thread := by
  have hnone : ((new.startedOn thread).filter fun g => g ∈ (new ++ j).queued) = [] := by
    apply List.filter_eq_nil_iff.2
    intro g hg hqueued
    exact hnew g (Journal.mem_started_of_startedOn hg) (by simpa using hqueued)
  rw [h.served_append h', hnone, List.append_nil]

/-- The next request of a thread had to wait, and is served there. -/
theorem Ledger.Sound.served_of_next {id : LockId} {l l' : Lock Entry} {out : List Grant}
    {r : Request Entry} {t : ThreadId} {shown : Option (String × Option State)}
    (h : Ledger.Sound id ⟨l, j, out⟩) (hnext : l.next thread = some (r, l')) :
    Journal.served t (.started (r.grant id) thread shown :: j) =
      j.served t ++ if thread = t then [r.grant id] else [] := by
  -- what lies on a run list has waited before
  have hqueued : r.grant id ∈ j.queued := by
    apply h.queued_of_deferred
    simp [Ledger.deferred, h.deferred_next hnext]
  unfold Journal.served
  by_cases ht : thread = t
  · simp [ht, hqueued]
  · simp [ht]

end Served

/-- What is granted besides what was granted before is the front of the queue. -/
theorem Balanced.drained_eq {id : LockId} {l : Lock Entry} {accepted issued ended : List Grant}
    (h : Balanced id l accepted issued ended) {batch rest : List (Request Entry)} {later : Journal}
    (hqueue : l.core.queue = batch ++ rest)
    (hissued : later.issued = issued ++ batch.map (Request.grant id)) :
    l.drained id later = batch.map (Request.grant id) := by
  have hnodup := h.accepted_nodup
  -- the accepted grants differ, so the ones that are issued now are told from the rest of the queue
  rw [h.queue, hqueue, List.map_append, ← List.append_assoc, List.nodup_append] at hnodup
  obtain ⟨-, -, hapart⟩ := hnodup
  have hbatch : (batch.map (Request.grant id)).filter (fun g => g ∈ later.issued) =
      batch.map (Request.grant id) := by
    apply List.filter_eq_self.2
    intro g hg
    simp [hissued, hg]
  have hrest : (rest.map (Request.grant id)).filter (fun g => g ∈ later.issued) = [] := by
    apply List.filter_eq_nil_iff.2
    intro g hg hmem
    rw [hissued] at hmem
    exact hapart g (by simpa using hmem) g hg rfl
  rw [Lock.drained, hqueue, List.map_append, List.filter_append, hbatch, hrest, List.append_nil]

namespace Lock

variable {l l' : Lock Entry} {thread : ThreadId} {batch : List (Request Entry)}

/-- A batch goes to the end of the run list of its thread. -/
theorem deferredOn_deferBatch (l : Lock Entry) (thread : ThreadId) (batch : List (Request Entry)) :
    (l.deferBatch thread batch).deferredOn thread = l.deferredOn thread ++ batch := by
  cases batch with
  | nil => simp [deferBatch]
  | cons front rest =>
    -- the batch joins the list of its thread, or makes one
    rcases l.schedule_cases thread (front :: rest) with
      ⟨before, deferred, after, hb, hl, he⟩ | ⟨hnone, he⟩
    · simp [deferBatch, he, deferredOn, hl, find?_focus hb]
    · have hmissing : l.runLists.find? (fun run => run.thread == thread) = none := by
        apply List.find?_eq_none.2
        intro run hrun
        simpa using hnone run hrun
      simp [deferBatch, he, deferredOn, List.find?_append, hmissing]

/-- A batch of more than one request consists of readers and starts with one, and is counted. -/
theorem readBatches_countDrain (hmodes : (∀ r ∈ batch, r.mode = .read) ∨ batch.length ≤ 1)
    (s : Stats) : (s.countDrain batch.length (startsWithRead batch)).readBatches =
      s.readBatches + if 2 ≤ batch.length then 1 else 0 := by
  -- a batch of several has no writer in it, and the counter looks at its first request only
  by_cases hmany : 2 ≤ batch.length
  · have hread : startsWithRead batch = true := by
      cases batch with
      | nil => simp at hmany
      | cons front rest =>
        have hfront := hmodes.resolve_right (by omega) front (by simp)
        simp [startsWithRead, hfront]
    simp [Stats.countDrain, hread, hmany, Nat.lt_of_succ_le]
  · have hfew : ¬1 < batch.length := hmany
    simp [Stats.countDrain, hmany, hfew]

/-- A release takes its batch from the front of the queue, and counts it as a batch of readers if it
    is more than one request. -/
theorem release_batch {n : GrantId} {mode : Mode} (h : l.release n mode = (l', batch)) :
    (∃ rest, l.core.queue = batch ++ rest) ∧
      ((∀ r ∈ batch, r.mode = .read) ∨ batch.length ≤ 1) ∧
      l'.runLists = l.runLists ∧
      l'.stats.redundantReleases = l.stats.redundantReleases ∧
      l'.stats.readBatches = l.stats.readBatches + if 2 ≤ batch.length then 1 else 0 := by
  -- others still hold the lock, or its queue is drained
  rcases release_cases h with ⟨-, rfl, rfl⟩ | ⟨-, rfl, rfl⟩
  · exact ⟨⟨_, rfl⟩, .inr (by simp), rfl, rfl, rfl⟩
  · have hmodes : (∀ r ∈ batchOf l.core.queue, r.mode = .read) ∨
        (batchOf l.core.queue).length ≤ 1 := by
      rcases batchOf_cases l.core.queue with hread | ⟨r, hr, -⟩
      · exact .inl hread
      · exact .inr (by simp [hr])
    have hcounted := readBatches_countDrain hmodes l.stats.countReleased
    refine ⟨⟨_, (batchOf_append_rest _).symm⟩, hmodes, rfl, ?_, ?_⟩
    all_goals
      dsimp only
      generalize batchOf l.core.queue = batch at hcounted
    · split <;> rfl
    · cases batch with
      | nil => rfl
      | cons front rest => exact hcounted

/-- What is drained when a grant is ended.  It goes to the end of the run list of the thread. -/
theorem Ends.exists_batch {id : LockId} {g : Grant} {j j' : Journal}
    (h : Lock.Ends id thread g l j l' j') :
    ∃ batch : List (Request Entry), (∃ rest, l.core.queue = batch ++ rest) ∧
      ((∀ r ∈ batch, r.mode = .read) ∨ batch.length ≤ 1) ∧
      j'.issued = j.issued ++ batch.map (Request.grant id) ∧
      l'.deferredOn thread = l.deferredOn thread ++ batch ∧
      l'.stats.redundantReleases = l.stats.redundantReleases ∧
      l'.stats.readBatches = l.stats.readBatches + if 2 ≤ batch.length then 1 else 0 := by
  cases h with
  | same => exact ⟨[], ⟨_, rfl⟩, .inr (by simp), by simp, by simp, rfl, rfl⟩
  | ended parent entered hlock hunended h =>
    -- the batch lies where the release has put it, as the reports come after it
    rename_i freed batch
    obtain ⟨hqueue, hmodes, hruns, hredundant, hbatches⟩ := release_batch h
    refine ⟨batch, hqueue, hmodes, ?_, ?_, ?_, ?_⟩
    · have hdrain := Ledger.issues_drainEvents id batch freed.pending parent entered
      simp [hdrain.issued]
    · rw [deferredOn_deferBatch, deferredOn, hruns]
      rfl
    · rw [deferBatch_eq]
      exact hredundant
    · rw [deferBatch_eq]
      exact hbatches

/-- A loop that starts takes nothing off a run list and puts nothing on one. -/
theorem deferredOn_dispatchOn (l : Lock Entry) (thread t : ThreadId) :
    (l.dispatchOn thread).deferredOn t = l.deferredOn t := by
  cases hloop : l.isDispatching thread with
  | true => simp [dispatchOn, hloop]
  | false =>
    have hopened : l.dispatchOn thread = l.openRunList thread [] := by simp [dispatchOn, hloop]
    rw [hopened]
    -- what was opened is empty, so the thread has nothing deferred on it, as it had before
    by_cases ht : t = thread
    · subst ht
      have hmissing : l.runLists.find? (fun run => run.thread == t) = none := by
        apply List.find?_eq_none.2
        intro run hrun
        simpa using noneOf_of_not_isDispatching hloop run hrun
      simp [openRunList, deferredOn, List.find?_append, hmissing]
    · exact l.deferredOn_openRunList [] ht

/-- The next request of a thread is taken from the front of its run list. -/
theorem deferredOn_of_next {r : Request Entry} (h : l.next thread = some (r, l')) :
    l.deferredOn thread = r :: l'.deferredOn thread := by
  obtain ⟨before, deferred, after, hb, hl, rfl⟩ := next_cases h
  simp [deferredOn, hl, find?_focus hb]

/-- What is drained at the end of a grant is put on the run list of the thread, and nothing else
    happens to any run list. -/
theorem Ends.deferredOn {id : LockId} {g : Grant} {j j' : Journal}
    (h : Lock.Ends id thread g l j l' j') (hb : Balanced id l j.accepted j.issued j.ended)
    (t : ThreadId) :
    (l'.deferredOn t).map (Request.grant id) =
      (l.deferredOn t).map (Request.grant id) ++ if thread = t then l.drained id j' else [] := by
  obtain ⟨batch, ⟨rest, hqueue⟩, -, hissued, hdeferred, -, -⟩ := h.exists_batch
  -- the list of the thread grows by the batch, and no other one is written to
  by_cases ht : thread = t
  · subst ht
    rw [if_pos rfl, hb.drained_eq hqueue hissued, hdeferred, List.map_append]
  · rw [if_neg ht, List.append_nil]
    cases h with
    | same => rfl
    | ended parent entered hlock hunended h =>
      rename_i freed batch
      have hother : (freed.deferBatch thread batch).deferredOn t = freed.deferredOn t := by
        cases batch with
        | nil => rfl
        | cons front rest => exact freed.deferredOn_schedule _ (Ne.symm ht)
      have hruns : freed.deferredOn t = l.deferredOn t := by
        rw [Lock.deferredOn, (release_batch h).2.2.1]
        rfl
      rw [hother, hruns]

end Lock

/-- The end of a grant drains the batch that its release takes from the queue. -/
theorem World.drained_endUnended {w : World} {g : Grant} {l : Lock Entry}
    {batch : List (Request Entry)} (hid : g.lock < w.locks.length)
    (hb : Balanced g.lock (w.lock g.lock) (w.journal g.lock).accepted (w.journal g.lock).issued
      (w.journal g.lock).ended) (h : (w.lock g.lock).release g.id g.mode = (l, batch)) :
    w.drained (w.endUnended g).world g.lock = batch.map (Request.grant g.lock) := by
  obtain ⟨⟨rest, hqueue⟩, -⟩ := Lock.release_batch h
  -- what is issued on the way are the grants of the batch, which are the front of the queue
  apply hb.drained_eq hqueue
  have hdrain := Ledger.issues_drainEvents g.lock batch l.pending (currentSpan w.entered) w.entered
  rw [(views_endUnended hid h).1.2]
  simp [hdrain.issued]

namespace Lock

variable {l l' : Lock Entry} {thread : ThreadId}

/-- Another list of runs does not change what was counted. -/
theorem stats_dispatchOn (l : Lock Entry) (thread : ThreadId) :
    (l.dispatchOn thread).stats = l.stats := by
  rw [dispatchOn_eq]

theorem stats_next {r : Request Entry} (h : l.next thread = some (r, l')) : l'.stats = l.stats := by
  obtain ⟨before, deferred, after, -, -, rfl⟩ := next_cases h
  rfl

end Lock

namespace Machine

variable {may : Call → Prop} {loop : Option (LockId × Bool)} {id : LockId} {thread : ThreadId}
  {l l' : Lock Entry} {j j' : Journal}

/-- What a transition drains is one batch at most.  It lies at the end of the run list of the thread,
    and is counted if it is more than one request. -/
theorem Turn.exists_batch (h : Turn may loop id thread l j l' j')
    (hb : Balanced id l j.accepted j.issued j.ended) :
    ∃ batch : List (Request Entry), l.drained id j' = batch.map (Request.grant id) ∧
      batch <:+ l'.deferredOn thread ∧ ((∀ r ∈ batch, r.mode = .read) ∨ batch.length ≤ 1) ∧
      l'.stats.readBatches = l.stats.readBatches + if 2 ≤ batch.length then 1 else 0 := by
  -- what issues nothing drains nothing and counts no batch
  have hnone : j'.issued = j.issued → l'.stats.readBatches = l.stats.readBatches →
      ∃ batch : List (Request Entry), l.drained id j' = batch.map (Request.grant id) ∧
        batch <:+ l'.deferredOn thread ∧ ((∀ r ∈ batch, r.mode = .read) ∨ batch.length ≤ 1) ∧
        l'.stats.readBatches = l.stats.readBatches + if 2 ≤ batch.length then 1 else 0 := by
    intro hissued hsame
    exact ⟨[], hb.drained_eq rfl (by simpa using hissued), List.nil_suffix, .inr (by simp),
      by simpa using hsame⟩
  cases h with
  | same => exact hnone rfl rfl
  | granted parent entered shown h =>
    obtain ⟨hqueue, -, -, rfl⟩ := Lock.submit_granted h
    refine ⟨[], by simp [Lock.drained, hqueue], List.nil_suffix, .inr (by simp), ?_⟩
    rw [Lock.stats_dispatchOn]
    rfl
  | queued entered h =>
    obtain ⟨-, -, -, -, rfl⟩ := Lock.submit_queued h
    exact hnone (by simp) rfl
  | rejected entered h =>
    obtain ⟨-, -, -, rfl⟩ := Lock.submit_rejected h
    exact hnone (by simp) rfl
  | ended h =>
    obtain ⟨batch, ⟨rest, hqueue⟩, hmodes, hissued, hdeferred, -, hcounted⟩ := h.exists_batch
    exact ⟨batch, hb.drained_eq hqueue hissued, ⟨_, hdeferred.symm⟩, hmodes, hcounted⟩
  | redundant entered hlock hmay hended => exact hnone (by simp) rfl
  | failed failure entered hlock =>
    rename_i g
    have hissued := (Ledger.issues_failureEvents l g failure entered).issued
    exact hnone (by simp [hissued]) rfl
  | taken shown hloop h hend =>
    obtain ⟨batch, ⟨rest, hqueue⟩, hmodes, hissued, hdeferred, -, hcounted⟩ := hend.exists_batch
    -- the request that was taken leaves its run list, and the queue is untouched
    obtain ⟨before, deferred, after, -, -, rfl⟩ := Lock.next_cases h
    exact ⟨batch, hb.drained_eq hqueue (by simpa using hissued), ⟨_, hdeferred.symm⟩, hmodes,
      hcounted⟩
  | closed hloop h => exact hnone rfl rfl
  | unwound hloop => exact hnone rfl rfl
  | dropped tag hlock => exact hnone (by simp) rfl

/-- The request that a loop takes leaves the front of its run list before the end of its grant
    drains anything. -/
theorem served_append_deferredOn_of_taken {t : ThreadId} {out out' : List Grant} {l₁ : Lock Entry}
    {r : Request Entry} (shown : Option (String × Option State))
    (h : l.next thread = some (r, l₁))
    (hend : Lock.Ends id thread (r.grant id) l₁ (.started (r.grant id) thread shown :: j) l' j')
    (hs : Ledger.Sound id ⟨l, j, out⟩) (hs' : Ledger.Sound id ⟨l', j', out'⟩) :
    j'.served t ++ (l'.deferredOn t).map (Request.grant id) =
      j.served t ++ (l.deferredOn t).map (Request.grant id) ++
        if thread = t then l.drained id j' else [] := by
  have htaken : Ledger.Sound id ⟨l₁, .started (r.grant id) thread shown :: j, out⟩ :=
    hs.taken thread shown h
  have hdrained := hend.deferredOn htaken.balanced t
  have hqueue : l₁.drained id j' = l.drained id j' := by
    obtain ⟨before, deferred, after, -, -, rfl⟩ := Lock.next_cases h
    rfl
  rw [hqueue] at hdrained
  obtain ⟨new, hj, -, -, -, hstarted, -⟩ := hend.exists_new
  -- the end of the grant starts nobody, so only the request that was taken is served
  subst hj
  have hserved : (new ++ .started (r.grant id) thread shown :: j).served t =
      (Journal.served t (.started (r.grant id) thread shown :: j)) := by
    apply htaken.served_of_not_queued hs'
    simp [hstarted]
  rw [hserved, hs.served_of_next h, hdrained]
  by_cases ht : thread = t
  · subst ht
    simp [Lock.deferredOn_of_next h]
  · simp [ht, Lock.deferredOn_next h (Ne.symm ht)]

/-- What a thread has started of the waiting requests and what is left on its run list is together
    what it has drained, in that order.  Only a loop that is unwound gives up what is left. -/
theorem Turn.served_append_deferredOn {t : ThreadId} {out out' : List Grant}
    (h : Turn may loop id thread l j l' j') (hs : Ledger.Sound id ⟨l, j, out⟩)
    (hs' : Ledger.Sound id ⟨l', j', out'⟩) (hwhole : loop = some (id, true) → thread ≠ t) :
    j'.served t ++ (l'.deferredOn t).map (Request.grant id) =
      j.served t ++ (l.deferredOn t).map (Request.grant id) ++
        if thread = t then l.drained id j' else [] := by
  have hidle : j'.issued = j.issued → l.drained id j' = [] := by
    intro hissued
    have hqueue : l.core.queue = [] ++ l.core.queue := rfl
    exact hs.balanced.drained_eq hqueue (by simpa using hissued)
  -- most of what happens to a lock starts nobody who waited and leaves the run lists alone
  have hquiet : ∀ new, j' = new ++ j → (∀ g ∈ new.started, g ∉ j'.queued) →
      l.drained id j' = [] → l'.deferredOn t = l.deferredOn t →
      j'.served t ++ (l'.deferredOn t).map (Request.grant id) =
        j.served t ++ (l.deferredOn t).map (Request.grant id) ++
          if thread = t then l.drained id j' else [] := by
    intro new hj hnew hdrained hdeferred
    rw [hdrained, ite_self, hdeferred, List.append_nil]
    subst hj
    rw [hs.served_of_not_queued hs' hnew]
  cases h with
  | same => exact hquiet [] rfl (by simp) (hidle rfl) rfl
  | granted parent entered shown h =>
    rename_i l₁ mode entry r
    obtain ⟨hqueue, -, -, hl₁⟩ := Lock.submit_granted h
    refine hquiet [_, _, _] rfl ?_ (by simp [Lock.drained, hqueue]) ?_
    · intro g hg
      obtain rfl : g = r.grant id := by simpa using hg
      exact hs'.not_immediate_and_queued (by simp)
    · rw [Lock.deferredOn_dispatchOn, hl₁]
      rfl
  | queued entered h =>
    obtain ⟨-, -, -, -, rfl⟩ := Lock.submit_queued h
    exact hquiet [_] rfl (by simp) (hidle (by simp)) rfl
  | rejected entered h =>
    obtain ⟨-, -, -, rfl⟩ := Lock.submit_rejected h
    exact hquiet [_] rfl (by simp) (hidle (by simp)) rfl
  | ended h =>
    obtain ⟨new, rfl, -, -, -, hstarted, -⟩ := h.exists_new
    have hserved : (new ++ j).served t = j.served t := by
      apply hs.served_of_not_queued hs'
      simp [hstarted]
    rw [hserved, h.deferredOn hs.balanced, List.append_assoc]
  | redundant entered hlock hmay hended => exact hquiet [_] rfl (by simp) (hidle (by simp)) rfl
  | failed failure entered hlock =>
    rename_i g
    have hissues := Ledger.issues_failureEvents l g failure entered
    exact hquiet _ rfl (by simp [hissues.started]) (hidle (by simp [hissues.issued])) rfl
  | taken shown hloop h hend => exact served_append_deferredOn_of_taken shown h hend hs hs'
  | closed hloop h =>
    -- the run list that is given up is empty
    refine hquiet [] rfl (by simp) (hidle rfl) ?_
    by_cases ht : thread = t
    · subst ht
      rw [Lock.deferredOn_of_next_eq_none h]
      apply Lock.deferredOn_of_not_isDispatching
      rw [Bool.eq_false_iff, Ne, Lock.isDispatching_close hs.threads]
      exact fun hstill => hstill.2 rfl
    · exact l.deferredOn_close (Ne.symm ht)
  | unwound hloop =>
    exact hquiet [] rfl (by simp) (hidle rfl) (l.deferredOn_close (Ne.symm (hwhole hloop)))
  | dropped tag hlock => exact hquiet [_] rfl (by simp) (hidle (by simp)) rfl

end Machine

end FairLock
