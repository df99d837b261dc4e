import FairLock.Proofs.Ledger.Balance

/-!
# Where granted requests are, and in which order they start

A granted request whose entry point has not been started lies on a run list, or an unwound loop
has taken it off there.  A drain happens only when nothing is held, and what is deferred is held;
so all deferred requests come from one drain, lie with one thread, and are worked off in order.
The one way to start out of order is a reader that is granted on the spot while older readers of
the last drain are still deferred.

## Main definitions

- `Rightful`: what is true whenever an entry point is started.
- `Sound`: the invariant of a ledger.

## Main statements

- `Sound.step`: one lemma for each kind of step, put together.
- `Reachable.sound`: every ledger that a lock can come to have is sound.
-/

namespace FairLock

/-- What is true whenever an entry point is started. -/
structure Rightful (g : Grant) (before : Journal) : Prop where
  /-- Its request was accepted, -/
  accepted : g ∈ before.accepted
  /-- its grant was issued, -/
  issued : g ∈ before.issued
  /-- has not ended, -/
  unended : g ∉ before.ended
  /-- and was not started before. -/
  first : g ∉ before.started
  /-- So were the grants of all earlier requests. -/
  earlier : ∀ i ∈ before.accepted, i.id < g.id → i ∈ before.issued
  /-- Every earlier request that it conflicts with has ended. -/
  conflicts : ∀ i ∈ before.accepted, i.id < g.id → i.mode.conflicts g.mode = true →
    i ∈ before.ended
  /-- Only a reader that was granted on the spot has overtaken it, and only if it had to wait. -/
  overtaken : ∀ j ∈ before.started, g.id < j.id →
    g.mode = .read ∧ j.mode = .read ∧ g ∈ before.queued ∧ j ∈ before.immediate

/-- An issued grant of a balanced lock that has neither ended nor been started may be started, as
    far as nobody has overtaken it who must not. -/
theorem Balanced.rightful {id : LockId} {l : Lock Entry} {g : Grant} {before : Journal}
    (h : Balanced id l before.accepted before.issued before.ended) (hissued : g ∈ before.issued)
    (hunended : g ∉ before.ended) (hfirst : g ∉ before.started)
    (hovertaken : ∀ j ∈ before.started, g.id < j.id →
      g.mode = .read ∧ j.mode = .read ∧ g ∈ before.queued ∧ j ∈ before.immediate) :
    Rightful g before where
  accepted := h.issued_sublist.subset hissued
  issued := hissued
  unended := hunended
  first := hfirst
  -- grants are issued in the order of their numbers, so every earlier one is issued
  earlier _ hi hid := h.issued_of_lt hi hissued hid
  -- two grants that conflict are never issued together: the earlier one has ended by then
  conflicts i hi hid hconflict :=
    h.ordered i (h.issued_of_lt hi hissued hid) g hissued hid hconflict
  overtaken := hovertaken

namespace Ledger

variable {id : LockId}

/-- The invariant of a ledger. -/
structure Sound (id : LockId) (k : Ledger) : Prop where
  /-- The journal and the core agree. -/
  balanced : Balanced id k.lock k.journal.accepted k.journal.issued k.journal.ended
  /-- Every issued grant is in exactly one place. -/
  places : k.journal.issued.Perm
    (k.journal.started ++ k.deferred id ++ k.out ++ k.journal.handedBack)
  /-- A thread has one run list at most. -/
  threads : (k.lock.runLists.map (·.thread)).Nodup
  /-- Who is granted on the spot is started. -/
  immediate : ∀ g ∈ k.journal.immediate, g ∈ k.journal.started
  /-- What is deferred has not ended. -/
  pending : ∀ g ∈ k.deferred id, g ∉ k.journal.ended
  /-- What is deferred is in order, -/
  sorted : (k.deferred id).Pairwise (·.id < ·.id)
  /-- and lies with one thread. -/
  oneThread : OneThread k.lock.runLists
  /-- Whoever has overtaken a deferred request is a reader that was granted on the spot. -/
  overtaken : ∀ i ∈ k.deferred id, ∀ j ∈ k.journal.started, i.id < j.id →
    i.mode = .read ∧ j.mode = .read ∧ j ∈ k.journal.immediate
  /-- Every entry point was started rightfully. -/
  starts : k.journal.EachStart Rightful

namespace Sound

variable {l l' : Lock Entry} {journal : Journal} {out : List Grant}

theorem of_fresh {k : Ledger} (h : Fresh k) : Sound id k := by
  have hsilent := h.silent
  -- nothing is submitted, so every list that is read off the journal is empty
  obtain ⟨l, journal, out⟩ := k
  obtain ⟨⟨config, rfl⟩, -, rfl⟩ := h
  obtain ⟨hissued, haccepted, himmediate, -, hended, hstarted, hhandedBack⟩ := hsilent
  have hstarts : journal.EachStart Rightful :=
    List.append_nil journal ▸ Journal.EachStart.nil.append hstarted
  constructor
  case balanced =>
    simp only [haccepted, hissued, hended]
    exact Balanced.of_fresh config
  case oneThread => exact ⟨0, by simp⟩
  case starts => exact hstarts
  all_goals simp [deferred, hissued, hstarted, himmediate, hhandedBack]

/-! ## Consequences -/

section Consequences

variable {k : Ledger} (h : Sound id k)
include h

theorem places_nodup :
    (k.journal.started ++ k.deferred id ++ k.out ++ k.journal.handedBack).Nodup :=
  h.places.nodup_iff.1 h.balanced.issued_nodup

theorem issued_of_started {g : Grant} (hg : g ∈ k.journal.started) : g ∈ k.journal.issued :=
  h.places.mem_iff.2 (by simp [hg])

theorem issued_of_deferred {g : Grant} (hg : g ∈ k.deferred id) : g ∈ k.journal.issued :=
  h.places.mem_iff.2 (by simp [hg])

theorem issued_of_out {g : Grant} (hg : g ∈ k.out) : g ∈ k.journal.issued :=
  h.places.mem_iff.2 (by simp [hg])

theorem not_started_of_deferred {g : Grant} (hg : g ∈ k.deferred id) :
    g ∉ k.journal.started := by
  intro hs
  have := h.places_nodup
  simp only [List.append_assoc, List.nodup_append] at this
  exact this.2.2 g hs g (by simp [hg]) rfl

/-- What has been taken out was never started. -/
theorem not_started_of_takenOut {g : Grant} (hg : g ∈ k.out ∨ g ∈ k.journal.handedBack) :
    g ∉ k.journal.started := by
  intro hs
  have hnodup := h.places_nodup
  simp only [List.append_assoc, List.nodup_append] at hnodup
  refine hnodup.2.2 g hs g ?_ rfl
  rcases hg with hg | hg <;> simp [hg]

theorem not_deferred_of_source {g : Grant} (hg : g ∈ k.journal.started ∨ g ∈ k.out) :
    g ∉ k.deferred id := by
  intro hd
  have := h.places_nodup
  simp only [List.append_assoc, List.nodup_append] at this
  rcases hg with hs | ho
  · exact this.2.2 g hs g (by simp [hd]) rfl
  · exact this.2.1.2.2 g hd g (by simp [ho]) rfl

theorem held_of_deferred {g : Grant} (hg : g ∈ k.deferred id) :
    g ∈ stillHeld k.journal.issued k.journal.ended :=
  mem_stillHeld.2 ⟨h.issued_of_deferred hg, h.pending g hg⟩

/-- What the lock takes for unended among the started and the handed-back grants is held. -/
theorem held_of_isUnended {g : Grant} (hg : g ∈ k.journal.started ∨ g ∈ k.out)
    (hunended : k.lock.isUnended g.id = true) :
    g ∈ stillHeld k.journal.issued k.journal.ended := by
  have hissued : g ∈ k.journal.issued :=
    hg.elim (fun hs => h.issued_of_started hs) fun ho => h.issued_of_out ho
  exact (h.balanced.isUnended_iff hissued).1 hunended

/-- What is deferred had to wait: who is granted on the spot is never deferred. -/
theorem queued_of_deferred {g : Grant} (hg : g ∈ k.deferred id) : g ∈ k.journal.queued := by
  have haccepted := h.balanced.issued_sublist.subset (h.issued_of_deferred hg)
  rcases List.mem_append.1 ((Journal.accepted_perm k.journal).mem_iff.1 haccepted) with hi | hq
  · exact absurd (h.immediate g hi) (h.not_started_of_deferred hg)
  · exact hq

end Consequences

/-! ## Steps that leave requests and grants alone -/

theorem silent (h : Sound id ⟨l, journal, out⟩) (new : Journal) (hnew : Issues new [])
    (hcore : l'.core = l.core) (hunended : l'.unended = l.unended)
    (hruns : l'.runLists = l.runLists) : Sound id ⟨l', new ++ journal, out⟩ := by
  obtain ⟨balanced, places, threads, immediate, pending, sorted, oneThread, overtaken, starts⟩ := h
  constructor
  -- the new reports are neither submissions nor issues nor ends, so the lists stay what they were
  case balanced =>
    simp only [Journal.accepted, Journal.issued, Journal.ended, occurrences_append,
      hnew.accepted, hnew.issued, hnew.ended, List.append_nil]
    exact balanced.congr hcore hunended
  case starts => exact starts.append hnew.started
  -- what is left speaks of these lists and of the run lists, which the step does not touch
  all_goals
    simp only [Journal.issued, Journal.started, Journal.handedBack, Journal.immediate,
      Journal.ended, deferred, occurrences_append, hnew.issued, hnew.started, hnew.handedBack,
      hnew.immediate, hnew.ended, List.append_nil, hruns]
    assumption

/-! ## Submissions -/

theorem queued {mode : Mode} {entry : Entry} {n pending : Nat} (entered : List Grant)
    (h : Sound id ⟨l, journal, out⟩) (hsubmit : l.submit mode entry = (l', .queued n pending)) :
    Sound id
      ⟨l', .notice (.queued ⟨id, n, mode⟩ l'.state pending) entered :: journal, out⟩ := by
  have hruns : l'.runLists = l.runLists := by
    obtain ⟨-, -, -, -, rfl⟩ := Lock.submit_queued hsubmit
    rfl
  have hbalanced := h.balanced.submit_queued hsubmit
  -- all but the balance is about issued grants and run lists, and the new request is on neither
  constructor
  case balanced => simpa using hbalanced
  case starts => exact h.starts.cons (by rintro g thread shown ⟨⟩)
  case places => simpa [deferred, hruns] using h.places
  case threads => simpa [hruns] using h.threads
  case immediate => simpa using h.immediate
  case pending => simpa [deferred, hruns] using h.pending
  case sorted => simpa [deferred, hruns] using h.sorted
  case oneThread => simpa [hruns] using h.oneThread
  case overtaken => simpa [deferred, hruns] using h.overtaken

theorem granted {mode : Mode} {entry : Entry} {r : Request Entry} (thread : ThreadId)
    (parent : Option Grant) (entered : List Grant) (shown : Option (String × Option State))
    (h : Sound id ⟨l, journal, out⟩) (hsubmit : l.submit mode entry = (l', .granted r)) :
    Sound id
      ⟨l'.dispatchOn thread,
        .started (r.grant id) thread shown :: .issued (r.grant id) parent ::
          .notice (.grantedImmediately (r.grant id) l'.state) entered :: journal, out⟩ := by
  have hbalanced := h.balanced.submit_granted hsubmit
  obtain ⟨hqueue, hadmits, hr, hl'⟩ := Lock.submit_granted hsubmit
  have hruns : l'.runLists = l.runLists := by rw [hl']
  have hmode : r.mode = mode := by rw [hr]
  have hdeferred : (deferredIn (l'.dispatchOn thread).runLists).map (Request.grant id) =
      deferred id ⟨l, journal, out⟩ := by
    rw [Lock.deferredIn_dispatchOn, hruns]
    rfl
  -- the new grant is younger than all that was issued before
  have hfresh : ∀ i ∈ journal.issued, i.id < (r.grant id).id := by
    intro i hi
    rw [hr]
    exact h.balanced.id_lt_nextId (h.balanced.issued_sublist.subset hi)
  have hnew : r.grant id ∉ journal.issued := fun hmem => Nat.lt_irrefl _ (hfresh _ hmem)
  have hdispatch := l'.dispatchOn_eq thread
  constructor
  case balanced =>
    have hsame : Balanced id (l'.dispatchOn thread) (journal.accepted ++ [r.grant id])
        (journal.issued ++ [r.grant id]) journal.ended :=
      hbalanced.congr (by rw [hdispatch]) (by rw [hdispatch])
    simpa using hsame
  case places =>
    -- the same grant is issued and started
    rw [deferred, hdeferred]
    have := h.places
    rw [List.perm_iff_count] at this ⊢
    intro a
    have := this a
    simp only [Journal.issued, Journal.started, Journal.handedBack, occurrences_cons,
      Event.issued?, Event.started?, Event.handedBack?, Option.toList_some, Option.toList_none,
      List.append_nil, List.count_append] at this ⊢
    omega
  case threads => exact Lock.threads_dispatchOn (hruns ▸ h.threads) thread
  case immediate =>
    intro g hg
    simp only [Journal.immediate, Journal.started, occurrences_cons, Event.immediate?,
      Event.started?, Option.toList_some, Option.toList_none, List.append_nil,
      List.mem_append] at hg ⊢
    exact hg.imp_left (h.immediate g)
  case pending =>
    rw [deferred, hdeferred]
    simpa using h.pending
  case sorted =>
    rw [deferred, hdeferred]
    exact h.sorted
  case oneThread => exact Lock.oneThread_dispatchOn (hruns ▸ h.oneThread) thread
  case overtaken =>
    rw [deferred, hdeferred]
    intro i hi j hj hij
    simp only [Journal.started, Journal.immediate, occurrences_cons, Event.started?,
      Event.immediate?, Option.toList_some, Option.toList_none, List.append_nil,
      List.mem_append, List.mem_singleton] at hj ⊢
    rcases hj with hj | rfl
    · obtain ⟨h1, h2, h3⟩ := h.overtaken i hi j hj hij
      exact ⟨h1, h2, .inl h3⟩
    · -- what is deferred is held, and the state admits the new request next to it
      have hmem : i.mode ∈ (stillHeld journal.issued journal.ended).map (·.mode) :=
        List.mem_map_of_mem (h.held_of_deferred hi)
      have hfree := h.balanced.state.not_conflicts hadmits _ hmem
      rw [Mode.conflicts_eq_false_iff] at hfree
      exact ⟨hfree.1, hmode.trans hfree.2, .inr rfl⟩
  case starts =>
    refine ((h.starts.cons ?_).cons ?_).cons ?_
    · rintro g thread shown ⟨⟩
    · rintro g thread shown ⟨⟩
    · -- it is the youngest of all, so nobody can have overtaken it
      rintro g thread shown ⟨⟩
      refine Balanced.rightful (l := l') (by simpa using hbalanced) (by simp) ?unended ?first
        ?overtaken
      case unended =>
        intro hmem
        exact hnew (h.balanced.issued_of_ended _ (by simpa using hmem))
      case first =>
        intro hmem
        exact hnew (h.issued_of_started (by simpa using hmem))
      case overtaken =>
        intro j hj hlt
        have hissued : j ∈ journal.issued := h.issued_of_started (by simpa using hj)
        exact absurd hlt (Nat.lt_asymm (hfresh j hissued))

/-! ## Run lists -/

/-- The next request of a thread is the oldest of all that are deferred. -/
theorem deferred_next {r : Request Entry} {thread : ThreadId}
    (h : Sound id ⟨l, journal, out⟩) (hnext : l.next thread = some (r, l')) :
    deferredIn l.runLists = r :: deferredIn l'.runLists := by
  obtain ⟨before, rest, after, hbefore, hl, rfl⟩ := Lock.next_cases hnext
  obtain ⟨owner, howner⟩ := h.oneThread
  simp only [hl] at howner
  -- a thread that has something deferred is the one thread that has
  have heq : thread = owner := by
    by_contra hne
    have := howner ⟨thread, r :: rest⟩ (by simp) hne
    simp at this
  have hempty : deferredIn before = [] := by
    refine deferredIn_eq_nil ?_
    intro run hrun
    exact howner run (by simp [hrun]) (heq ▸ hbefore run hrun)
  simp [hl, hempty]

theorem taken {r : Request Entry} (thread : ThreadId) (shown : Option (String × Option State))
    (h : Sound id ⟨l, journal, out⟩) (hnext : l.next thread = some (r, l')) :
    Sound id ⟨l', .started (r.grant id) thread shown :: journal, out⟩ := by
  have hdeferred : deferred id ⟨l, journal, out⟩ =
      r.grant id :: (deferredIn l'.runLists).map (Request.grant id) := by
    simp [deferred, h.deferred_next hnext]
  have hfront : r.grant id ∈ deferred id ⟨l, journal, out⟩ := by simp [hdeferred]
  have hrest : ∀ g ∈ (deferredIn l'.runLists).map (Request.grant id),
      g ∈ deferred id ⟨l, journal, out⟩ := fun g hg => by simp only [hdeferred, List.mem_cons, hg,
        or_true]
  have hsorted := h.sorted
  rw [hdeferred, List.pairwise_cons] at hsorted
  obtain ⟨before, rest, after, -, hl, rfl⟩ := Lock.next_cases hnext
  constructor
  case balanced =>
    refine Balanced.congr (l := l) ?_ rfl rfl
    simpa using h.balanced
  case places =>
    -- the grant moves from the run list to the started ones
    have := h.places
    rw [hdeferred] at this
    rw [List.perm_iff_count] at this ⊢
    intro a
    have := this a
    simp only [Journal.issued, Journal.started, Journal.handedBack, occurrences_cons,
      Event.issued?, Event.started?, Event.handedBack?, Option.toList_some, Option.toList_none,
      List.append_nil, List.count_append, List.count_cons, List.count_nil, deferred] at this ⊢
    omega
  case threads => simpa [hl] using h.threads
  case immediate =>
    intro g hg
    simp only [Journal.immediate, Journal.started, occurrences_cons, Event.immediate?,
      Event.started?, Option.toList_some, Option.toList_none, List.append_nil,
      List.mem_append] at hg ⊢
    exact .inl (h.immediate g hg)
  case pending =>
    intro g hg
    simpa using h.pending g (hrest g hg)
  case sorted => exact hsorted.2
  case oneThread =>
    obtain ⟨owner, howner⟩ := h.oneThread
    refine ⟨owner, ?_⟩
    intro run hrun hne
    simp only [hl, List.mem_append, List.mem_cons] at howner hrun
    rcases hrun with hrun | rfl | hrun
    · exact howner run (.inl hrun) hne
    · have := howner ⟨thread, r :: rest⟩ (.inr (.inl rfl)) hne
      simp at this
    · exact howner run (.inr (.inr hrun)) hne
  case overtaken =>
    intro i hi j hj hij
    simp only [Journal.started, Journal.immediate, occurrences_cons, Event.started?,
      Event.immediate?, Option.toList_some, Option.toList_none, List.append_nil,
      List.mem_append, List.mem_singleton] at hj ⊢
    rcases hj with hj | rfl
    · exact h.overtaken i (hrest i hi) j hj hij
    · -- the run list is worked off in order
      exact absurd hij (Nat.lt_asymm (hsorted.1 i hi))
  case starts =>
    refine h.starts.cons ?_
    rintro g thread shown ⟨⟩
    refine h.balanced.rightful (h.issued_of_deferred hfront) (h.pending _ hfront)
      (h.not_started_of_deferred hfront) ?_
    intro j hj hlt
    obtain ⟨hread, hjread, himmediate⟩ := h.overtaken _ hfront j hj hlt
    exact ⟨hread, hjread, h.queued_of_deferred hfront, himmediate⟩

theorem closed (thread : ThreadId) (h : Sound id ⟨l, journal, out⟩) :
    Sound id
      ⟨(l.close thread).1, journal, (l.deferredOn thread).map (Request.grant id) ++ out⟩ := by
  have hsplit : l.deferredOn thread = (l.close thread).2 := rfl
  rw [hsplit]
  rcases l.close_cases thread with ⟨before, rest, after, -, hl, he⟩ | ⟨-, he⟩
  case inr => simpa [he] using h
  rw [he]
  have hsub : ((deferredIn (before ++ after)).map (Request.grant id)).Sublist
      (deferred id ⟨l, journal, out⟩) := by
    simp only [deferred, hl, deferredIn_append, deferredIn_cons]
    refine List.Sublist.map _ (List.Sublist.append_left ?_ _)
    exact List.sublist_append_right _ _
  have hsubset := hsub.subset
  obtain ⟨balanced, places, threads, immediate, pending, sorted, oneThread, overtaken, starts⟩ := h
  constructor
  case balanced => exact balanced.congr rfl rfl
  case places =>
    -- what was left on the list of the thread is now with the loop
    rw [List.perm_iff_count] at places ⊢
    intro a
    have := places a
    simp only [deferred, hl, deferredIn_append, deferredIn_cons, List.map_append,
      List.count_append] at this ⊢
    omega
  case threads =>
    simp only [hl, List.map_append, List.map_cons] at threads ⊢
    exact threads.sublist (List.Sublist.append_left (List.sublist_cons_self _ _) _)
  case immediate => exact immediate
  case pending => exact fun g hg => pending g (hsubset hg)
  case sorted => exact sorted.sublist hsub
  case oneThread =>
    obtain ⟨owner, howner⟩ := oneThread
    refine ⟨owner, ?_⟩
    intro run hrun
    refine howner run ?_
    simp only [hl, List.mem_append, List.mem_cons] at hrun ⊢
    exact hrun.imp_right .inr
  case overtaken => exact fun i hi => overtaken i (hsubset hi)
  case starts => exact starts

/-- Once a lock is freed, nothing is deferred: what is deferred is held. -/
theorem deferredIn_of_freed {g : Grant} (h : Sound id ⟨l, journal, out⟩)
    (hheld : g ∈ stillHeld journal.issued journal.ended)
    (hsource : g ∈ journal.started ∨ g ∈ out) (hfree : l.core.state.released g.mode = .free) :
    deferredIn l.runLists = [] := by
  rw [← List.map_eq_nil_iff (f := Request.grant id), List.eq_nil_iff_forall_not_mem]
  intro i hi
  -- the grant that ends is in hand, and what is deferred is not
  have hne : i ≠ g := by
    rintro rfl
    exact h.not_deferred_of_source hsource hi
  -- so the deferred grant is still held after the end, when nobody holds anything
  have hmem : i ∈ stillHeld journal.issued (journal.ended ++ [g]) := by
    have := mem_stillHeld.1 (h.held_of_deferred hi)
    simpa [hne] using this
  rw [h.balanced.ended_of_freed hheld hfree] at hmem
  cases hmem

theorem ended {g : Grant} {batch : List (Request Entry)} (thread : ThreadId)
    (parent : Option Grant) (entered : List Grant) (h : Sound id ⟨l, journal, out⟩)
    (hunended : l.isUnended g.id = true) (hsource : g ∈ journal.started ∨ g ∈ out)
    (hrelease : l.release g.id g.mode = (l', batch)) :
    Sound id
      ⟨l'.deferBatch thread batch,
        drainEvents id batch l'.pending parent entered ++
          .notice (.released g l'.state l'.pending) entered :: journal, out⟩ := by
  have hheld := h.held_of_isUnended hsource hunended
  have hissued := (mem_stillHeld.1 hheld).1
  have hbalanced := h.balanced.release hheld hrelease
  have hruns : l'.runLists = l.runLists := by
    rcases Lock.release_cases hrelease with ⟨-, -, rfl⟩ | ⟨-, -, rfl⟩ <;> rfl
  have hdrain := issues_drainEvents id batch l'.pending parent entered
  -- a batch is drained only when nothing is deferred
  have hempty : batch = [] ∨ deferredIn l'.runLists = [] := by
    rcases Lock.release_cases hrelease with ⟨-, hnil, -⟩ | ⟨hfree, -, -⟩
    · exact .inl hnil
    · exact .inr (hruns ▸ h.deferredIn_of_freed hheld hsource hfree)
  have hdeferred : ((deferredIn (l'.deferBatch thread batch).runLists).map (Request.grant id)).Perm
      (deferred id ⟨l, journal, out⟩ ++ batch.map (Request.grant id)) := by
    have := (l'.deferredIn_deferBatch thread batch).map (Request.grant id)
    rwa [hruns, List.map_append] at this
  -- the batch is younger than all that was issued before
  have hsorted := hbalanced.increasing.sublist hbalanced.issued_sublist
  rw [List.pairwise_append] at hsorted
  have hyounger : ∀ i ∈ journal.issued, ∀ j ∈ batch.map (Request.grant id), i.id < j.id :=
    hsorted.2.2
  constructor
  case balanced =>
    have hbatch := l'.deferBatch_eq thread batch
    have hsame : Balanced id (l'.deferBatch thread batch) journal.accepted
        (journal.issued ++ batch.map (Request.grant id)) (journal.ended ++ [g]) :=
      hbalanced.congr (by rw [hbatch]) (by rw [hbatch])
    simpa [hdrain.accepted, hdrain.issued, hdrain.ended] using hsame
  case places =>
    -- the batch is issued onto the run list
    have hplaces := h.places
    rw [List.perm_iff_count] at hplaces hdeferred ⊢
    intro a
    have hp := hplaces a
    have hd := hdeferred a
    simp only [Journal.issued, Journal.started, Journal.handedBack, occurrences_append,
      occurrences_cons, hdrain.issued, hdrain.started, hdrain.handedBack, Event.issued?,
      Event.started?, Event.handedBack?, Option.toList_none, List.append_nil,
      List.count_append, deferred] at hp hd ⊢
    omega
  case threads => exact Lock.threads_deferBatch (hruns ▸ h.threads) thread batch
  case immediate => simpa [hdrain.immediate, hdrain.started] using h.immediate
  case pending =>
    intro i hi
    have hi' := hdeferred.mem_iff.1 hi
    simp only [Journal.ended, occurrences_append, occurrences_cons, hdrain.ended,
      Event.ended?, Option.toList_some, List.append_nil, List.mem_append,
      List.mem_singleton, not_or]
    rcases List.mem_append.1 hi' with hi' | hi'
    · refine ⟨h.pending i hi', ?_⟩
      rintro rfl
      exact h.not_deferred_of_source hsource hi'
    · -- what was just issued cannot have ended
      refine ⟨fun hended => ?_, ?_⟩
      · exact Nat.lt_irrefl _ (hyounger i (h.balanced.issued_of_ended i hended) i hi')
      · rintro rfl
        exact Nat.lt_irrefl _ (hyounger i hissued i hi')
  case sorted =>
    rcases hempty with rfl | hempty
    · simpa [deferred, Lock.deferBatch, hruns] using h.sorted
    · simp only [deferred, Lock.deferredIn_deferBatch_of_empty hempty]
      exact hsorted.2.1
  case oneThread =>
    rcases hempty with rfl | hempty
    · simpa [Lock.deferBatch, hruns] using h.oneThread
    · exact Lock.oneThread_deferBatch_of_empty hempty thread batch
  case overtaken =>
    intro i hi j hj hij
    simp only [Journal.started, Journal.immediate, occurrences_append, occurrences_cons,
      hdrain.started, hdrain.immediate, Event.started?, Event.immediate?, Option.toList_none,
      List.append_nil] at hj ⊢
    rcases List.mem_append.1 (hdeferred.mem_iff.1 hi) with hi | hi
    · exact h.overtaken i hi j hj hij
    · -- nobody who is younger than the batch has been issued, let alone started
      exact absurd hij (Nat.lt_asymm (hyounger j (h.issued_of_started hj) i hi))
  case starts =>
    refine Journal.EachStart.append ?_ hdrain.started
    exact h.starts.cons (by rintro g thread shown ⟨⟩)

theorem dropped {g : Grant} (tag : Option String) (h : Sound id ⟨l, journal, g :: out⟩) :
    Sound id ⟨l, .discarded (some g) tag :: journal, out⟩ := by
  constructor
  case balanced => simpa using h.balanced
  case places =>
    -- the grant moves from the loop to the dropped ones
    have := h.places
    rw [List.perm_iff_count] at this ⊢
    intro a
    have := this a
    simp only [Journal.issued, Journal.started, Journal.handedBack, occurrences_cons,
      Event.issued?, Event.started?, Event.handedBack?, Option.toList_some, Option.toList_none,
      List.append_nil, List.count_append, List.count_cons, List.count_nil, deferred] at this ⊢
    omega
  case threads => exact h.threads
  case immediate => simpa using h.immediate
  case pending => simpa [deferred] using h.pending
  case sorted => exact h.sorted
  case oneThread => exact h.oneThread
  case overtaken => simpa [deferred] using h.overtaken
  case starts => exact h.starts.cons (by rintro g thread shown ⟨⟩)

/-! ## All steps together -/

theorem step {k k' : Ledger} (h : Sound id k) (hs : Step id k k') : Sound id k' := by
  cases hs with
  | granted thread parent entered shown hsubmit =>
    exact h.granted thread parent entered shown hsubmit
  | queued entered hsubmit => exact h.queued entered hsubmit
  | rejected entered hsubmit =>
    obtain ⟨-, -, -, rfl⟩ := Lock.submit_rejected hsubmit
    exact h.silent [_] ⟨rfl, rfl, rfl, rfl, rfl, rfl, rfl⟩ rfl rfl rfl
  -- the report of how long the grant was held comes first, and is about no list
  | ended thread parent entered hlock hunended hsource hrelease =>
    rename_i l l' journal out g batch
    have hhold := h.silent _ (issues_holdNotice l g (g :: entered)) rfl rfl rfl
    refine hhold.ended thread parent entered hunended ?_ hrelease
    exact hsource.imp_left fun hs => mem_occurrences_of_suffix (List.suffix_append _ _) hs
  | redundant entered hlock hended =>
    exact h.silent [_] ⟨rfl, rfl, rfl, rfl, rfl, rfl, rfl⟩ rfl rfl rfl
  | failed failure entered hlock =>
    exact h.silent _ (issues_failureEvents _ _ failure entered) rfl rfl rfl
  | taken thread shown hnext => exact h.taken thread shown hnext
  | closed thread => exact h.closed thread
  | dropped tag hlock => exact h.dropped tag

end Sound

/-- Every ledger that a lock can come to have is sound. -/
theorem Reachable.sound {k : Ledger} (h : Reachable id k) : Sound id k :=
  h.induct (fun _ => Sound.of_fresh) fun _ _ => Sound.step

end Ledger

end FairLock
