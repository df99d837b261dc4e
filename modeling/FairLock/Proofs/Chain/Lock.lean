import FairLock.Proofs.Admission
import FairLock.Proofs.RunLists
import FairLock.Script.Ending
import Mathlib.Algebra.GroupWithZero.Nat
import Mathlib.Data.List.SplitBy

/-!
# A lock while a chain of entry points runs

A queue is worked off by one thread: each entry point ends its grant, the last one of a batch makes
the next batch ready, and the loop of the thread takes it from there.  Here this is followed on the
lock alone.  What an entry point does beside ending its grant only shows in the counters.

## Main definitions

- `readRuns`: the number of readers' batches into which a queue falls.
- `Plan`, `Stats.chained`: what entry points do, and what this adds to the counters.
- `Lock.handOn`, `Lock.afterEntry`: the end of a grant inside a loop, and a whole entry point.
- `Lock.Chain`: one thread works off a lock.

## Main statements

- `splitBy_bothRead`: a drain takes a maximal run of readers, or one writer.
- `Lock.Chain.afterEntry`: what one entry point does to a chain.
-/

namespace FairLock

universe u

variable {α : Type u}

/-! ## The batches of a queue -/

/-- May one request start together with the one before it? -/
def Request.bothRead (a b : Request α) : Bool := a.mode.isRead && b.mode.isRead

/-- The number of maximal runs of two or more readers. -/
def readRuns (q : List (Request α)) : Nat :=
  (q.splitBy Request.bothRead).countP fun run => decide (1 < run.length)

/-- Maximal runs of readers, and single writers: these are the batches of a queue. -/
theorem splitBy_bothRead {q : List (Request α)} (hq : q ≠ []) :
    q.splitBy Request.bothRead = batchOf q :: (restOf q).splitBy Request.bothRead := by
  have hbatch : batchOf q ≠ [] := mt batchOf_eq_nil_iff.1 hq
  have hparted : ∀ x ∈ (batchOf q).getLast?, ∀ y ∈ (restOf q).head?, x.bothRead y = false := by
    intro x hx y hy
    have hblocked := blocked_after_drain q y hy
    have hcounts := counts_stateOf_batchOf q
    have hmem : x.mode ∈ (batchOf q).map (·.mode) := List.mem_map_of_mem (List.mem_of_getLast? hx)
    -- what is held in front of it does not let the next request in
    obtain ⟨m, hm, hconflict⟩ := hcounts.exists_conflict hblocked
    obtain ⟨r, hr, rfl⟩ := List.mem_map.1 hm
    rcases batchOf_cases q with hreads | ⟨first, hone, hwrite⟩
    · have hy' : y.mode = .write := by
        cases hm : y.mode with
        | write => rfl
        | read => simp [Mode.conflicts, hreads r hr, hm] at hconflict
      simp [Request.bothRead, hy']
    · have hx' : x = first := by simpa [hone, eq_comm] using hx
      simp [Request.bothRead, hx', hwrite]
  have hchain : (batchOf q).IsChain fun x y => x.bothRead y := by
    rcases batchOf_cases q with hreads | ⟨first, hone, -⟩
    · refine List.Pairwise.isChain (List.pairwise_of_forall_mem_list ?_)
      intro x hx y hy
      simp [Request.bothRead, hreads x hx, hreads y hy]
    · rw [hone]
      exact .singleton _
  calc q.splitBy Request.bothRead
      = (batchOf q ++ restOf q).splitBy Request.bothRead := by rw [batchOf_append_rest]
    _ = (batchOf q).splitBy Request.bothRead ++ (restOf q).splitBy Request.bothRead :=
        List.splitBy_append hparted
    _ = batchOf q :: (restOf q).splitBy Request.bothRead := by
        rw [List.splitBy_of_isChain hbatch hchain, List.singleton_append]

@[simp] theorem readRuns_nil : readRuns ([] : List (Request α)) = 0 := rfl

theorem readRuns_of_ne_nil {q : List (Request α)} (hq : q ≠ []) :
    readRuns q = readRuns (restOf q) + if 1 < (batchOf q).length then 1 else 0 := by
  rw [readRuns, splitBy_bothRead hq, List.countP_cons]
  simp [readRuns]

/-- A batch of two or more consists of readers. -/
theorem startsWithRead_of_lt {q : List (Request α)} (h : 1 < (batchOf q).length) :
    Lock.startsWithRead (batchOf q) = true := by
  rcases batchOf_cases q with hreads | ⟨first, hone, -⟩
  · cases hb : batchOf q with
    | nil => simp [hb] at h
    | cons front rest =>
      have hfront := hreads front (by simp [hb])
      simp [Lock.startsWithRead, hfront]
  · simp [hone] at h

/-- What is left when the first of the counted grants ends. -/
theorem State.Counts.released_head {s : State} {mode : Mode} {modes : List Mode}
    (h : s.Counts (mode :: modes)) : (s.released mode).Counts modes := by
  have hmap : (mode :: modes).map id = mode :: modes := List.map_id _
  rw [← hmap] at h
  simpa using h.released List.mem_cons_self

/-! ## Counters -/

/-- An entry point that does nothing but release its own capability a number of times.  After that
    it succeeds, or fails with a fault. -/
structure Plan where
  releases : Nat
  fault : Option Fault

namespace Stats

/-- What an entry point adds to the counters beside the end of its grant. -/
def afterPlan (s : Stats) (p : Plan) : Stats :=
  { s with
    redundantReleases := s.redundantReleases + (p.releases - 1)
    entryFailures := s.entryFailures + if p.fault.isSome then 1 else 0 }

/-- What entry points add to the counters that follow some plans one after the other, if the end of
    their grants drains a queue. -/
def chained (s : Stats) (plans : List Plan) (q : List (Request α)) : Stats :=
  { s with
    released := s.released + plans.length
    grantedFromQueue := s.grantedFromQueue + q.length
    entryFailures := s.entryFailures + plans.countP (·.fault.isSome)
    redundantReleases := s.redundantReleases + (plans.map (·.releases - 1)).sum
    readBatches := s.readBatches + readRuns q }

variable {s : Stats} {p : Plan} {plans : List Plan} {q : List (Request α)}

theorem chained_nil : s.chained [] ([] : List (Request α)) = s := rfl

theorem chained_afterPlan : (s.afterPlan p).chained plans q = (s.chained plans q).afterPlan p := by
  simp only [chained, afterPlan]
  congr 1 <;> omega

/-- The first entry point ends a grant. -/
theorem chained_cons :
    (s.countReleased.afterPlan p).chained plans q = s.chained (p :: plans) q := by
  simp only [chained, afterPlan, countReleased, List.length_cons, List.countP_cons, List.map_cons,
    List.sum_cons]
  congr 1 <;> omega

/-- The first entry point ends the last grant of its batch. -/
theorem chained_drain (hq : q ≠ []) :
    (s.countDrain (batchOf q).length (Lock.startsWithRead (batchOf q))).chained plans (restOf q) =
      s.chained plans q := by
  have hlength : (batchOf q).length + (restOf q).length = q.length := by
    rw [← List.length_append, batchOf_append_rest]
  have hruns := readRuns_of_ne_nil hq
  -- only a batch of several counts as a batch of readers, and such a batch begins with a reader
  by_cases hlong : 1 < (batchOf q).length
  · simp only [hlong, if_true] at hruns
    simp only [chained, countDrain, startsWithRead_of_lt hlong, hlong, decide_true, Bool.and_self,
      if_true]
    congr 1 <;> omega
  · simp only [hlong, if_false] at hruns
    simp only [chained, countDrain, hlong, decide_false, Bool.and_false, Bool.false_eq_true,
      if_false]
    congr 1 <;> omega

end Stats

/-! ## The end of a grant -/

namespace Lock

/-- The end of a grant inside a loop: the batch that becomes ready joins the run list. -/
def handOn (l : Lock α) (thread : ThreadId) (id : GrantId) (mode : Mode) : Lock α :=
  (l.release id mode).1.deferBatch thread (l.release id mode).2

/-- A number of redundant releases. -/
def afterRedundant (l : Lock α) (n : Nat) : Lock α :=
  { l with stats := { l.stats with redundantReleases := l.stats.redundantReleases + n } }

theorem afterRedundant_countRedundant (l : Lock α) (n : Nat) :
    l.countRedundant.afterRedundant n = l.afterRedundant (n + 1) := by
  simp [afterRedundant, countRedundant, Stats.countRedundant, Nat.add_assoc, Nat.add_comm 1 n]

/-- The end of a grant that may have ended before. -/
def afterEnd (l : Lock α) (thread : ThreadId) (id : GrantId) (mode : Mode) : Lock α :=
  if l.isUnended id then l.handOn thread id mode else l

/-- A failure that may have happened. -/
def afterFault (l : Lock α) (fault : Option Fault) : Lock α :=
  if fault.isSome then l.countFailure else l

/-- An entry point that is taken off a run list follows a plan: its grant ends. -/
def afterEntry (l : Lock α) (thread : ThreadId) (r : Request α) (p : Plan) : Lock α :=
  { l.handOn thread r.id r.mode with
    stats := (l.handOn thread r.id r.mode).stats.afterPlan p }

/-- The lock after its only grant has ended: the batch at the front of the queue is granted. -/
def freed (l : Lock α) : Lock α :=
  { l with
    core := { l.core with state := stateOf (batchOf l.core.queue), queue := restOf l.core.queue }
    stats :=
      if l.core.queue = [] then l.stats.countReleased
      else l.stats.countReleased.countDrain (batchOf l.core.queue).length
        (startsWithRead (batchOf l.core.queue))
    unended := (batchOf l.core.queue).map fun r => (r.id, r.mode) }

/-- A batch joins the only run list of its own thread. -/
theorem deferBatch_single {l : Lock α} {thread : ThreadId} {ds : List (Request α)}
    (h : l.runLists = [⟨thread, ds⟩]) (batch : List (Request α)) :
    l.deferBatch thread batch = { l with runLists := [⟨thread, ds ++ batch⟩] } := by
  cases batch with
  | nil => simp [deferBatch, ← h]
  | cons front rest => simp [deferBatch, schedule, isDispatching, deferTo, h]

/-- A batch opens a run list where there is none. -/
theorem deferBatch_opens {l : Lock α} (h : l.runLists = []) (thread : ThreadId)
    {batch : List (Request α)} (hbatch : batch ≠ []) :
    l.deferBatch thread batch = { l with runLists := [⟨thread, batch⟩] } := by
  cases batch with
  | nil => exact absurd rfl hbatch
  | cons front rest => simp [deferBatch, schedule, isDispatching, openRunList, h]

/-- The releases of an entry point: the first one ends its grant, the others are redundant. -/
def afterReleases (l : Lock α) (thread : ThreadId) (id : GrantId) (mode : Mode) : Nat → Lock α
  | 0 => l
  | n + 1 => (l.handOn thread id mode).afterRedundant n

/-- A thread that is at work on the lock stays so. -/
theorem isDispatching_handOn {l : Lock α} {thread : ThreadId} (h : l.isDispatching thread = true)
    (id : GrantId) (mode : Mode) : (l.handOn thread id mode).isDispatching thread = true := by
  unfold handOn
  cases (l.release id mode).2 with
  | nil => exact h
  | cons front rest => exact isDispatching_schedule _ _ _

theorem isDispatching_afterReleases {l : Lock α} {thread : ThreadId}
    (h : l.isDispatching thread = true) (id : GrantId) (mode : Mode) (n : Nat) :
    (l.afterReleases thread id mode n).isDispatching thread = true := by
  cases n with
  | zero => exact h
  | succ n => exact isDispatching_handOn h id mode

/-- Wherever an entry point ends its grant, by a release or at its end, it does the same. -/
theorem afterEntry_eq {l : Lock α} {thread : ThreadId} {r : Request α} (p : Plan)
    (hunended : l.isUnended r.id = true)
    (hended : (l.handOn thread r.id r.mode).isUnended r.id = false) :
    (((l.afterReleases thread r.id r.mode p.releases).afterEnd thread r.id r.mode).afterFault
      p.fault) = l.afterEntry thread r p := by
  obtain ⟨n, fault⟩ := p
  -- without an explicit release the grant ends with the entry point; with one, at the first of them
  cases n with
  | zero =>
    simp only [afterReleases, afterEnd, hunended, if_true]
    cases fault <;> rfl
  | succ n =>
    have hended' : ((l.handOn thread r.id r.mode).afterRedundant n).isUnended r.id = false := hended
    simp only [afterReleases, afterEnd, hended', Bool.false_eq_true, if_false]
    cases fault <;> rfl

/-- After the releases and the end of an entry point its grant has ended. -/
theorem not_isUnended_afterEnd {l : Lock α} {thread : ThreadId} {r : Request α} (n : Nat)
    (hunended : l.isUnended r.id = true)
    (hended : (l.handOn thread r.id r.mode).isUnended r.id = false) :
    ((l.afterReleases thread r.id r.mode n).afterEnd thread r.id r.mode).isUnended r.id =
      false := by
  -- the same two ways, and in both the grant is ended by then
  cases n with
  | zero =>
    simp only [afterReleases, afterEnd, hunended, if_true]
    exact hended
  | succ n =>
    have hended' : ((l.handOn thread r.id r.mode).afterRedundant n).isUnended r.id = false := hended
    simp only [afterReleases, afterEnd, hended', Bool.false_eq_true, if_false]

section Release

variable {l : Lock α} {id : GrantId} {mode : Mode} {modes : List Mode}

/-- One grant of several ends. -/
theorem release_one (id : GrantId) (hstate : l.core.state.Counts (mode :: modes))
    (hmodes : modes ≠ []) :
    l.release id mode =
      ({ l with
          core := { l.core with state := l.core.state.released mode }
          stats := l.stats.countReleased
          unended := l.unended.filter fun g => g.1 != id }, []) := by
  -- with another grant held the state is not free after the release, so nothing is drained
  have hbusy : l.core.state.released mode ≠ .free :=
    mt hstate.released_head.eq_free_iff.1 hmodes
  cases hrelease : l.release id mode with
  | mk l' batch =>
    rcases release_cases hrelease with ⟨-, rfl, rfl⟩ | ⟨hfree, -, -⟩
    · rfl
    · exact absurd hfree hbusy

/-- The end of the only grant makes the lock free, and a batch ready. -/
theorem release_only (hunended : l.unended = [(id, mode)]) (hstate : l.core.state.Counts [mode]) :
    l.release id mode = (l.freed, batchOf l.core.queue) := by
  have hfree : l.core.state.released mode = .free := hstate.released_head.eq_free_iff.2 rfl
  cases hrelease : l.release id mode with
  | mk l' batch =>
    rcases release_cases hrelease with ⟨hbusy, -, -⟩ | ⟨-, rfl, rfl⟩
    · exact absurd hfree hbusy
    · simp [freed, hunended, batchOf_eq_nil_iff]

end Release

/-! ## Chains -/

/-- One thread works off the lock: what it has deferred is held, and other requests wait for it. -/
structure Chain (l : Lock α) (thread : ThreadId) (deferred waiting : List (Request α)) : Prop where
  runs : l.runLists = [⟨thread, deferred⟩]
  queue : l.core.queue = waiting
  unended : l.unended = deferred.map fun r => (r.id, r.mode)
  state : l.core.state.Counts (deferred.map (·.mode))
  ids : ((deferred ++ waiting).map (·.id)).Nodup
  /-- Nobody waits for nothing. -/
  moving : deferred = [] → waiting = []

/-- What a lock grants when it is freed is what a thread works off next. -/
theorem chain_freed (l : Lock α) (thread : ThreadId) (hids : (l.core.queue.map (·.id)).Nodup) :
    ({ l.freed with runLists := [⟨thread, batchOf l.core.queue⟩] } : Lock α).Chain thread
      (batchOf l.core.queue) (restOf l.core.queue) where
  runs := rfl
  queue := rfl
  unended := rfl
  state := counts_stateOf_batchOf l.core.queue
  -- the numbers of the queue differ, and the batch with the rest is the queue
  ids := by
    rw [batchOf_append_rest]
    exact hids
  moving h := by
    rw [batchOf_eq_nil_iff.1 h]
    rfl

theorem chained_freed (l : Lock α) (plans : List Plan) :
    l.freed.stats.chained plans (restOf l.core.queue) =
      l.stats.countReleased.chained plans l.core.queue := by
  unfold freed
  by_cases hq : l.core.queue = []
  · simp [hq, restOf]
  · simp only [hq, if_false]
    exact Stats.chained_drain hq

/-- The end of the only grant begins a chain, if no thread is at work on the lock yet. -/
theorem handOn_opens {l : Lock α} (thread : ThreadId) {id : GrantId} {mode : Mode}
    (hruns : l.runLists = []) (hunended : l.unended = [(id, mode)])
    (hstate : l.core.state.Counts [mode]) (hq : l.core.queue ≠ []) :
    l.handOn thread id mode =
      { l.freed with runLists := [⟨thread, batchOf l.core.queue⟩] } := by
  unfold handOn
  rw [release_only hunended hstate]
  exact deferBatch_opens (l := l.freed) hruns thread (mt batchOf_eq_nil_iff.1 hq)

/-- The lock once nothing is held, nobody waits, and no thread is at work. -/
def settled (l : Lock α) (stats : Stats) : Lock α :=
  { l with
    core := { l.core with state := .free, queue := [] }
    stats := stats
    unended := []
    runLists := [] }

theorem settled_congr {l l' : Lock α} (hconfig : l'.config = l.config)
    (hnext : l'.core.nextId = l.core.nextId) (stats : Stats) :
    l'.settled stats = l.settled stats := by
  simp [settled, hconfig, hnext]

/-- A queue nobody waits in is not drained. -/
theorem freed_of_queue_nil {l : Lock α} (hq : l.core.queue = []) (hruns : l.runLists = []) :
    l.freed = l.settled l.stats.countReleased := by
  simp [freed, settled, hq, hruns, batchOf, restOf, stateOf]

namespace Chain

variable {l : Lock α} {thread : ThreadId} {r : Request α} {ds q : List (Request α)}

/-- The thread takes the first of its deferred requests. -/
theorem next (h : l.Chain thread (r :: ds) q) :
    l.next thread = some (r, { l with runLists := [⟨thread, ds⟩] }) := by
  simp [Lock.next, takeFrom, h.runs]

/-- At the end the thread has nothing more to do, and gives up its run list. -/
theorem next_nil (h : l.Chain thread [] q) :
    l.next thread = none ∧ (l.close thread).1 = l.settled l.stats := by
  have hstate : l.core.state = .free := h.state.eq_free_iff.2 rfl
  have hqueue : l.core.queue = [] := h.queue.trans (h.moving rfl)
  have hunended : l.unended = [] := h.unended
  refine ⟨by simp [Lock.next, takeFrom, h.runs], ?_⟩
  simp [close, settled, h.runs, ← hstate, ← hqueue, ← hunended]

/-- The request that was taken is held until its grant ends. -/
theorem isUnended (h : l.Chain thread (r :: ds) q) : l.isUnended r.id = true := by
  simp [Lock.isUnended, h.unended]

/-- Who is not deferred is not held. -/
theorem not_isUnended (h : l.Chain thread ds q) {id : GrantId}
    (hid : id ∉ (ds ++ q).map (·.id)) : l.isUnended id = false := by
  rw [Bool.eq_false_iff]
  intro hunended
  simp only [Lock.isUnended, h.unended, List.any_map, List.any_eq_true, Function.comp_apply,
    beq_iff_eq] at hunended
  obtain ⟨x, hx, rfl⟩ := hunended
  exact hid (List.mem_map_of_mem (List.mem_append_left _ hx))

/-- The entry point of the request that was taken hands on, inside the loop.  Either others of its
    batch are still to come, or the next batch becomes ready. -/
theorem handOn (h : l.Chain thread (r :: ds) q) :
    ∃ ds' q' l', Lock.handOn { l with runLists := [⟨thread, ds⟩] } thread r.id r.mode = l' ∧
      l'.Chain thread ds' q' ∧ ds' ++ q' = ds ++ q ∧ l'.config = l.config ∧
      l'.core.nextId = l.core.nextId ∧
      ∀ plans : List Plan,
        l'.stats.chained plans q' = l.stats.countReleased.chained plans q := by
  obtain ⟨hruns, rfl, hunended, hstate, hids, -⟩ := h
  rw [List.cons_append, List.map_cons, List.nodup_cons] at hids
  obtain ⟨hnew, hids⟩ := hids
  -- on the rest of the run list depends whether other grants are held
  cases ds with
  | cons d rest =>
    refine ⟨d :: rest, l.core.queue, _, rfl, ?_⟩
    have hone := release_one (l := { l with runLists := [⟨thread, d :: rest⟩] }) r.id hstate
      (by simp)
    -- the lock forgets this grant only: the others on its list have other numbers
    have hfilter : (l.unended.filter fun g => g.1 != r.id) =
        (d :: rest).map fun r => (r.id, r.mode) := by
      rw [hunended, List.map_cons, List.filter_cons_of_neg (by simp), List.filter_eq_self]
      intro g hg
      obtain ⟨x, hx, rfl⟩ := List.mem_map.1 hg
      have hne : x.id ≠ r.id := by
        intro heq
        exact hnew (heq ▸ List.mem_map_of_mem (List.mem_append_left _ hx))
      simpa using hne
    unfold Lock.handOn
    rw [hone]
    exact ⟨⟨rfl, rfl, hfilter, hstate.released_head, hids, by simp⟩, rfl, rfl, rfl, fun _ => rfl⟩
  | nil =>
    -- the last of its batch: the release frees the lock, and the drain goes on to this run list
    have honly := release_only (l := { l with runLists := [⟨thread, []⟩] }) hunended hstate
    refine ⟨batchOf l.core.queue, restOf l.core.queue, _, rfl, ?_⟩
    unfold Lock.handOn
    rw [honly]
    dsimp only
    have hruns : ({ l with runLists := [⟨thread, []⟩] } : Lock α).freed.runLists =
        [⟨thread, []⟩] := rfl
    rw [deferBatch_single hruns]
    exact ⟨chain_freed l thread hids, batchOf_append_rest _, rfl, rfl, chained_freed l⟩

/-- What an entry point does that was taken off the run list and follows a plan.  What is still to
    come, now or later, is the same as before. -/
theorem afterEntry (h : l.Chain thread (r :: ds) q) (p : Plan) :
    ∃ ds' q' l', Lock.afterEntry { l with runLists := [⟨thread, ds⟩] } thread r p = l' ∧
      l'.Chain thread ds' q' ∧ ds' ++ q' = ds ++ q ∧ l'.config = l.config ∧
      l'.core.nextId = l.core.nextId ∧
      ∀ plans : List Plan, l'.stats.chained plans q' = l.stats.chained (p :: plans) q := by
  obtain ⟨ds', q', l', hl', hchain, hall, hconfig, hnext, hstats⟩ := h.handOn
  refine ⟨ds', q', { l' with stats := l'.stats.afterPlan p }, ?_, ?_, hall, hconfig, hnext, ?_⟩
  · rw [Lock.afterEntry, hl']
  · exact ⟨hchain.runs, hchain.queue, hchain.unended, hchain.state, hchain.ids, hchain.moving⟩
  · intro plans
    rw [Stats.chained_afterPlan, hstats plans, ← Stats.chained_afterPlan, Stats.chained_cons]

/-- The grant of an entry point does not end twice. -/
theorem not_isUnended_handOn (h : l.Chain thread (r :: ds) q) :
    (Lock.handOn { l with runLists := [⟨thread, ds⟩] } thread r.id r.mode).isUnended r.id =
      false := by
  -- what the lock remembers afterwards is the new batch,
  -- which is part of what came after this request
  obtain ⟨ds', q', l', hl', hchain, hall, -⟩ := h.handOn
  rw [hl']
  refine hchain.not_isUnended ?_
  rw [hall]
  exact (List.nodup_cons.1 h.ids).1

end Chain

end Lock

end FairLock
