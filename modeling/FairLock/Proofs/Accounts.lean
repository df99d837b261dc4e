import FairLock.Proofs.Machine.Drains

/-!
# Exact accounts

The counters of a lock are changed together with its core, in the same step, so at every moment
between two steps they agree with what has happened.  That is so inside entry points, while a fault
unwinds the stack, and after a bomb.

Two counters are not tied to the core.  What they count is said of runs: how many transitions of a
run refuse a release, and how many drain more than one request.

## Main definitions

- `Accounted`: the counters of a lock agree with its journal.
- `Machine.RefusesRelease`, `Machine.DrainsSeveral`: what the other two counters count.
- `Machine.Tally`: how many transitions of a run have a property.

## Main statements

- `Accounted.turn`, `Machine.Reachable.accounted`: a transition keeps the accounts.
- `Machine.tally_iff`: a counter that goes up with the transitions of one kind counts them.
- `exact_accounts`: all counters of a reachable machine.
-/

namespace FairLock

/-! ## The counters that are tied to the core -/

/-- A release counts the grant that it ends and the requests that it drains, and nothing else. -/
theorem Lock.stats_release {l l' : Lock Entry} {n : GrantId} {mode : Mode}
    {batch : List (Request Entry)} (h : l.release n mode = (l', batch)) :
    l'.stats.submitted = l.stats.submitted ∧ l'.stats.rejected = l.stats.rejected ∧
      l'.stats.grantedImmediately = l.stats.grantedImmediately ∧
      l'.stats.queued = l.stats.queued ∧
      l'.stats.grantedFromQueue = l.stats.grantedFromQueue + batch.length ∧
      l'.stats.released = l.stats.released + 1 := by
  rcases Lock.release_cases h with ⟨-, rfl, rfl⟩ | ⟨-, rfl, rfl⟩
  · exact ⟨rfl, rfl, rfl, rfl, rfl, rfl⟩
  -- only whether the batch is empty or has one or several members tells in the counters
  · dsimp only
    generalize batchOf l.core.queue = batch
    cases batch <;> exact ⟨rfl, rfl, rfl, rfl, rfl, rfl⟩

/-- The counters of a lock agree with its journal. -/
structure Accounted (l : Lock Entry) (j : Journal) : Prop where
  submitted : l.stats.submitted =
    l.stats.grantedImmediately + l.stats.queued + l.stats.rejected
  immediate : l.stats.grantedImmediately = j.immediate.length
  queued : l.stats.queued = j.queued.length
  issued : l.stats.granted = j.issued.length
  released : l.stats.released = j.ended.length

namespace Accounted

variable {id : LockId} {thread : ThreadId} {l l' : Lock Entry} {j j' : Journal} {g : Grant}

/-- Nothing that counts happened. -/
structure Uncounted (new : Journal) : Prop where
  immediate : new.immediate = []
  queued : new.queued = []
  issued : new.issued = []
  ended : new.ended = []

theorem uncounted_of_issues {new : Journal} (h : Ledger.Issues new []) : Uncounted new :=
  ⟨h.immediate, h.queued, h.issued, h.ended⟩

/-- Nothing was counted, and nothing happened that counts. -/
theorem silent {new : Journal} (h : Accounted l j) (hnew : Uncounted new)
    (hsubmitted : l'.stats.submitted = l.stats.submitted)
    (hrejected : l'.stats.rejected = l.stats.rejected)
    (himmediate : l'.stats.grantedImmediately = l.stats.grantedImmediately)
    (hqueued : l'.stats.queued = l.stats.queued)
    (hdrained : l'.stats.grantedFromQueue = l.stats.grantedFromQueue)
    (hreleased : l'.stats.released = l.stats.released) : Accounted l' (new ++ j) := by
  have hgranted : l'.stats.granted = l.stats.granted := by
    rw [Stats.granted, himmediate, hdrained]
    rfl
  constructor
  case submitted =>
    rw [hsubmitted, himmediate, hqueued, hrejected]
    exact h.submitted
  all_goals
    -- the other accounts compare a counter with a list, and neither has changed
    simp only [Journal.immediate, Journal.queued, Journal.issued, Journal.ended,
      occurrences_append, hnew.immediate, hnew.queued, hnew.issued, hnew.ended, List.append_nil]
  case immediate => exact himmediate.trans h.immediate
  case queued => exact hqueued.trans h.queued
  case issued => exact hgranted.trans h.issued
  case released => exact hreleased.trans h.released

/-- The end of a grant is counted, and so is every request that it drains. -/
theorem ends (h : Accounted l j) (hend : Lock.Ends id thread g l j l' j') : Accounted l' j' := by
  cases hend with
  | same => exact h
  | ended parent entered hlock hunended hrelease =>
    rename_i freed batch
    have hdrain := Ledger.issues_drainEvents id batch freed.pending parent entered
    have hreported :=
      h.silent (uncounted_of_issues (Ledger.issues_holdNotice l g (g :: entered)))
        rfl rfl rfl rfl rfl rfl
    obtain ⟨hsubmitted, hrejected, himmediate, hqueued, hfromQueue, hreleased⟩ :=
      Lock.stats_release hrelease
    -- what is recorded is the report, the end, and the drain
    have hnews : ∀ pick : Event → Option Grant,
        occurrences pick (drainEvents id batch freed.pending parent entered ++
          .notice (.released g freed.state freed.pending) entered ::
            .notice (l.holdNotice g) (g :: entered) :: j) =
          occurrences pick ([.notice (l.holdNotice g) (g :: entered)] ++ j) ++
            (occurrences pick [.notice (.released g freed.state freed.pending) entered] ++
              occurrences pick (drainEvents id batch freed.pending parent entered)) := by
      intro pick
      simp only [occurrences_append, occurrences_cons, occurrences_nil, List.nil_append,
        List.append_assoc]
    rw [Lock.deferBatch_eq]
    constructor
    case submitted =>
      rw [hsubmitted, himmediate, hqueued, hrejected]
      exact h.submitted
    all_goals
      simp only [Journal.immediate, Journal.queued, Journal.issued, Journal.ended, hnews,
        hdrain.immediate, hdrain.queued, hdrain.issued, hdrain.ended, occurrences_cons,
        occurrences_nil, Event.immediate?, Event.queued?, Event.issued?, Event.ended?,
        Option.toList_none, Option.toList_some, List.nil_append, List.append_nil]
    case immediate => exact himmediate.trans hreported.immediate
    case queued => exact hqueued.trans hreported.queued
    case issued =>
      have hgranted := hreported.issued
      unfold Stats.granted at hgranted ⊢
      rw [himmediate, hfromQueue, ← Nat.add_assoc, hgranted, List.length_append, List.length_map]
    case released =>
      rw [hreleased, hreported.released, List.length_append, List.length_singleton]

/-- A transition keeps the accounts. -/
theorem turn {may : Call → Prop} {loop : Option (LockId × Bool)} (h : Accounted l j)
    (hturn : Machine.Turn may loop id thread l j l' j') : Accounted l' j' := by
  have hsum := h.submitted
  have hgranted : l.stats.grantedImmediately + l.stats.grantedFromQueue =
      (occurrences Event.issued? j).length := h.issued
  cases hturn with
  | same => exact h
  | granted parent entered shown hsubmit =>
    obtain ⟨-, -, -, rfl⟩ := Lock.submit_granted hsubmit
    rw [Lock.dispatchOn_eq]
    constructor
    case submitted =>
      simp only [Stats.countGranted]
      omega
    case issued =>
      simp [Stats.countGranted, Stats.granted]
      omega
    case immediate => simp [Stats.countGranted, h.immediate]
    case queued => simp [Stats.countGranted, h.queued]
    case released => simp [Stats.countGranted, h.released]
  | queued entered hsubmit =>
    obtain ⟨-, -, -, -, rfl⟩ := Lock.submit_queued hsubmit
    constructor
    case submitted =>
      simp only [Stats.countQueued]
      omega
    case issued => simp [Stats.countQueued, Stats.granted, hgranted]
    case immediate => simp [Stats.countQueued, h.immediate]
    case queued => simp [Stats.countQueued, h.queued]
    case released => simp [Stats.countQueued, h.released]
  | rejected entered hsubmit =>
    obtain ⟨-, -, -, rfl⟩ := Lock.submit_rejected hsubmit
    constructor
    case submitted =>
      simp only [Stats.countRejected]
      omega
    case issued => simp [Stats.countRejected, Stats.granted, hgranted]
    case immediate => simp [Stats.countRejected, h.immediate]
    case queued => simp [Stats.countRejected, h.queued]
    case released => simp [Stats.countRejected, h.released]
  | ended hend => exact h.ends hend
  | redundant entered hlock hmay hended =>
    rename_i g
    have hsilent : Uncounted [.notice (.redundant g) entered] := ⟨rfl, rfl, rfl, rfl⟩
    exact h.silent hsilent rfl rfl rfl rfl rfl rfl
  | failed failure entered hlock =>
    exact h.silent (uncounted_of_issues (Ledger.issues_failureEvents _ _ _ _))
      rfl rfl rfl rfl rfl rfl
  | taken shown hloop hnext hend =>
    rename_i l₁ r
    -- the request was counted when it was drained, and its start counts nothing
    obtain ⟨before, deferred, after, -, -, rfl⟩ := Lock.next_cases hnext
    have hsilent : Uncounted [.started (r.grant id) thread shown] := ⟨rfl, rfl, rfl, rfl⟩
    refine ends ?_ hend
    exact h.silent hsilent rfl rfl rfl rfl rfl rfl
  | closed hloop hnext => exact ⟨h.submitted, h.immediate, h.queued, h.issued, h.released⟩
  | unwound hloop => exact ⟨h.submitted, h.immediate, h.queued, h.issued, h.released⟩
  | dropped tag hlock =>
    rename_i g
    -- an entry point was dropped, but its request and its grant are as they were
    have hsilent : Uncounted [.discarded (some g) tag] := ⟨rfl, rfl, rfl, rfl⟩
    exact h.silent hsilent rfl rfl rfl rfl rfl rfl

end Accounted

/-! ## What follows for a balanced lock -/

/-- Every issued grant has ended or is held. -/
theorem Balanced.length_issued {id : LockId} {l : Lock Entry} {accepted issued ended : List Grant}
    (h : Balanced id l accepted issued ended) :
    issued.length = ended.length + l.core.state.holders := by
  -- of the issued grants those that have ended are all the ended ones, each of them once
  have hended : (issued.filter fun g => g ∈ ended).Perm ended := by
    apply (List.perm_ext_iff_of_nodup (h.issued_nodup.filter _) h.endedOnce).2
    intro g
    simp only [List.mem_filter, decide_eq_true_eq, and_iff_right_iff_imp]
    exact h.issued_of_ended g
  have hheld : l.core.state.holders = (stillHeld issued ended).length := by
    rw [h.state.holders, List.length_map]
  -- the rest of the issued grants is what is held
  have hsplit := List.length_eq_length_filter_add (l := issued) (fun g => decide (g ∈ ended))
  rw [hheld, ← hended.length_eq, hsplit]
  simp [stillHeld]

/-- What had to wait has been granted or waits still, and what was granted has ended or is held. -/
theorem Accounted.balances {id : LockId} {l : Lock Entry} {j : Journal} (h : Accounted l j)
    (hb : Balanced id l j.accepted j.issued j.ended) :
    l.stats.queued = l.stats.grantedFromQueue + l.pending ∧
      l.stats.grantedImmediately + l.stats.grantedFromQueue =
        l.stats.released + l.state.holders := by
  -- counted as lists: the accepted ones are the immediate and the queued,
  -- or the issued and the waiting
  have haccepted := j.accepted_perm.length_eq
  have hqueue := congrArg List.length hb.queue
  rw [List.length_append] at haccepted hqueue
  rw [List.length_map] at hqueue
  have hgranted := h.issued
  unfold Stats.granted at hgranted
  have himmediate := h.immediate
  have hqueued := h.queued
  have hreleased := h.released
  have hissued := hb.length_issued
  constructor
  · show l.stats.queued = l.stats.grantedFromQueue + l.core.queue.length
    omega
  · show _ = l.stats.released + l.core.state.holders
    omega

/-! ## What the other two counters count -/

namespace Machine

variable {m m' : Machine} {g : Grant} {id : LockId}

/-- The transition releases a grant of the lock through a capability, and the answer is no. -/
def RefusesRelease (id : LockId) (m m' : Machine) : Prop :=
  ∃ g, m.Calls m' (.release g) ∧ g.lock = id ∧ (m.world.release g).2 = false

/-- The transition drains more than one request of the lock. -/
def DrainsSeveral (id : LockId) (m m' : Machine) : Prop :=
  2 ≤ (m.world.drained m'.world id).length

/-- A call for a release is answered by the release. -/
theorem Ok.release_of_calls (h : m.Ok) (hcall : m.Calls m' (.release g)) :
    g.lock < m.world.locks.length ∧
      ∃ w, m.world.Apart w ∧ m'.world = (w.release g).1.world := by
  -- only the action of a release asks for one, and its capability names a known lock
  have hperform : ∀ {w : World} {context : Context} {a : Action}, w.WellFormed →
      w.Asks context a (.release g) →
      g.lock < w.locks.length ∧ (w.perform context a).world = (w.release g).1.world := by
    intro w context a hw hasks
    cases hasks with
    | @release cap place g hl =>
      refine ⟨(World.knows_of_locate hw hl).1, ?_⟩
      simp only [World.perform, World.withCapability, hl]
      rfl
  cases hcall with
  | @step w f below reply _ hasks =>
    obtain ⟨hworld, hstack⟩ := h
    cases hasks with
    | @action context last a rest _ hasks =>
      obtain ⟨hlog, -⟩ := w.apart_logReply context last reply
      obtain ⟨hid, heq⟩ := hperform (World.logReply_ok hworld context last reply []).1 hasks
      exact ⟨hlog.locks ▸ hid, _, hlog, heq⟩
    -- the work stays with its future while it acts, and the release is that of the action
    | @work name work g' last a rest _ ha hasks =>
      obtain ⟨hlog, -⟩ := w.apart_logReply { tag := name } last reply
      obtain ⟨hid, heq⟩ := hperform (World.logReply_ok hworld _ last reply []).1 hasks
      refine ⟨hlog.locks ▸ hid, _, hlog, ?_⟩
      rw [← heq]
      cases hasks
      rfl
    -- work that is over releases the grant of its own frame
    | @worked name work _ last =>
      obtain ⟨hlog, -⟩ := w.apart_logReply { tag := name } last reply
      cases hstack with
      | frame hf hbelow => exact ⟨hf.2.1, _, hlog, rfl⟩
  | @call w control a _ hcontrol hasks =>
    obtain ⟨hid, heq⟩ := hperform h.world hasks
    exact ⟨hid, w, .refl w, heq⟩

/-- A refused release is counted. -/
theorem Ok.redundantReleases (h : m.Ok) (hrefuses : m.RefusesRelease id m') :
    (m'.world.lock id).stats.redundantReleases =
      (m.world.lock id).stats.redundantReleases + 1 := by
  obtain ⟨g, hcall, rfl, hrefused⟩ := hrefuses
  -- an answer may be logged before the release, and that ends no grant
  obtain ⟨hid, w, hapart, hworld⟩ := h.release_of_calls hcall
  have hended : w.isUnended g = false := by
    rw [hapart.isUnended]
    unfold World.release at hrefused
    split at hrefused
    · cases hrefused
    · rename_i hended
      exact Bool.eq_false_iff.2 hended
  have hcounted : (m'.world.lock g.lock) = (w.lock g.lock).countRedundant := by
    rw [hworld, World.release, hended]
    exact World.lock_setLock_self (hapart.locks ▸ hid) _
  rw [hcounted, hapart.lock]
  rfl

/-- No other transition counts one. -/
theorem Turn.redundantReleases {may : Call → Prop} {loop : Option (LockId × Bool)} {thread : ThreadId}
    {l l' : Lock Entry} {j j' : Journal} (h : Turn may loop id thread l j l' j') :
    l'.stats.redundantReleases = l.stats.redundantReleases ∨
      ∃ g, may (.release g) ∧ g.lock = id ∧ l.isUnended g.id = false := by
  cases h with
  -- nothing but a refused release touches this counter,
  -- so each case compares two records of counters
  | granted parent entered shown h =>
    obtain ⟨-, -, -, rfl⟩ := Lock.submit_granted h
    rw [Lock.stats_dispatchOn]
    exact .inl rfl
  | queued entered h =>
    obtain ⟨-, -, -, -, rfl⟩ := Lock.submit_queued h
    exact .inl rfl
  | rejected entered h =>
    obtain ⟨-, -, -, rfl⟩ := Lock.submit_rejected h
    exact .inl rfl
  | ended h =>
    obtain ⟨batch, -, -, -, -, hsame, -⟩ := h.exists_batch
    exact .inl hsame
  | redundant entered hlock hmay hended => exact .inr ⟨_, hmay, hlock, hended⟩
  | taken shown hloop h hend =>
    obtain ⟨batch, -, -, -, -, hsame, -⟩ := hend.exists_batch
    rw [Lock.stats_next h] at hsame
    exact .inl hsame
  | _ => exact .inl rfl

namespace Reachable

theorem accounted (h : m.Reachable) (id : LockId) :
    Accounted (m.world.lock id) (m.world.journal id) := by
  obtain ⟨configs, procedures, hr⟩ := h
  induction hr with
  -- what was reported before the first submission is silent, and the counters start at zero
  | refl =>
    have hfresh := (World.justCreated_initial configs procedures).fresh id
    obtain ⟨config, hlock⟩ := hfresh.lock
    obtain ⟨hissued, -, himmediate, hqueued, hended, -, -⟩ := hfresh.silent
    have hlock' : (World.initial configs procedures).lock id = { config := config } := hlock
    show Accounted ((World.initial configs procedures).lock id) _
    rw [hlock']
    exact ⟨rfl, (congrArg List.length himmediate).symm, (congrArg List.length hqueued).symm,
      (congrArg List.length hissued).symm, (congrArg List.length hended).symm⟩
  | @tail m m' hbefore hn ih =>
    have hm : m.Reachable := ⟨configs, procedures, hbefore⟩
    exact ih.turn (hm.turn hn id)

/-- A transition counts a redundant release if and only if it refuses one. -/
theorem redundantReleases_next (h : m.Reachable) (hn : Next m m') :
    (m.RefusesRelease id m' ∧ (m'.world.lock id).stats.redundantReleases =
        (m.world.lock id).stats.redundantReleases + 1) ∨
      (¬m.RefusesRelease id m' ∧ (m'.world.lock id).stats.redundantReleases =
        (m.world.lock id).stats.redundantReleases) := by
  by_cases hrefuses : m.RefusesRelease id m'
  · exact .inl ⟨hrefuses, h.exists_ledger.1.redundantReleases hrefuses⟩
  · rcases (h.turn hn id).redundantReleases with hsame | ⟨g, hcall, rfl, hended⟩
    · exact .inr ⟨hrefuses, hsame⟩
    -- had this lock been asked to release an ended grant, the transition would be one that refuses
    · apply absurd _ hrefuses
      refine ⟨g, hcall, rfl, ?_⟩
      have hunended : m.world.isUnended g = false := hended
      simp [World.release, hunended]

/-- A transition counts a batch of readers if and only if it drains more than one request. -/
theorem readBatches_next (h : m.Reachable) (hn : Next m m') :
    (m.DrainsSeveral id m' ∧ (m'.world.lock id).stats.readBatches =
        (m.world.lock id).stats.readBatches + 1) ∨
      (¬m.DrainsSeveral id m' ∧ (m'.world.lock id).stats.readBatches =
        (m.world.lock id).stats.readBatches) := by
  obtain ⟨batch, hdrained, -, -, hcounted⟩ := (h.turn hn id).exists_batch (h.balanced id)
  have hseveral : m.DrainsSeveral id m' ↔ 2 ≤ batch.length := by
    -- a batch is what was drained on this lock
    rw [DrainsSeveral, World.drained, hdrained, List.length_map]
  by_cases hmany : 2 ≤ batch.length
  · rw [if_pos hmany] at hcounted
    exact .inl ⟨hseveral.2 hmany, hcounted⟩
  · rw [if_neg hmany] at hcounted
    exact .inr ⟨mt hseveral.1 hmany, hcounted⟩

/-- More than one request is drained only if all are readers. -/
theorem mode_of_drainsSeveral (h : m.Reachable) (hn : Next m m') (hdrains : m.DrainsSeveral id m') :
    ∀ g ∈ m.world.drained m'.world id, g.mode = .read := by
  obtain ⟨batch, hdrained, -, hmodes, -⟩ := (h.turn hn id).exists_batch (h.balanced id)
  have hdrained' : m.world.drained m'.world id = batch.map (Request.grant id) := hdrained
  rw [DrainsSeveral, hdrained', List.length_map] at hdrains
  -- a batch is one writer or all readers, and one writer is not several
  have hread := hmodes.resolve_right (Nat.not_le.2 hdrains)
  rw [hdrained']
  intro g hg
  obtain ⟨r, hr, rfl⟩ := List.mem_map.1 hg
  exact hread r hr

end Reachable

/-! ## Counting along a run -/

/-- On a run from one machine to another that many transitions have the property. -/
inductive Tally (P : Machine → Machine → Prop) (start : Machine) : Machine → Nat → Prop where
  | start : Tally P start start 0
  | counted {m m' : Machine} {n : Nat} (h : Tally P start m n) (hn : Next m m') (hP : P m m') :
      Tally P start m' (n + 1)
  | passed {m m' : Machine} {n : Nat} (h : Tally P start m n) (hn : Next m m') (hP : ¬P m m') :
      Tally P start m' n

section Tally

variable {P : Machine → Machine → Prop} {start : Machine} {n : Nat}

theorem Tally.reaches (h : Tally P start m n) : Reaches start m := by
  induction h with
  | start => exact .refl
  | counted _ hn _ ih => exact ih.tail hn
  | passed _ hn _ ih => exact ih.tail hn

/-- A counter that starts at zero and goes up exactly with the transitions of one kind tells how
    many there were, on whatever run. -/
theorem tally_iff {counter : Machine → Nat} (hstart : counter start = 0)
    (hnext : ∀ m m', Reaches start m → Next m m' →
      (P m m' ∧ counter m' = counter m + 1) ∨ (¬P m m' ∧ counter m' = counter m))
    (hr : Reaches start m) : Tally P start m n ↔ n = counter m := by
  constructor
  · intro h
    -- along the tally itself: the run that it counts is the run
    induction h with
    | start => exact hstart.symm
    | counted h hn hP ih =>
      rcases hnext _ _ h.reaches hn with ⟨-, hcounted⟩ | ⟨hnot, -⟩
      · rw [hcounted, ih h.reaches]
      · exact absurd hP hnot
    | passed h hn hP ih =>
      rcases hnext _ _ h.reaches hn with ⟨hyes, -⟩ | ⟨-, hsame⟩
      · exact absurd hyes hP
      · rw [hsame, ih h.reaches]
  · rintro rfl
    -- along the run: each transition is counted or passed, as the counter says
    induction hr with
    | refl => exact hstart.symm ▸ .start
    | tail hbefore hn ih =>
      rcases hnext _ _ hbefore hn with ⟨hP, hcounted⟩ | ⟨hP, hsame⟩
      · exact hcounted.symm ▸ .counted ih hn hP
      · exact hsame.symm ▸ .passed ih hn hP

end Tally

end Machine

/-- The counters of a lock, at every moment of a run that starts with its creation.

    Every submission was granted on the spot, had to wait or was turned away; what had to wait was
    granted or still waits; and what was granted has ended or is held.

    As many releases were refused on the run as are counted as redundant, and as many drains granted
    more than one request as are counted as batches of readers.  All that such a drain grants are
    readers.

    So no more grants are counted than submissions, and their number fits a counter whenever that
    of the submissions does. -/
theorem exact_accounts {configs : List Config} {procedures : Table (List Action)} {m : Machine}
    (h : Machine.Reaches (Machine.idle (World.initial configs procedures)) m) (id : LockId) :
    (m.world.lock id).stats.submitted =
      (m.world.lock id).stats.grantedImmediately + (m.world.lock id).stats.queued +
        (m.world.lock id).stats.rejected ∧
    (m.world.lock id).stats.queued =
      (m.world.lock id).stats.grantedFromQueue + (m.world.lock id).pending ∧
    (m.world.lock id).stats.grantedImmediately + (m.world.lock id).stats.grantedFromQueue =
      (m.world.lock id).stats.released + (m.world.lock id).state.holders ∧
    (∀ n, Machine.Tally (Machine.RefusesRelease id)
        (Machine.idle (World.initial configs procedures)) m n ↔
      n = (m.world.lock id).stats.redundantReleases) ∧
    (∀ n, Machine.Tally (Machine.DrainsSeveral id)
        (Machine.idle (World.initial configs procedures)) m n ↔
      n = (m.world.lock id).stats.readBatches) ∧
    (∀ m', Machine.Next m m' → m.DrainsSeveral id m' →
      ∀ g ∈ m.world.drained m'.world id, g.mode = .read) ∧
    (m.world.lock id).stats.granted ≤ (m.world.lock id).stats.submitted ∧
    (∀ limit, (m.world.lock id).stats.submitted < limit →
      (m.world.lock id).stats.granted? limit = some (m.world.lock id).stats.granted) := by
  have hreachable : ∀ {m}, Machine.Reaches (Machine.idle (World.initial configs procedures)) m →
      m.Reachable := fun hr => ⟨configs, procedures, hr⟩
  have hfresh : ((World.initial configs procedures).lock id).stats = {} := by
    obtain ⟨config, hlock⟩ := ((World.justCreated_initial configs procedures).fresh id).lock
    exact congrArg Lock.stats hlock
  have haccounted := (hreachable h).accounted id
  have hsum := haccounted.submitted
  obtain ⟨hqueued, hgranted⟩ := haccounted.balances ((hreachable h).balanced id)
  -- what was granted at once or had to wait was submitted,
  -- and no more came out of the queue than went in
  have hle : (m.world.lock id).stats.granted ≤ (m.world.lock id).stats.submitted := by
    unfold Stats.granted
    omega
  refine ⟨hsum, hqueued, hgranted, ?redundant, ?batches, ?readers, hle, ?fits⟩
  case redundant =>
    -- the counter and the tally start together and move together
    intro n
    apply Machine.tally_iff _ _ h
    · exact congrArg Stats.redundantReleases hfresh
    · exact fun _ _ hr hn => (hreachable hr).redundantReleases_next hn
  case batches =>
    intro n
    apply Machine.tally_iff _ _ h
    · exact congrArg Stats.readBatches hfresh
    · exact fun _ _ hr hn => (hreachable hr).readBatches_next hn
  case readers => exact fun m' hn hdrains => (hreachable h).mode_of_drainsSeveral hn hdrains
  case fits =>
    intro limit hlimit
    exact if_pos (Nat.lt_of_le_of_lt hle hlimit)

/-- Two readers are drained together, and the first releases its grant twice. -/
theorem exact_accounts_writerAndReaders :
    ((writerAndReadersAfter {} [.release .own, .release .own] 12).world.lock 0).stats.queued =
      ((writerAndReadersAfter {} [.release .own, .release .own] 12).world.lock
        0).stats.grantedFromQueue ∧
    Machine.Tally (Machine.RefusesRelease 0) (Machine.idle (World.initial [{}] []))
      (writerAndReadersAfter {} [.release .own, .release .own] 12) 1 ∧
    Machine.Tally (Machine.DrainsSeveral 0) (Machine.idle (World.initial [{}] []))
      (writerAndReadersAfter {} [.release .own, .release .own] 12) 1 := by
  obtain ⟨-, hqueued, -, hrefused, hdrained, -⟩ := exact_accounts
    (Machine.reaches_iterate [{}] [] (writerAndReaders [.release .own, .release .own]) 12) 0
  exact ⟨hqueued, (hrefused 1).2 (by decide), (hdrained 1).2 (by decide)⟩

end FairLock
