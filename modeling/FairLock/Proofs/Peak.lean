import FairLock.Proofs.Accounts
import Mathlib.Order.Bounds.Basic

/-!
# How long a queue gets

A queue grows only by a submission that has to wait, and by one request at a time; the bound is
looked at just before.  Everything else leaves the queue alone or shortens it.  So it is enough that
the largest length is recorded when a request joins: it is then the largest length at any moment.

## Main definitions

- `Machine.Visits`: a run, with all machines that it goes through.

## Main statements

- `Machine.Turn.pending_cases`: what a transition does to a queue and to the recorded peak.
- `peak_is_longest_queue`: the peak of a run, and the bound on it.
-/

namespace FairLock

/-! ## One transition -/

namespace Lock

variable {id : LockId} {thread : ThreadId} {g : Grant} {l l' : Lock Entry} {j j' : Journal}

/-- The end of a grant takes requests from the queue at most. -/
theorem Ends.pending_le (h : Ends id thread g l j l' j') :
    l'.pending ≤ l.pending ∧ l'.stats.peakPending = l.stats.peakPending := by
  cases h with
  | same => exact ⟨Nat.le_refl _, rfl⟩
  | ended parent entered hlock hunended hrelease =>
    rw [deferBatch_eq]
    -- a release frees the lock and drains, or it leaves the queue as it is
    rcases release_cases hrelease with ⟨-, rfl, rfl⟩ | ⟨-, rfl, rfl⟩
    · exact ⟨Nat.le_refl _, rfl⟩
    · refine ⟨?_, ?_⟩
      · have hlength := congrArg List.length (batchOf_append_rest l.core.queue)
        rw [List.length_append] at hlength
        exact Nat.le.intro ((Nat.add_comm _ _).trans hlength)
      · dsimp only
        split <;> rfl

end Lock

namespace Machine

variable {may : Call → Prop} {loop : Option (LockId × Bool)} {id : LockId} {thread : ThreadId}
  {l l' : Lock Entry} {j j' : Journal} {m m' : Machine}

/-- A transition lets no request join the queue, and the peak stays; or it lets one join that finds
    room, and the new length is measured against the peak. -/
theorem Turn.pending_cases (h : Turn may loop id thread l j l' j') :
    (l'.pending ≤ l.pending ∧ l'.stats.peakPending = l.stats.peakPending ∧
        j'.queued = j.queued) ∨
      (l'.pending = l.pending + 1 ∧ l.config.reachedLimit l.pending = none ∧
        l'.stats.peakPending = max l.stats.peakPending l'.pending) := by
  -- whatever ends a grant on the way makes the queue shorter or leaves it alone
  have hends : ∀ {g : Grant} {l₁ : Lock Entry} (new : Journal), new.queued = [] →
      Lock.Ends id thread g l₁ (new ++ j) l' j' →
      l'.pending ≤ l₁.pending ∧ l'.stats.peakPending = l₁.stats.peakPending ∧
        j'.queued = j.queued := by
    intro g l₁ new hnew hend
    obtain ⟨hpending, hpeak⟩ := hend.pending_le
    obtain ⟨more, rfl, -, -, hqueued, -, -⟩ := hend.exists_new
    exact ⟨hpending, hpeak, by simp [hnew, hqueued]⟩
  cases h with
  | granted parent entered shown hsubmit =>
    obtain ⟨-, -, -, rfl⟩ := Lock.submit_granted hsubmit
    rw [Lock.dispatchOn_eq]
    exact .inl ⟨Nat.le_refl _, rfl, by simp⟩
  -- only here the queue grows, by one, and within its bound
  | queued entered hsubmit =>
    obtain ⟨-, hroom, -, -, rfl⟩ := Lock.submit_queued hsubmit
    have hlength : ∀ r : Request Entry, (l.core.queue ++ [r]).length = l.core.queue.length + 1 :=
      fun r => by simp
    refine .inr ⟨hlength _, hroom, ?_⟩
    exact congrArg (max l.stats.peakPending) (hlength _).symm
  | rejected entered hsubmit =>
    obtain ⟨-, -, -, rfl⟩ := Lock.submit_rejected hsubmit
    exact .inl ⟨Nat.le_refl _, rfl, by simp⟩
  | ended hend =>
    exact .inl (hends [] rfl hend)
  | failed failure entered hlock =>
    rename_i g
    have hqueued := (Ledger.issues_failureEvents l g failure entered).queued
    exact .inl ⟨Nat.le_refl _, rfl, by simp [hqueued]⟩
  | taken shown hloop hnext hend =>
    obtain ⟨before, deferred, after, -, -, rfl⟩ := Lock.next_cases hnext
    have hkept := hends [_] (by simp) hend
    exact .inl hkept
  | same => exact .inl ⟨Nat.le_refl _, rfl, rfl⟩
  | redundant entered hlock hmay hended => exact .inl ⟨Nat.le_refl _, rfl, by simp⟩
  | closed hloop hnext => exact .inl ⟨Nat.le_refl _, rfl, rfl⟩
  | unwound hloop => exact .inl ⟨Nat.le_refl _, rfl, rfl⟩
  | dropped tag hlock => exact .inl ⟨Nat.le_refl _, rfl, by simp⟩

/-! ## Runs -/

/-- A run from one machine to another, with the machines that it goes through, the latest first. -/
inductive Visits (start : Machine) : List Machine → Machine → Prop where
  | start : Visits start [start] start
  | next {visited : List Machine} {m m' : Machine} (h : Visits start visited m) (hn : Next m m') :
      Visits start (m' :: visited) m'

variable {start : Machine} {visited : List Machine}

/-- Whatever a run goes through can be reached. -/
theorem Visits.reaches_of_mem (h : Visits start visited m) :
    m ∈ visited ∧ ∀ x ∈ visited, Reaches start x := by
  induction h with
  | start => exact ⟨by simp, fun x hx => List.mem_singleton.1 hx ▸ .refl⟩
  | next _ hn ih =>
    obtain ⟨hlast, hall⟩ := ih
    exact ⟨List.mem_cons_self, List.forall_mem_cons.2 ⟨(hall _ hlast).tail hn, hall⟩⟩

/-- And whatever can be reached is reached by a run. -/
theorem exists_visits_iff : (∃ visited, Visits start visited m) ↔ Reaches start m := by
  constructor
  · rintro ⟨visited, h⟩
    exact h.reaches_of_mem.2 m h.reaches_of_mem.1
  · intro h
    induction h with
    | refl => exact ⟨_, .start⟩
    | tail _ hn ih =>
      obtain ⟨visited, hvisited⟩ := ih
      exact ⟨_, hvisited.next hn⟩

/-- The peak is the largest length of the queue on the run. -/
theorem Visits.isGreatest_peakPending (h : Visits start visited m) (id : LockId)
    (hstart : start.Reachable)
    (hfresh : (start.world.lock id).stats.peakPending = (start.world.lock id).pending) :
    IsGreatest {n | ∃ x ∈ visited, (x.world.lock id).pending = n}
      (m.world.lock id).stats.peakPending := by
  induction h with
  | start =>
    refine ⟨⟨start, by simp, hfresh.symm⟩, ?_⟩
    rintro n ⟨x, hx, rfl⟩
    obtain rfl := List.mem_singleton.1 hx
    exact hfresh.ge
  | @next visited m m' hvisited hn ih =>
    obtain ⟨⟨x, hx, hxlength⟩, hupper⟩ := ih
    obtain ⟨hlast, hall⟩ := hvisited.reaches_of_mem
    have hturn := (hstart.reaches (hall m hlast)).turn hn id
    -- what was the largest length before is so still, or the new length is
    have hmax : (m'.world.lock id).stats.peakPending =
        max (m.world.lock id).stats.peakPending (m'.world.lock id).pending := by
      rcases hturn.pending_cases with ⟨hle, hpeak, -⟩ | ⟨-, -, hpeak⟩
      · have hbefore : (m.world.lock id).pending ≤ (m.world.lock id).stats.peakPending :=
          hupper ⟨m, hlast, rfl⟩
        rw [hpeak, Nat.max_eq_left (hle.trans hbefore)]
      · exact hpeak
    rw [hmax]
    constructor
    · rcases Nat.le_total (m'.world.lock id).pending (m.world.lock id).stats.peakPending with
        hle | hle
      · exact ⟨x, List.mem_cons_of_mem _ hx, hxlength.trans (Nat.max_eq_left hle).symm⟩
      · exact ⟨m', List.mem_cons_self, (Nat.max_eq_right hle).symm⟩
    · rintro n ⟨y, hy, rfl⟩
      rcases List.mem_cons.1 hy with rfl | hy
      · exact Nat.le_max_right _ _
      · exact (hupper ⟨y, hy, rfl⟩).trans (Nat.le_max_left _ _)

/-- The queue of a lock keeps the bound among the settings of the lock. -/
theorem pending_le_of_reaches (h : Reaches start m) (hstart : start.Reachable)
    (hfresh : (start.world.lock id).pending = 0 ∧ (start.world.journal id).queued = [])
    {limit : Nat} (hlimit : (start.world.lock id).config.maxPending = some limit) :
    (m.world.lock id).pending ≤ limit ∧ (limit = 0 → (m.world.journal id).queued = []) := by
  induction h with
  | refl => exact ⟨hfresh.1 ▸ Nat.zero_le _, fun _ => hfresh.2⟩
  | tail hbefore hn ih =>
    obtain ⟨hle, hqueued⟩ := ih
    rcases ((hstart.reaches hbefore).turn hn id).pending_cases with
      ⟨hshorter, -, hsame⟩ | ⟨hlonger, hroom, -⟩
    · exact ⟨hshorter.trans hle, fun hzero => hsame.trans (hqueued hzero)⟩
    · -- there was room for one more, so the bound is not zero
      have hbelow := Config.reachedLimit_eq_none_iff.1 hroom limit
        (hstart.config_eq hbefore id ▸ hlimit)
      exact ⟨hlonger ▸ hbelow, fun hzero => absurd hbelow (by omega)⟩

end Machine

/-- At every moment of a run the recorded peak of a lock is the largest length that its queue has
    had on the run.  If the lock was created with a bound, neither the queue nor the peak has ever
    exceeded it, and if that is zero, no request has ever been queued. -/
theorem peak_is_longest_queue {configs : List Config} {procedures : Table (List Action)}
    {visited : List Machine} {m : Machine}
    (h : Machine.Visits (Machine.idle (World.initial configs procedures)) visited m)
    (id : LockId) :
    IsGreatest {n | ∃ x ∈ visited, (x.world.lock id).pending = n}
        (m.world.lock id).stats.peakPending ∧
      ∀ limit, ((World.initial configs procedures).lock id).config.maxPending = some limit →
        (∀ x ∈ visited, (x.world.lock id).pending ≤ limit) ∧
          (m.world.lock id).stats.peakPending ≤ limit ∧
          (limit = 0 → (m.world.journal id).queued = [] ∧ (m.world.lock id).stats.queued = 0) := by
  have hreachable : (Machine.idle (World.initial configs procedures)).Reachable :=
    ⟨configs, procedures, .refl⟩
  have hfresh := (World.justCreated_initial configs procedures).fresh id
  obtain ⟨config, hlock⟩ := hfresh.lock
  have hempty : ((World.initial configs procedures).lock id).pending = 0 :=
    congrArg Lock.pending hlock
  have hzero : ((World.initial configs procedures).lock id).stats.peakPending = 0 :=
    congrArg (fun l => l.stats.peakPending) hlock
  obtain ⟨hlast, hall⟩ := h.reaches_of_mem
  have hpeak := h.isGreatest_peakPending id hreachable (hzero.trans hempty.symm)
  refine ⟨hpeak, fun limit hlimit => ?_⟩
  have hbound : ∀ x ∈ visited, (x.world.lock id).pending ≤ limit ∧
      (limit = 0 → (x.world.journal id).queued = []) := fun x hx =>
    Machine.pending_le_of_reaches (hall x hx) hreachable ⟨hempty, hfresh.silent.queued⟩ hlimit
  refine ⟨fun x hx => (hbound x hx).1, ?_, fun hnone => ?_⟩
  · -- the peak was the length of the queue at some moment
    obtain ⟨x, hx, hlength⟩ := hpeak.1
    exact hlength ▸ (hbound x hx).1
  · have hqueued := (hbound m hlast).2 hnone
    refine ⟨hqueued, ?_⟩
    rw [((hreachable.reaches (hall m hlast)).accounted id).queued, hqueued, List.length_nil]

/-- Two readers have waited behind the writer, as many as may.  Now that both have been drained, the
    peak is still two. -/
theorem peak_is_longest_queue_writerAndReaders :
    ((writerAndReadersAfter { maxPending := some 2 } [] 6).world.lock 0).pending = 0 ∧
      ∃ visited : List Machine, IsGreatest {n | ∃ x ∈ visited, (x.world.lock 0).pending = n} 2 ∧
        ∀ x ∈ visited, (x.world.lock 0).pending ≤ 2 := by
  -- some run leads there; which machines it visits does not matter
  obtain ⟨visited, hvisited⟩ := Machine.exists_visits_iff.2
    (Machine.reaches_iterate [{ maxPending := some 2 }] [] (writerAndReaders []) 6)
  obtain ⟨hpeak, hbound⟩ := peak_is_longest_queue hvisited 0
  have htwo : ((writerAndReadersAfter { maxPending := some 2 } [] 6).world.lock
      0).stats.peakPending = 2 := by decide
  exact ⟨by decide, visited, htwo ▸ hpeak, (hbound 2 (by decide)).1⟩

end FairLock
