import FairLock.Proofs.Machine.Acts

/-!
# Loops on a stack

A thread that starts entry points of a lock has a run list there and a loop on the stack, and it has
the one exactly while it has the other.  Every entry point runs inside such a loop of its own thread
and lock.  That is why the end of a grant, wherever it happens inside an entry point, never starts
anything in place: what it drains joins a run list, and the loop works it off later.

## Main definitions

- `loopsOf`: the loops on a stack, with the threads that run them.
- `World.Looped`: the run lists are those of the loops, and entry points run inside their loops.

## Main statements

- `World.Makes.isLooped`, `Machine.Acts.isLooped`: nothing separates run lists and loops.
- `Machine.Reachable.looped`: reachable machines are looped.
-/

namespace FairLock

/-! ## Loops, threads and entry points on a stack -/

/-- The loops on a stack, each with the thread that runs it.  Below a `joining` frame the thread is
    the one that waits there. -/
def loopsOf (thread : ThreadId) : List Frame → List (ThreadId × LockId)
  | [] => []
  | .dispatching lock _ :: rest => (thread, lock) :: loopsOf thread rest
  | .joining waiting _ :: rest => loopsOf waiting rest
  | _ :: rest => loopsOf thread rest

/-- Every entry point on the stack runs inside a loop of its own thread for its lock. -/
def Sheltered (thread : ThreadId) : List Frame → Prop
  | [] => True
  | .invocation g :: rest => (thread, g.lock) ∈ loopsOf thread rest ∧ Sheltered thread rest
  | .joining waiting _ :: rest => Sheltered waiting rest
  | _ :: rest => Sheltered thread rest

theorem Frame.isLoopOrJoin_of_isPlain {f : Frame} (h : f.isPlain = true) :
    f.isLoopOrJoin = false := by
  cases f <;> first | rfl | cases h

theorem Frame.isLoopOrJoin_of_isSimple {f : Frame} (h : f.isSimple = true) :
    f.isLoopOrJoin = false := by
  cases f <;> first | rfl | cases h

section Plain

variable {f : Frame} (hf : f.isPlain = true) (thread : ThreadId) (rest : List Frame)
include hf

theorem loopsOf_plain : loopsOf thread (f :: rest) = loopsOf thread rest := by
  cases f <;> first | rfl | cases hf

theorem sheltered_plain : Sheltered thread (f :: rest) ↔ Sheltered thread rest := by
  cases f <;> first | exact Iff.rfl | cases hf

end Plain

namespace World

/-- The run lists of the locks are those of the loops on the stack, and every entry point runs
    inside a loop. -/
structure Looped (w : World) (frames : List Frame) : Prop where
  lists : ∀ id thread, (w.lock id).isDispatching thread = true ↔
    (thread, id) ∈ loopsOf w.thread frames
  once : (loopsOf w.thread frames).Nodup
  sheltered : Sheltered w.thread frames

end World

/-! ## Run lists and loops -/

namespace Lock

variable {l : Lock Entry} {thread other : ThreadId}

/-- Who has a run list is told by the threads of the lists. -/
theorem isDispatching_congr {l' : Lock Entry}
    (h : l'.runLists.map (·.thread) = l.runLists.map (·.thread)) (thread : ThreadId) :
    l'.isDispatching thread = l.isDispatching thread := by
  have hmap : ∀ l : Lock Entry, l.isDispatching thread =
      (l.runLists.map (·.thread)).any fun t => t == thread := by
    intro l
    simp [isDispatching, List.any_map, Function.comp_def]
  rw [hmap, hmap, h]

/-- The list that a thread gives up is its only one. -/
theorem isDispatching_close (hthreads : (l.runLists.map (·.thread)).Nodup)
    (thread other : ThreadId) :
    (l.close thread).1.isDispatching other = true ↔
      l.isDispatching other = true ∧ other ≠ thread := by
  rcases l.close_cases thread with ⟨before, deferred, after, hb, hl, he⟩ | ⟨hnone, he⟩
  · rw [he]
    rw [hl, List.map_append, List.map_cons, List.nodup_append, List.nodup_cons] at hthreads
    obtain ⟨-, ⟨hafter, -⟩, -⟩ := hthreads
    -- a thread has one list at most, so none of the others is of this one
    have hgone : ∀ run ∈ before ++ after, run.thread ≠ thread := by
      intro run hrun ht
      rcases List.mem_append.1 hrun with hrun | hrun
      · exact hb run hrun ht
      · exact hafter (List.mem_map.2 ⟨run, hrun, ht⟩)
    -- a list is left if it is not the one that was closed
    simp only [isDispatching_eq_true_iff, hl, List.mem_append, List.mem_cons]
    constructor
    · rintro ⟨run, hrun, rfl⟩
      refine ⟨⟨run, ?_, rfl⟩, hgone run (by simpa using hrun)⟩
      exact hrun.imp_right .inr
    · rintro ⟨⟨run, hrun | rfl | hrun, rfl⟩, hne⟩
      · exact ⟨run, .inl hrun, rfl⟩
      · exact absurd rfl hne
      · exact ⟨run, .inr hrun, rfl⟩
  · rw [he]
    constructor
    · intro h
      obtain ⟨run, hrun, rfl⟩ := isDispatching_eq_true_iff.1 h
      exact ⟨h, hnone run hrun⟩
    · exact And.left

end Lock

namespace World

variable {w v : World} {frames below : List Frame} {lock : LockId}

namespace Looped

/-- Only the threads of the run lists matter. -/
theorem congr (h : w.Looped frames) (hthread : v.thread = w.thread)
    (hlists : ∀ id thread, (v.lock id).isDispatching thread = (w.lock id).isDispatching thread) :
    v.Looped frames where
  lists id thread := by
    rw [hlists, hthread]
    exact h.lists id thread
  once := hthread ▸ h.once
  sheltered := hthread ▸ h.sheltered

/-- A frame that is neither a loop nor the end of a thread may be taken off. -/
theorem tail {f : Frame} (h : w.Looped (f :: below)) (hf : f.isLoopOrJoin = false) :
    w.Looped below := by
  cases f with
  | dispatching lock outcome => cases hf
  | joining thread entered => cases hf
  | invocation g => exact ⟨h.lists, h.once, h.sheltered.2⟩
  | _ => exact ⟨h.lists, h.once, h.sheltered⟩

/-- A frame that is no loop, no end of a thread and no entry point may be put on top. -/
theorem plain {f : Frame} (h : w.Looped below) (hf : f.isPlain = true) : w.Looped (f :: below) := by
  refine ⟨?_, ?_, (sheltered_plain hf _ _).2 h.sheltered⟩
  · rw [loopsOf_plain hf]
    exact h.lists
  · rw [loopsOf_plain hf]
    exact h.once

/-- A loop comes with its run list. -/
theorem «open» (h : w.Looped below) (hid : lock < w.locks.length)
    (hidle : (w.lock lock).isDispatching w.thread = false) (batch : List (Request Entry))
    (outcome : Option Reply) :
    (w.setLock lock ((w.lock lock).openRunList w.thread batch)).Looped
      (.dispatching lock outcome :: below) := by
  -- without a run list there is no loop either,
  -- so the new loop is the only one of its thread and lock
  have hnew : (w.thread, lock) ∉ loopsOf w.thread below := by
    rw [← h.lists, hidle]
    simp
  refine ⟨?lists, List.nodup_cons.2 ⟨hnew, h.once⟩, h.sheltered⟩
  intro id thread
  show _ ↔ (thread, id) ∈ (w.thread, lock) :: loopsOf w.thread below
  rw [List.mem_cons, ← h.lists, Prod.mk.injEq]
  -- on this lock one thread more has a list, and on the others nothing has changed
  by_cases hlock : id = lock
  · subst hlock
    rw [lock_setLock_self hid, Lock.isDispatching_openRunList]
    simp [or_comm]
  · rw [lock_setLock_of_ne (Ne.symm hlock)]
    simp [hlock]

/-- A run list goes with its loop. -/
theorem close {outcome : Option Reply} (h : w.Looped (.dispatching lock outcome :: below))
    (hid : lock < w.locks.length) (hthreads : ((w.lock lock).runLists.map (·.thread)).Nodup) :
    (w.setLock lock ((w.lock lock).close w.thread).1).Looped below := by
  obtain ⟨hnew, honce⟩ := List.nodup_cons.1 h.once
  refine ⟨?lists, honce, h.sheltered⟩
  intro id thread
  show _ ↔ (thread, id) ∈ loopsOf w.thread below
  -- before, the lists were those of the loops below and the one of this loop
  have hold : (w.lock id).isDispatching thread = true ↔
      (thread = w.thread ∧ id = lock) ∨ (thread, id) ∈ loopsOf w.thread below := by
    rw [h.lists]
    simp [loopsOf]
  by_cases hlock : id = lock
  · subst hlock
    rw [lock_setLock_self hid, Lock.isDispatching_close hthreads, hold]
    -- the list that is closed is the one of this loop: a loop below is of another thread or lock
    constructor
    · rintro ⟨⟨rfl, -⟩ | hmem, hne⟩
      · exact absurd rfl hne
      · exact hmem
    · intro hmem
      refine ⟨.inr hmem, ?_⟩
      rintro rfl
      exact hnew hmem
  · rw [lock_setLock_of_ne (Ne.symm hlock), hold]
    simp [hlock]

/-- A loop that takes a request off its run list stays a loop. -/
theorem taken {r : Request Entry} {l : Lock Entry} {outcome : Option Reply}
    (h : w.Looped (.dispatching lock outcome :: below)) (outcome' : Option Reply)
    (hid : lock < w.locks.length) (hnext : (w.lock lock).next w.thread = some (r, l)) :
    (w.setLock lock l).Looped (.dispatching lock outcome' :: below) := by
  -- one request less on a run list leaves the list where it is
  have hsame : (w.setLock lock l).Looped (.dispatching lock outcome :: below) := by
    refine h.congr rfl ?_
    intro id thread
    by_cases hlock : id = lock
    · subst hlock
      rw [lock_setLock_self hid]
      obtain ⟨before, deferred, after, -, hl, rfl⟩ := Lock.next_cases hnext
      refine Lock.isDispatching_congr ?_ thread
      simp [hl]
    · rw [lock_setLock_of_ne (Ne.symm hlock)]
  exact ⟨hsame.lists, hsame.once, hsame.sheltered⟩

end Looped

/-- A move leaves the run lists of a looped world with their loops, on top of any stack. -/
theorem Makes.isLooped {m : Move} (h : w.Makes m) (hw : w.Looped below) :
    m.world.Looped (m.frames ++ below) := by
  -- in the order in which the move is made up; only a loop and its run list come and go together
  induction h generalizing below with
  | done control => exact hw
  | quiet hm hsame ih => exact ih (hw.congr hsame.thread hsame.isDispatching)
  | under hm hf ih => simpa [List.append_assoc] using ih (hw.plain hf)
  | @invoked w m g hm hloop ih =>
    -- a boundary is put down only inside of a loop, and that loop is among those below
    have hframe : w.Looped (.invocation g :: below) :=
      ⟨hw.lists, hw.once, (hw.lists _ _).1 hloop, hw.sheltered⟩
    simpa [List.append_assoc] using ih hframe
  | @scheduled w lock hid batch =>
    -- either the thread has a list to which the batch is added, or it begins a loop with it
    rcases (w.lock lock).schedule_cases w.thread batch with
      ⟨before, deferred, after, -, hl, he⟩ | ⟨hnone, he⟩
    · simp only [schedule, he]
      refine hw.congr rfl ?_
      intro id thread
      by_cases hlock : id = lock
      · subst hlock
        rw [lock_setLock_self hid]
        refine Lock.isDispatching_congr ?_ thread
        simp [hl]
      · rw [lock_setLock_of_ne (Ne.symm hlock)]
    · simp only [schedule, he]
      have hidle : (w.lock lock).isDispatching w.thread = false := by
        rw [Bool.eq_false_iff, Ne, Lock.isDispatching_eq_true_iff]
        rintro ⟨run, hrun, ht⟩
        exact hnone run hrun ht
      exact hw.open hid hidle batch _
  | looped hid hidle hm ih =>
    simpa [List.append_assoc] using ih (hw.open hid hidle [] none)
  | threaded context body => exact ⟨hw.lists, hw.once, hw.sheltered⟩

/-! ## Inside a loop nothing is started in place -/

section InPlace

variable {g : Grant} (hloop : (w.lock g.lock).isDispatching w.thread = true)
include hloop

theorem endUnended_inPlace (hid : g.lock < w.locks.length) :
    w.endUnended g = { world := (w.endUnended g).world } := by
  cases hrelease : (w.lock g.lock).release g.id g.mode with
  | mk l batch =>
    obtain ⟨-, hframes, hcontrol⟩ := endUnended_eq hid hrelease
    rw [hloop, Bool.or_true, if_pos rfl] at hframes
    calc w.endUnended g
      _ = ⟨(w.endUnended g).world, (w.endUnended g).frames, (w.endUnended g).control⟩ := rfl
      _ = { world := (w.endUnended g).world } := by rw [hframes, hcontrol]

theorem endGrant_inPlace (hid : g.lock < w.locks.length) :
    w.endGrant g = { world := (w.endGrant g).world } := by
  unfold endGrant
  split
  · exact endUnended_inPlace hloop hid
  · rfl

theorem dropOwned_inPlace (hid : g.lock < w.locks.length) :
    w.dropOwned g = { world := (w.dropOwned g).world } := by
  unfold dropOwned
  split
  · exact endGrant_inPlace (w := { w with owned := w.owned.erase g }) hloop hid
  · rfl

end InPlace

end World

/-! ## Reachable machines -/

namespace Machine

variable {m m' : Machine}

/-- The lists of a lock belong to different threads. -/
theorem Reachable.threads_nodup (h : m.Reachable) (id : LockId) :
    ((m.world.lock id).runLists.map (·.thread)).Nodup := by
  obtain ⟨out, -, hsound⟩ := h.sound id
  exact hsound.threads

/-- A transition leaves run lists with their loops. -/
theorem Acts.isLooped {may : Call → Prop} (h : m.Acts may m') (hl : m.world.Looped m.frames)
    (hthreads : ∀ id, ((m.world.lock id).runLists.map (·.thread)).Nodup) :
    m'.world.Looped m'.frames := by
  -- the stack loses what is taken off it; none but a loop takes its run list along
  cases h with
  | rests => exact hl
  | @moves w top below control move htop h =>
    have hbelow : w.Looped below := by
      cases top with
      | none => exact hl
      | some f => exact hl.tail (Frame.isLoopOrJoin_of_isSimple (htop f rfl))
    exact h.makes.isLooped hbelow
  | @takes w lock outcome below reply r l hid hnext =>
    have htaken := hl.taken (some (outcome.getD reply)) hid hnext
    exact (World.makes_taken hid hnext).isLooped htaken
  | closes hid hnext => exact hl.close hid (hthreads _)
  | unwinds hid => exact ((hl.close hid (hthreads _)).plain rfl).plain rfl
  | @handsBack w lock r items below reply hid =>
    have hbelow := ((hl.tail rfl).plain (f := .handingBack lock items) rfl).plain
      (f := .discarding (r.grant lock) r.payload) rfl
    exact (World.makes_endGrant _ _).isLooped hbelow
  | discards hid =>
    have hsame := World.sameLists_discard
    exact (hl.tail rfl).congr (hsame _ _ _).thread (hsame _ _ _).isDispatching
  | leaves hf hout => exact hl.tail (Frame.isLoopOrJoin_of_isPlain hf)
  | joins reply => exact ⟨hl.lists, hl.once, hl.sheltered⟩

/-- Reachable machines are looped. -/
theorem Reachable.looped (h : m.Reachable) : m.world.Looped m.frames := by
  obtain ⟨configs, procedures, hr⟩ := h
  induction hr with
  -- no thread has a run list when the locks have been created
  | refl =>
    have hcreated := World.justCreated_initial configs procedures
    have hidle : ∀ id thread,
        ((World.initial configs procedures).lock id).isDispatching thread = false := by
      intro id thread
      obtain ⟨config, hlock⟩ := (hcreated.fresh id).lock
      have hlock' : (World.initial configs procedures).lock id = { config := config } := hlock
      simp [hlock', Lock.isDispatching]
    refine ⟨?_, List.nodup_nil, trivial⟩
    intro id thread
    show ((World.initial configs procedures).lock id).isDispatching thread = true ↔ _
    simp [hidle, idle, loopsOf]
  | @tail m m' hbefore hn ih =>
    have hm : m.Reachable := ⟨configs, procedures, hbefore⟩
    exact (hm.acts hn).isLooped ih hm.threads_nodup

end Machine

end FairLock
