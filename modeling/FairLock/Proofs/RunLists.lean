import FairLock.Lock

/-!
# Run lists in focus

Every operation on run lists works on the first list of one thread and leaves the others alone.
`exists_focus` splits the lists at that place, and one lemma for each operation says what happens
there, so that no later proof follows an operation through the lists again.

## Main definitions

- `deferredIn`: the deferred requests of all threads, list after list.

## Main statements

- `exists_focus`: the run list of a dispatching thread, with those before and after it.
- `deferTo_focus`, `takeFrom_focus_cons`, `eraseP_focus`, `find?_focus`: the operations there.
- `close_cases`, `next_cases`, `schedule_cases`: the same for a lock.
-/

namespace FairLock

universe u

variable {α : Type u} {thread : ThreadId}

/-- The deferred requests of all threads, list after list. -/
def deferredIn (runs : List (RunList α)) : List (Request α) := runs.flatMap (·.deferred)

@[simp] theorem deferredIn_nil : deferredIn ([] : List (RunList α)) = [] := rfl

@[simp] theorem deferredIn_cons (run : RunList α) (runs : List (RunList α)) :
    deferredIn (run :: runs) = run.deferred ++ deferredIn runs := rfl

@[simp] theorem deferredIn_append (runs more : List (RunList α)) :
    deferredIn (runs ++ more) = deferredIn runs ++ deferredIn more := by
  simp [deferredIn]

/-- Nothing is deferred where every list is empty. -/
theorem deferredIn_eq_nil {runs : List (RunList α)} (h : ∀ run ∈ runs, run.deferred = []) :
    deferredIn runs = [] := by
  simpa [deferredIn] using h

/-- All that is deferred lies with one thread. -/
def OneThread (runs : List (RunList α)) : Prop :=
  ∃ thread, ∀ run ∈ runs, run.thread ≠ thread → run.deferred = []

/-- None of the run lists belongs to the thread. -/
def NoneOf (thread : ThreadId) (runs : List (RunList α)) : Prop :=
  ∀ run ∈ runs, run.thread ≠ thread

theorem noneOf_cons {run : RunList α} {runs : List (RunList α)} :
    NoneOf thread (run :: runs) ↔ run.thread ≠ thread ∧ NoneOf thread runs :=
  List.forall_mem_cons

/-- A thread that has no run list may be given one. -/
theorem threads_append {runs : List (RunList α)} (h : (runs.map (·.thread)).Nodup)
    (hnone : NoneOf thread runs) (deferred : List (Request α)) :
    ((runs ++ [(⟨thread, deferred⟩ : RunList α)]).map (·.thread)).Nodup := by
  rw [List.map_append, List.nodup_append]
  refine ⟨h, by simp, ?_⟩
  intro a ha b hb hab
  obtain ⟨run, hrun, rfl⟩ := List.mem_map.1 ha
  simp only [List.map_cons, List.map_nil, List.mem_singleton] at hb
  exact hnone run hrun (hab.trans hb)

/-- The first run list of a thread, with the lists before and after it. -/
theorem exists_focus {runs : List (RunList α)} (h : ∃ run ∈ runs, run.thread = thread) :
    ∃ before deferred after,
      runs = before ++ ⟨thread, deferred⟩ :: after ∧ NoneOf thread before := by
  induction runs with
  | nil =>
    obtain ⟨run, hrun, -⟩ := h
    cases hrun
  | cons first rest ih =>
    by_cases hf : first.thread = thread
    · subst hf
      exact ⟨[], first.deferred, rest, rfl, by simp [NoneOf]⟩
    · obtain ⟨run, hrun, ht⟩ := h
      have hrest : run ∈ rest := by
        rcases List.mem_cons.1 hrun with rfl | hrest
        · exact absurd ht hf
        · exact hrest
      -- the lists passed over are not the thread's, so what is found is its first list
      obtain ⟨before, deferred, after, rfl, hbefore⟩ := ih ⟨run, hrest, ht⟩
      exact ⟨first :: before, deferred, after, rfl, noneOf_cons.2 ⟨hf, hbefore⟩⟩

section Focus

variable {before after : List (RunList α)} {deferred : List (Request α)}

theorem deferTo_focus (hb : NoneOf thread before) (batch : List (Request α)) :
    Lock.deferTo thread batch (before ++ ⟨thread, deferred⟩ :: after) =
      before ++ ⟨thread, deferred ++ batch⟩ :: after := by
  induction before with
  | nil => simp [Lock.deferTo]
  | cons first rest ih =>
    obtain ⟨hf, hrest⟩ := noneOf_cons.1 hb
    simp [Lock.deferTo, hf, ih hrest]

theorem takeFrom_focus_nil (hb : NoneOf thread before) :
    Lock.takeFrom thread (before ++ ⟨thread, []⟩ :: after : List (RunList α)) = none := by
  induction before with
  | nil => simp [Lock.takeFrom]
  | cons first rest ih =>
    obtain ⟨hf, hrest⟩ := noneOf_cons.1 hb
    simp [Lock.takeFrom, hf, ih hrest]

theorem takeFrom_focus_cons (hb : NoneOf thread before) (r : Request α) :
    Lock.takeFrom thread (before ++ ⟨thread, r :: deferred⟩ :: after) =
      some (r, before ++ ⟨thread, deferred⟩ :: after) := by
  induction before with
  | nil => simp [Lock.takeFrom]
  | cons first rest ih =>
    obtain ⟨hf, hrest⟩ := noneOf_cons.1 hb
    simp [Lock.takeFrom, hf, ih hrest]

theorem takeFrom_of_none {runs : List (RunList α)} (h : NoneOf thread runs) :
    Lock.takeFrom thread runs = none := by
  induction runs with
  | nil => rfl
  | cons first rest ih =>
    obtain ⟨hf, hrest⟩ := noneOf_cons.1 h
    simp [Lock.takeFrom, hf, ih hrest]

theorem eraseP_focus (hb : NoneOf thread before) :
    (before ++ ⟨thread, deferred⟩ :: after).eraseP (fun run => run.thread == thread) =
      before ++ after := by
  rw [List.eraseP_append_right]
  · simp
  · intro run hrun
    simpa using hb run hrun

theorem find?_focus (hb : NoneOf thread before) :
    (before ++ ⟨thread, deferred⟩ :: after).find? (fun run => run.thread == thread) =
      some ⟨thread, deferred⟩ := by
  -- the lists in front are of other threads
  rw [List.find?_append, List.find?_eq_none.2]
  · simp
  · intro run hrun
    simpa using hb run hrun

end Focus

namespace Lock

variable {l : Lock α}

theorem exists_focus_of_isDispatching (h : l.isDispatching thread = true) :
    ∃ before deferred after,
      l.runLists = before ++ ⟨thread, deferred⟩ :: after ∧ NoneOf thread before :=
  exists_focus (isDispatching_eq_true_iff.1 h)

theorem noneOf_of_not_isDispatching (h : l.isDispatching thread = false) :
    NoneOf thread l.runLists := by
  intro run hrun ht
  have := isDispatching_eq_true_iff.2 ⟨run, hrun, ht⟩
  simp [h] at this

/-- A batch joins the run list of its thread, or opens one. -/
theorem schedule_cases (l : Lock α) (thread : ThreadId) (batch : List (Request α)) :
    (∃ before deferred after, NoneOf thread before ∧
      l.runLists = before ++ ⟨thread, deferred⟩ :: after ∧
      l.schedule thread batch =
        ({ l with runLists := before ++ ⟨thread, deferred ++ batch⟩ :: after }, false)) ∨
    (NoneOf thread l.runLists ∧
      l.schedule thread batch =
        ({ l with runLists := l.runLists ++ [⟨thread, batch⟩] }, true)) := by
  unfold schedule
  -- a thread that is dispatching has a list, and the search stops at the first one
  cases h : l.isDispatching thread with
  | true =>
    obtain ⟨before, deferred, after, hl, hb⟩ := exists_focus_of_isDispatching h
    refine .inl ⟨before, deferred, after, hb, hl, ?_⟩
    simp [hl, deferTo_focus hb]
  | false => exact .inr ⟨noneOf_of_not_isDispatching h, by simp [openRunList]⟩

/-- The next deferred request is the front of the run list of the thread. -/
theorem next_cases {r : Request α} {l' : Lock α} (h : l.next thread = some (r, l')) :
    ∃ before deferred after, NoneOf thread before ∧
      l.runLists = before ++ ⟨thread, r :: deferred⟩ :: after ∧
      l' = { l with runLists := before ++ ⟨thread, deferred⟩ :: after } := by
  unfold next at h
  cases hd : l.isDispatching thread with
  | false => simp [takeFrom_of_none (noneOf_of_not_isDispatching hd)] at h
  | true =>
    obtain ⟨before, deferred, after, hl, hb⟩ := exists_focus_of_isDispatching hd
    rw [hl] at h
    cases deferred with
    -- an empty run list has no next request
    | nil => simp [takeFrom_focus_nil hb] at h
    | cons r' deferred =>
      rw [takeFrom_focus_cons hb] at h
      cases h
      exact ⟨before, deferred, after, hb, hl, rfl⟩

/-- Without a next request the run list of the thread is empty or missing. -/
theorem deferredOn_of_next_eq_none (h : l.next thread = none) : l.deferredOn thread = [] := by
  unfold deferredOn
  cases hd : l.isDispatching thread with
  | false =>
    -- no list is found at all
    rw [List.find?_eq_none.2]
    intro run hrun
    simpa using noneOf_of_not_isDispatching hd run hrun
  | true =>
    obtain ⟨before, deferred, after, hl, hb⟩ := exists_focus_of_isDispatching hd
    rw [hl, find?_focus hb]
    cases deferred with
    | nil => rfl
    | cons r deferred => simp [next, hl, takeFrom_focus_cons hb] at h

/-- Closing takes the run list of the thread away, with what it still holds. -/
theorem close_cases (l : Lock α) (thread : ThreadId) :
    (∃ before deferred after, NoneOf thread before ∧
      l.runLists = before ++ ⟨thread, deferred⟩ :: after ∧
      l.close thread = ({ l with runLists := before ++ after }, deferred)) ∨
    (NoneOf thread l.runLists ∧ l.close thread = (l, [])) := by
  unfold close deferredOn
  cases h : l.isDispatching thread with
  | true =>
    obtain ⟨before, deferred, after, hl, hb⟩ := exists_focus_of_isDispatching h
    refine .inl ⟨before, deferred, after, hb, hl, ?_⟩
    rw [hl, find?_focus hb, eraseP_focus hb]
  | false =>
    have hnone := noneOf_of_not_isDispatching h
    refine .inr ⟨hnone, ?_⟩
    rw [List.find?_eq_none.2, List.eraseP_of_forall_not]
    all_goals
      -- neither the search nor the removal finds a list to stop at
      intro run hrun
      simpa using hnone run hrun

/-- A thread without a run list has nothing deferred. -/
theorem deferredOn_of_not_isDispatching (h : l.isDispatching thread = false) :
    l.deferredOn thread = [] := by
  refine deferredOn_of_next_eq_none ?_
  rw [next, takeFrom_of_none (noneOf_of_not_isDispatching h)]
  rfl

/-- What lies on one run list is deferred, in the same order. -/
theorem deferredOn_sublist (l : Lock α) (thread : ThreadId) :
    (l.deferredOn thread).Sublist (deferredIn l.runLists) := by
  have hleft : l.deferredOn thread = (l.close thread).2 := rfl
  rw [hleft]
  rcases l.close_cases thread with ⟨before, deferred, after, -, hl, he⟩ | ⟨-, he⟩
  · rw [he, hl, deferredIn_append, deferredIn_cons]
    exact (List.sublist_append_left _ _).trans (List.sublist_append_right _ _)
  · rw [he]
    exact List.nil_sublist _

/-! ## What is deferred after an operation -/

/-- Make sure that a thread has a run list. -/
def dispatchOn (l : Lock α) (thread : ThreadId) : Lock α :=
  if l.isDispatching thread then l else l.openRunList thread []

/-- Put a batch on the run list of a thread; without a batch nothing is opened. -/
def deferBatch (l : Lock α) (thread : ThreadId) (batch : List (Request α)) : Lock α :=
  match batch with
  | [] => l
  | _ :: _ => (l.schedule thread batch).1

/-- The run lists of a lock after a thread has been given one. -/
theorem runLists_dispatchOn (l : Lock α) (thread : ThreadId) :
    (l.dispatchOn thread).runLists = l.runLists ∨
      NoneOf thread l.runLists ∧ (l.dispatchOn thread).runLists = l.runLists ++ [⟨thread, []⟩] := by
  unfold dispatchOn
  cases h : l.isDispatching thread with
  | true => exact .inl rfl
  | false => exact .inr ⟨noneOf_of_not_isDispatching h, rfl⟩

/-- A batch only touches the run lists. -/
theorem deferBatch_eq (l : Lock α) (thread : ThreadId) (batch : List (Request α)) :
    l.deferBatch thread batch = { l with runLists := (l.deferBatch thread batch).runLists } := by
  cases batch with
  | nil => rfl
  | cons front rest =>
    rcases schedule_cases l thread (front :: rest) with ⟨_, _, _, _, _, he⟩ | ⟨_, he⟩ <;>
      simp [deferBatch, he]

theorem dispatchOn_eq (l : Lock α) (thread : ThreadId) :
    l.dispatchOn thread = { l with runLists := (l.dispatchOn thread).runLists } := by
  unfold dispatchOn
  split <;> rfl

/-- A thread that is given an empty run list defers nothing by that. -/
theorem deferredIn_dispatchOn (l : Lock α) (thread : ThreadId) :
    deferredIn (l.dispatchOn thread).runLists = deferredIn l.runLists := by
  rcases l.runLists_dispatchOn thread with h | ⟨-, h⟩ <;> simp [h]

theorem threads_dispatchOn {l : Lock α} (h : (l.runLists.map (·.thread)).Nodup)
    (thread : ThreadId) : ((l.dispatchOn thread).runLists.map (·.thread)).Nodup := by
  rcases l.runLists_dispatchOn thread with heq | ⟨hnone, heq⟩
  · exact heq ▸ h
  · exact heq ▸ threads_append h hnone []

theorem oneThread_dispatchOn {l : Lock α} (h : OneThread l.runLists) (thread : ThreadId) :
    OneThread (l.dispatchOn thread).runLists := by
  obtain ⟨owner, howner⟩ := h
  rcases l.runLists_dispatchOn thread with heq | ⟨-, heq⟩
  · exact ⟨owner, heq ▸ howner⟩
  · -- a new list is empty, so the owner stays the only one
    refine ⟨owner, ?_⟩
    intro run hrun hne
    rw [heq, List.mem_append, List.mem_singleton] at hrun
    rcases hrun with hrun | rfl
    · exact howner run hrun hne
    · rfl

/-- A batch is deferred next to what was deferred before. -/
theorem deferredIn_deferBatch (l : Lock α) (thread : ThreadId) (batch : List (Request α)) :
    (deferredIn (l.deferBatch thread batch).runLists).Perm (deferredIn l.runLists ++ batch) := by
  cases batch with
  | nil => simp [deferBatch]
  | cons front rest =>
    rcases schedule_cases l thread (front :: rest) with
      ⟨before, deferred, after, -, hl, he⟩ | ⟨-, he⟩
    · -- the lists behind that of the thread change places with the batch
      simp only [deferBatch, he, hl, deferredIn_append, deferredIn_cons, List.append_assoc]
      refine (List.Perm.append_left _ ?_).append_left _
      exact List.perm_append_comm
    · simp [deferBatch, he]

theorem threads_deferBatch {l : Lock α} (h : (l.runLists.map (·.thread)).Nodup)
    (thread : ThreadId) (batch : List (Request α)) :
    ((l.deferBatch thread batch).runLists.map (·.thread)).Nodup := by
  cases batch with
  | nil => exact h
  | cons front rest =>
    -- the batch joins a list that is there, or opens one for a thread that had none
    rcases schedule_cases l thread (front :: rest) with
      ⟨before, deferred, after, -, hl, he⟩ | ⟨hnone, he⟩
    · simpa [deferBatch, he, hl] using h
    · simp only [deferBatch, he]
      exact threads_append h hnone (front :: rest)

section Empty

variable {l : Lock α} (h : deferredIn l.runLists = [])
include h

/-- Where nothing was deferred, the batch is all that is. -/
theorem deferredIn_deferBatch_of_empty (thread : ThreadId) (batch : List (Request α)) :
    deferredIn (l.deferBatch thread batch).runLists = batch := by
  cases batch with
  | nil => exact h
  | cons front rest =>
    rcases schedule_cases l thread (front :: rest) with
      ⟨before, deferred, after, -, hl, he⟩ | ⟨-, he⟩
    · simp only [hl, deferredIn_append, deferredIn_cons, List.append_eq_nil_iff] at h
      simp [deferBatch, he, h]
    · simp [deferBatch, he, h]

theorem oneThread_deferBatch_of_empty (thread : ThreadId) (batch : List (Request α)) :
    OneThread (l.deferBatch thread batch).runLists := by
  refine ⟨thread, ?_⟩
  -- all lists were empty, so the only one with anything on it is the one that took the batch
  have hempty : ∀ run ∈ l.runLists, run.deferred = [] := by simpa [deferredIn] using h
  cases batch with
  | nil => exact fun run hrun _ => hempty run hrun
  | cons front rest =>
    intro run hrun hne
    rcases schedule_cases l thread (front :: rest) with
      ⟨before, deferred, after, -, hl, he⟩ | ⟨-, he⟩
    · simp only [deferBatch, he, List.mem_append, List.mem_cons] at hrun
      rcases hrun with hrun | rfl | hrun
      · exact hempty run (by simp [hl, hrun])
      · exact absurd rfl hne
      · exact hempty run (by simp [hl, hrun])
    · simp only [deferBatch, he, List.mem_append, List.mem_singleton] at hrun
      rcases hrun with hrun | rfl
      · exact hempty run hrun
      · exact absurd rfl hne

end Empty

end Lock

end FairLock
