import FairLock.Proofs.Echo.Code

/-!
# Locks of two sides

A lock of a side is in the run of that side alone what it is in the joint run, up to the code of
what is started and to the numbers of channels and threads.  Every operation of a lock keeps that.

## Main definitions

- `Pairing`: which channels and threads of the joint run are which in the run of a side alone.
- `Request.Echoes`, `RunList.Echoes`, `Lock.Echoes`: the relation, from what is started upwards.

## Main statements

- `Lock.Echoes.submit`, `Lock.Echoes.release`, and one lemma for each further operation.
-/

namespace FairLock

/-! ## Numbers -/

/-- Numbers of two runs are paired one to one, all of them below the bounds. -/
structure Pairs (R : Nat → Nat → Prop) (bound bound' : Nat) : Prop where
  lt : ∀ {n n'}, R n n' → n < bound ∧ n' < bound'
  iff : ∀ {n n' m m'}, R n n' → R m m' → (n = m ↔ n' = m')

/-- Pair the next two numbers as well. -/
theorem Pairs.next {R : Nat → Nat → Prop} {bound bound' : Nat} (h : Pairs R bound bound') :
    Pairs (fun n n' => R n n' ∨ n = bound ∧ n' = bound') (bound + 1) (bound' + 1) where
  lt := by
    rintro n n' (hn | ⟨rfl, rfl⟩)
    · exact ⟨Nat.lt_succ_of_lt (h.lt hn).1, Nat.lt_succ_of_lt (h.lt hn).2⟩
    · exact ⟨Nat.lt_succ_self _, Nat.lt_succ_self _⟩
  iff := by
    -- an old number is below the bound, and the new one is the bound: they do not meet
    rintro n n' m m' (hn | ⟨rfl, rfl⟩) (hm | ⟨rfl, rfl⟩)
    · exact h.iff hn hm
    · have := h.lt hn
      omega
    · have := h.lt hm
      omega
    · simp

theorem Pairs.mono {R : Nat → Nat → Prop} {bound bound' more more' : Nat}
    (h : Pairs R bound bound') (hmore : bound ≤ more) (hmore' : bound' ≤ more') :
    Pairs R more more' where
  lt hn := ⟨Nat.lt_of_lt_of_le (h.lt hn).1 hmore, Nat.lt_of_lt_of_le (h.lt hn).2 hmore'⟩
  iff := h.iff

/-- Which channels and threads of the joint run are which in the run of a side alone. -/
structure Pairing where
  channel : ChannelId → ChannelId → Prop
  thread : ThreadId → ThreadId → Prop

/-- A pairing is extended by another one. -/
structure Pairing.Le (p p' : Pairing) : Prop where
  channel : ∀ {c c'}, p.channel c c' → p'.channel c c'
  thread : ∀ {t t'}, p.thread t t' → p'.thread t t'

theorem Pairing.Le.refl (p : Pairing) : p.Le p := ⟨id, id⟩

theorem Pairing.Le.trans {p p' p'' : Pairing} (h : p.Le p') (h' : p'.Le p'') : p.Le p'' :=
  ⟨fun hc => h'.channel (h.channel hc), fun ht => h'.thread (h.thread ht)⟩

/-! ## What is started -/

section Relations

variable (s : Sides) (x : Side) (p : Pairing)

/-- A task of a side. -/
structure Task.Echoes (t t' : Task) : Prop where
  side : s.handle t.handle = x
  handle : t'.handle = s.number x t.handle
  tag : t'.tag = t.tag
  body : ∃ tagged, (tagged = true → s.name t.tag = x) ∧
    t.body.Echoes s x ⟨true, tagged⟩ t'.body
  ending : t'.ending = t.ending
  quiet : t'.quiet = t.quiet

/-- What is started for a request of a side. -/
inductive Entry.Echoes : Entry → Entry → Prop where
  | task {t t' : Task} (h : t.Echoes s x t') : Entry.Echoes (.task t) (.task t')
  | sender {c c' : ChannelId} (h : p.channel c c') : Entry.Echoes (.sender c) (.sender c')

/-- A request of a side. -/
structure Request.Echoes (r r' : Request Entry) : Prop where
  id : r'.id = r.id
  mode : r'.mode = r.mode
  payload : r.payload.Echoes s x p r'.payload

/-- Requests of a side in their order. -/
abbrev Queue.Echoes (q q' : List (Request Entry)) : Prop :=
  List.Forall₂ (fun r r' : Request Entry => r.Echoes s x p r') q q'

/-- A run list for a lock of a side. -/
structure RunList.Echoes (run run' : RunList Entry) : Prop where
  thread : p.thread run.thread run'.thread
  deferred : Queue.Echoes s x p run.deferred run'.deferred

/-- The run lists for a lock of a side. -/
abbrev RunLists.Echoes (runs runs' : List (RunList Entry)) : Prop :=
  List.Forall₂ (fun run run' : RunList Entry => run.Echoes s x p run') runs runs'

/-- A lock of a side. -/
structure Lock.Echoes (l l' : Lock Entry) : Prop where
  config : l'.config = l.config
  state : l'.core.state = l.core.state
  queue : Queue.Echoes s x p l.core.queue l'.core.queue
  nextId : l'.core.nextId = l.core.nextId
  stats : l'.stats = l.stats
  unended : l'.unended = l.unended
  runLists : RunLists.Echoes s x p l.runLists l'.runLists

/-- The outcome of a submission to a lock of a side. -/
inductive Submission.Echoes : Submission Entry → Submission Entry → Prop where
  | granted {r r' : Request Entry} (h : r.Echoes s x p r') :
      Submission.Echoes (.granted r) (.granted r')
  | queued (id : GrantId) (pending : Nat) :
      Submission.Echoes (.queued id pending) (.queued id pending)
  | rejected {entry entry' : Entry} (h : entry.Echoes s x p entry') (limit : Nat) :
      Submission.Echoes (.rejected entry limit) (.rejected entry' limit)

end Relations

section Lemmas

variable {s : Sides} {x : Side} {p p' : Pairing}

section Channels

variable (hchannels : ∀ {c c'}, p.channel c c' → p'.channel c c')
include hchannels

theorem Entry.Echoes.mono {entry entry' : Entry} (h : entry.Echoes s x p entry') :
    entry.Echoes s x p' entry' := by
  cases h with
  | task h => exact .task h
  | sender h => exact .sender (hchannels h)

theorem Queue.Echoes.mono {q q' : List (Request Entry)} (h : Queue.Echoes s x p q q') :
    Queue.Echoes s x p' q q' :=
  h.imp fun _ _ hr => ⟨hr.id, hr.mode, hr.payload.mono hchannels⟩

end Channels

theorem Lock.Echoes.mono {l l' : Lock Entry} (h : l.Echoes s x p l') (hp : p.Le p') :
    l.Echoes s x p' l' :=
  { h with
    queue := Queue.Echoes.mono hp.channel h.queue
    runLists := h.runLists.imp fun _ _ hrun =>
      ⟨hp.thread hrun.thread, Queue.Echoes.mono hp.channel hrun.deferred⟩ }

/-! ## Queues -/

namespace Queue.Echoes

variable {q q' : List (Request Entry)} (h : Queue.Echoes s x p q q')
include h

theorem takeReads : Queue.Echoes s x p (q.takeWhile fun r => r.mode.isRead)
    (q'.takeWhile fun r => r.mode.isRead) := by
  induction h with
  | nil => exact .nil
  | @cons r r' _ _ hr _ ih =>
    rw [List.takeWhile_cons, List.takeWhile_cons, hr.mode]
    split
    · exact .cons hr ih
    · exact .nil

theorem dropReads : Queue.Echoes s x p (q.dropWhile fun r => r.mode.isRead)
    (q'.dropWhile fun r => r.mode.isRead) := by
  induction h with
  | nil => exact .nil
  | @cons r r' _ _ hr hrest ih =>
    rw [List.dropWhile_cons, List.dropWhile_cons, hr.mode]
    split
    · exact ih
    · exact .cons hr hrest

theorem batchOf : Queue.Echoes s x p (batchOf q) (batchOf q') := by
  cases h with
  | nil => exact .nil
  -- the front is of the same mode in both runs, and the mode decides who goes with it
  | @cons r r' _ _ hr hrest =>
    have hmode' := hr.mode
    cases hmode : r.mode with
    | read =>
      simp only [FairLock.batchOf, hmode', hmode]
      exact .cons hr (takeReads hrest)
    | write =>
      simp only [FairLock.batchOf, hmode', hmode]
      exact .cons hr .nil

theorem restOf : Queue.Echoes s x p (restOf q) (restOf q') := by
  cases h with
  | nil => exact .nil
  -- the same two ways as for the batch
  | @cons r r' _ _ hr hrest =>
    have hmode' := hr.mode
    cases hmode : r.mode with
    | read =>
      simp only [FairLock.restOf, hmode', hmode]
      exact dropReads hrest
    | write =>
      simp only [FairLock.restOf, hmode', hmode]
      exact hrest

theorem modes : q'.map (·.mode) = q.map (·.mode) := by
  induction h with
  | nil => rfl
  | cons hr _ ih => rw [List.map_cons, List.map_cons, hr.mode, ih]

theorem stateOf : stateOf q' = stateOf q := by
  have hmap : ∀ batch : List (Request Entry),
      FairLock.stateOf batch = (batch.map (·.mode)).foldl State.acquired .free := by
    intro batch
    rw [FairLock.stateOf, List.foldl_map]
  rw [hmap, hmap, h.modes]

theorem unended : q'.map (fun r => (r.id, r.mode)) = q.map fun r => (r.id, r.mode) := by
  induction h with
  | nil => rfl
  | cons hr _ ih => rw [List.map_cons, List.map_cons, hr.id, hr.mode, ih]

theorem isEmpty : q'.isEmpty = q.isEmpty := by
  cases h <;> rfl

theorem startsWithRead : Lock.startsWithRead q' = Lock.startsWithRead q := by
  cases h with
  | nil => rfl
  | cons hr _ => simp only [Lock.startsWithRead, hr.mode]

end Queue.Echoes

/-! ## Run lists -/

namespace RunLists.Echoes

variable {runs runs' : List (RunList Entry)} (h : RunLists.Echoes s x p runs runs') {n n' : Nat}
  (hp : Pairs p.thread n n') {t t' : ThreadId} (ht : p.thread t t')
include h hp ht

omit h in
/-- A run list is that of a thread in both runs. -/
theorem isOf {run run' : RunList Entry} (hrun : run.Echoes s x p run') :
    (run'.thread == t') = (run.thread == t) := by
  rw [Bool.eq_iff_iff, beq_iff_eq, beq_iff_eq, hp.iff hrun.thread ht]

theorem any : (runs'.any fun run => run.thread == t') = runs.any fun run => run.thread == t := by
  induction h with
  | nil => rfl
  | cons hrun _ ih => rw [List.any_cons, List.any_cons, isOf hp ht hrun, ih]

theorem deferTo {batch batch' : List (Request Entry)} (hbatch : Queue.Echoes s x p batch batch') :
    RunLists.Echoes s x p (Lock.deferTo t batch runs) (Lock.deferTo t' batch' runs') := by
  induction h with
  | nil => exact .nil
  | @cons run run' _ _ hrun hrest ih =>
    unfold Lock.deferTo
    by_cases hthread : run.thread = t
    · rw [if_pos hthread, if_pos ((hp.iff hrun.thread ht).1 hthread)]
      exact .cons ⟨hrun.thread, List.rel_append hrun.deferred hbatch⟩ hrest
    · rw [if_neg hthread, if_neg fun e => hthread ((hp.iff hrun.thread ht).2 e)]
      exact .cons hrun ih

theorem takeFrom :
    Option.Rel (fun found found' : Request Entry × List (RunList Entry) =>
        found.1.Echoes s x p found'.1 ∧ RunLists.Echoes s x p found.2 found'.2)
      (Lock.takeFrom t runs) (Lock.takeFrom t' runs') := by
  induction h with
  | nil => exact .none
  | @cons run run' _ _ hrun hrest ih =>
    -- the threads are paired,
    -- so this run list is of the one thread exactly if its twin is of the other
    unfold Lock.takeFrom
    by_cases hthread : run.thread = t
    · rw [if_pos hthread, if_pos ((hp.iff hrun.thread ht).1 hthread)]
      have hdeferred := hrun.deferred
      revert hdeferred
      -- paired lists are both empty or both begin with a request
      cases run.deferred <;> cases run'.deferred <;> rintro (_ | ⟨hr, hd⟩)
      · exact .none
      · exact .some ⟨hr, .cons ⟨hrun.thread, hd⟩ hrest⟩
    · rw [if_neg hthread, if_neg fun e => hthread ((hp.iff hrun.thread ht).2 e)]
      revert ih
      generalize Lock.takeFrom t _ = found
      generalize Lock.takeFrom t' _ = found'
      rintro (⟨hr, hd⟩ | _)
      · exact .some ⟨hr, .cons hrun hd⟩
      · exact .none

theorem erase : RunLists.Echoes s x p (runs.eraseP fun run => run.thread == t)
    (runs'.eraseP fun run => run.thread == t') := by
  induction h with
  | nil => exact .nil
  | @cons run run' _ _ hrun hrest ih =>
    rw [List.eraseP_cons, List.eraseP_cons, isOf hp ht hrun]
    cases run.thread == t with
    | true => exact hrest
    | false => exact .cons hrun ih

theorem deferred {l l' : Lock Entry} (hl : l.runLists = runs) (hl' : l'.runLists = runs') :
    Queue.Echoes s x p (l.deferredOn t) (l'.deferredOn t') := by
  unfold Lock.deferredOn
  rw [hl, hl']
  clear hl hl'
  induction h with
  | nil => exact .nil
  -- down the two lists at once, to the run list of the thread
  | @cons run run' _ _ hrun _ ih =>
    rw [List.find?_cons, List.find?_cons, isOf hp ht hrun]
    cases run.thread == t with
    | true => exact hrun.deferred
    | false => exact ih

end RunLists.Echoes

/-! ## The operations of a lock -/

namespace Lock.Echoes

variable {l l' : Lock Entry} (h : l.Echoes s x p l')
include h

theorem holds : l'.state = l.state := h.state

theorem pending : l'.pending = l.pending := h.queue.length_eq.symm

theorem isUnended (id : GrantId) : l'.isUnended id = l.isUnended id := by
  rw [Lock.isUnended, Lock.isUnended, h.unended]

theorem countRedundant : l.countRedundant.Echoes s x p l'.countRedundant :=
  { h with stats := congrArg Stats.countRedundant h.stats }

theorem countFailure : l.countFailure.Echoes s x p l'.countFailure :=
  { h with stats := congrArg Stats.countFailure h.stats }

/-- A request is admitted, has to wait or is turned away in both runs. -/
theorem submit (mode : Mode) {entry entry' : Entry} (hentry : entry.Echoes s x p entry') :
    (l.submit mode entry).1.Echoes s x p (l'.submit mode entry').1 ∧
      (l.submit mode entry).2.Echoes s x p (l'.submit mode entry').2 := by
  obtain ⟨config, ⟨state, queue, nextId⟩, stats, unended, runLists⟩ := l
  obtain ⟨config', ⟨state', queue', nextId'⟩, stats', unended', runLists'⟩ := l'
  obtain ⟨rfl, rfl, hqueue, rfl, rfl, rfl, hruns⟩ := h
  have hempty : queue'.isEmpty = queue.isEmpty := Queue.Echoes.isEmpty hqueue
  have hlength : queue'.length = queue.length := hqueue.length_eq.symm
  simp only [Lock.submit, Core.submit, hempty, Core.pending_eq, hlength]
  -- the decision is made on the state and the length of the queue, which the two locks share
  by_cases hgrant : (queue.isEmpty && state'.admits mode) = true
  · simp only [hgrant, ↓reduceIte]
    exact ⟨⟨rfl, rfl, hqueue, rfl, rfl, rfl, hruns⟩, .granted ⟨rfl, rfl, hentry⟩⟩
  · simp only [hgrant, Bool.false_eq_true, ↓reduceIte]
    cases config'.reachedLimit queue.length with
    | some limit => exact ⟨⟨rfl, rfl, hqueue, rfl, rfl, rfl, hruns⟩, .rejected hentry limit⟩
    | none =>
      -- the new request carries the same number in both runs
      have hjoined : Queue.Echoes s x p (queue ++ [⟨nextId', mode, entry⟩])
          (queue' ++ [⟨nextId', mode, entry'⟩]) :=
        List.rel_append hqueue (.cons ⟨rfl, rfl, hentry⟩ .nil)
      exact ⟨⟨rfl, rfl, hjoined, rfl, rfl, rfl, hruns⟩, .queued _ _⟩

/-- What a release drains is the same in both runs. -/
theorem release (id : GrantId) (mode : Mode) :
    (l.release id mode).1.Echoes s x p (l'.release id mode).1 ∧
      Queue.Echoes s x p (l.release id mode).2 (l'.release id mode).2 := by
  -- the state decides whether the lock is freed, and what it drains is paired like the queue
  by_cases hfree : l.core.state.released mode = .free
  · have hfree' : l'.core.state.released mode = .free := h.state ▸ hfree
    have hbatch := Queue.Echoes.batchOf h.queue
    simp only [Lock.release, Core.release_of_free hfree, Core.release_of_free hfree']
    refine ⟨{ h with
      state := hbatch.stateOf
      queue := Queue.Echoes.restOf h.queue
      nextId := h.nextId
      stats := ?_
      unended := ?_ }, hbatch⟩
    · simp only [hbatch.isEmpty, hbatch.length_eq, hbatch.startsWithRead, h.stats]
    · simp only [h.unended, hbatch.unended]
  · have hfree' : l'.core.state.released mode ≠ .free := h.state ▸ hfree
    simp only [Lock.release, Core.release_of_not_free hfree, Core.release_of_not_free hfree']
    exact ⟨{ h with
      state := congrArg (State.released · mode) h.state
      stats := congrArg Stats.countReleased h.stats
      unended := congrArg (fun list => list.filter (fun g => g.1 != id) ++ []) h.unended }, .nil⟩

section RunLists

variable {n n' : Nat} (hp : Pairs p.thread n n') {t t' : ThreadId} (ht : p.thread t t')
include hp ht

theorem isDispatching : l'.isDispatching t' = l.isDispatching t := h.runLists.any hp ht

omit hp in
theorem openRunList {batch batch' : List (Request Entry)}
    (hbatch : Queue.Echoes s x p batch batch') :
    (l.openRunList t batch).Echoes s x p (l'.openRunList t' batch') :=
  { h with runLists := List.rel_append h.runLists (.cons ⟨ht, hbatch⟩ .nil) }

/-- A batch joins the run list of the thread in both runs, or opens one in both. -/
theorem schedule {batch batch' : List (Request Entry)}
    (hbatch : Queue.Echoes s x p batch batch') :
    (l.schedule t batch).1.Echoes s x p (l'.schedule t' batch').1 ∧
      (l'.schedule t' batch').2 = (l.schedule t batch).2 := by
  unfold Lock.schedule
  rw [h.isDispatching hp ht]
  cases l.isDispatching t with
  | false => exact ⟨h.openRunList ht hbatch, rfl⟩
  | true => exact ⟨{ h with runLists := h.runLists.deferTo hp ht hbatch }, rfl⟩

/-- The next deferred request is the same one in both runs. -/
theorem next :
    Option.Rel (fun found found' : Request Entry × Lock Entry =>
        found.1.Echoes s x p found'.1 ∧ found.2.Echoes s x p found'.2)
      (l.next t) (l'.next t') := by
  have htaken := h.runLists.takeFrom hp ht
  unfold Lock.next
  -- taken out in both runs or in none, which the two cases of the relation say
  revert htaken
  generalize Lock.takeFrom t _ = found
  generalize Lock.takeFrom t' _ = found'
  rintro (⟨hr, hd⟩ | _)
  · exact .some ⟨hr, { h with runLists := hd }⟩
  · exact .none

/-- A thread gives up the same run list in both runs. -/
theorem close :
    (l.close t).1.Echoes s x p (l'.close t').1 ∧
      Queue.Echoes s x p (l.close t).2 (l'.close t').2 :=
  ⟨{ h with runLists := h.runLists.erase hp ht }, h.runLists.deferred hp ht rfl rfl⟩

end RunLists

end Lock.Echoes

end Lemmas

end FairLock
