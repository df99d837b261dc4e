import FairLock.Proofs.Echo.Machines

/-!
# Lock instances are independent

Two sides share a run.  Each of them touches only its own locks, through handles, futures, kept
capabilities and counters of its own.  Their operations follow each other at top level in any order,
and operations of the inner side are also performed inside of entry points of the outer one,
wherever a list of the outer side has them.  All that each side gets to see, and all that becomes of
its locks, is then what the side alone would have made of it: which thread is working off which run
list is decided by lock, so what is on the stack for the locks of one side means nothing to those of
the other.

## Main definitions

- `Joint`: a run that two sides share.
- `Sides.Fits`: what the procedures and the first handles are in the three runs.
- `Accord`: in the joint run it is for each side as if the side were alone.

## Main statements

- `Joint.duet`: a joint run is played by the machines of both sides.
- `Joint.accord_of_idle`: where a joint run ends, each side alone ends.
- `lock_instances_independent`: no side notices the other one.
-/

namespace FairLock

/-! ## Joint runs -/

/-- A run that two sides share: what was performed for the outer side at top level and for the inner
    side anywhere, the latest first; who is on the move; and the machine.  The handles that come
    about are numbered as the sides say. -/
inductive Joint (s : Sides) (w : World) :
    List Action → List Action → Phase → Machine → Prop where
  | start : Joint s w [] [] .outer (.idle w)
  /-- The outer side performs an operation at top level. -/
  | callOuter {calls ops : List Action} {phase : Phase} {m : Machine} (call : Action)
      (h : Joint s w calls ops phase m) (hidle : m.isIdle = true)
      (hassigns : s.Assigns (Machine.begin m.world call).world) :
      Joint s w (call :: calls) ops .outer (.begin m.world call)
  /-- The inner side performs an operation at top level. -/
  | callInner {calls ops : List Action} {phase : Phase} {m : Machine} (op : Action)
      (h : Joint s w calls ops phase m) (hidle : m.isIdle = true)
      (hassigns : s.Assigns (Machine.begin m.world op).world) :
      Joint s w calls (op :: ops) (.inner 0) (.begin m.world op)
  | stepOuter {calls ops : List Action} {m : Machine} (h : Joint s w calls ops .outer m)
      (hopens : ∀ op, ¬ m.Opens s op) (hassigns : s.Assigns m.step.world) :
      Joint s w calls ops .outer m.step
  | stepInner {calls ops : List Action} {k : Nat} {m : Machine}
      (h : Joint s w calls ops (.inner k) m) (hk : k < m.frames.length)
      (hassigns : s.Assigns m.step.world) : Joint s w calls ops (.inner k) m.step
  /-- An operation of the inner side is begun inside of a list of the outer one. -/
  | enter {calls ops : List Action} {phase : Phase} {m : Machine} {op : Action}
      (h : Joint s w calls ops phase m) (hover : phase.IsOver m) (hopens : m.Opens s op)
      (hassigns : s.Assigns m.step.world) :
      Joint s w calls (op :: ops) (.inner m.frames.length) m.step
  /-- The operation has returned, and the outer side goes on with its list. -/
  | leave {calls ops : List Action} {k : Nat} {m : Machine} {r : Reply}
      (h : Joint s w calls ops (.inner k) m) (hk : m.frames.length = k) (hframes : m.frames ≠ [])
      (hcontrol : m.control = .returned r) (hopens : ∀ op, ¬ m.Opens s op)
      (hassigns : s.Assigns m.step.world) : Joint s w calls ops .outer m.step

/-- The locks are there from the start, with a handle each.  Every run has procedures of its own:
    those of a side are stripped of what is the other side's. -/
structure Sides.Fits (s : Sides) (configs : List Config)
    (procedures outerProcedures innerProcedures : Table (List Action)) : Prop where
  shared : s.shared = configs.length
  handle : ∀ n < configs.length, s.handle n = s.lock n
  outer : Procedures s .outer procedures outerProcedures
  inner : Procedures s .inner procedures innerProcedures

/-! ## The start -/

/-- The world in which a script begins, component by component. -/
theorem World.initial_eq (configs : List Config) (procedures : Table (List Action)) :
    World.initial configs procedures =
      { locks := configs.map fun config => { config := config }
        handles := (List.range configs.length).map some
        procedures := procedures
        history :=
          ((List.range configs.length).map fun id => Event.notice (.created id) []).reverse } := by
  unfold World.initial
  -- the locks are created one after the other, so the last one is added to what is there
  induction configs using List.reverseRecOn with
  | nil => rfl
  | append_singleton configs config ih =>
    rw [List.foldl_append, ih]
    simp [World.create, World.notify, World.emit, List.range_succ]

section Start

variable {s : Sides} {configs : List Config}

/-- The first thread of one run is that of another, and no channel is there yet. -/
def Pairing.first : Pairing := ⟨fun _ _ => False, fun t t' => t = 0 ∧ t' = 0⟩

theorem lockOf?_initial {procedures : Table (List Action)} (n : Nat) :
    (World.initial configs procedures).lockOf? n = if n < configs.length then some n else none := by
  rw [World.initial_eq]
  unfold World.lockOf?
  split <;> simp_all

theorem Mirrors.initial {x : Side} {procedures procedures' : Table (List Action)}
    (hshared : s.shared = configs.length) (hprocedures : Procedures s x procedures procedures') :
    Mirrors s x .first (.initial configs procedures) (.initial configs procedures') where
  locks := by simp [World.initial_eq]
  lock := by
    intro id _
    -- a lock that was just created depends on its settings only, and these are shared
    obtain ⟨config, hlock⟩ := ((World.justCreated_initial configs procedures).fresh id).lock
    have hsame : (World.initial configs procedures').lock id =
        (World.initial configs procedures).lock id := by
      simp [World.initial_eq, World.lock]
    have hfresh : (World.initial configs procedures).lock id = { config := config } := hlock
    rw [hsame, hfresh]
    exact ⟨rfl, rfl, .nil, rfl, rfl, rfl, .nil⟩
  handles := by
    have hnumber : s.number x configs.length = configs.length := Sides.number_of_shared hshared.ge
    simp [World.initial_eq, hnumber]
  handle := by
    intro n _
    rw [lockOf?_initial, lockOf?_initial]
    -- a handle that both sides share keeps its number, and a later one means nothing yet
    by_cases hn : n < configs.length
    · rw [Sides.number_of_shared (hshared ▸ Nat.le_of_lt hn)]
    · have hle : configs.length ≤ s.number x n :=
        hshared ▸ Sides.shared_le_number (hshared ▸ Nat.le_of_not_lt hn)
      rw [if_neg hn, if_neg (Nat.not_lt.2 hle)]
  procedures := by
    rw [World.initial_eq, World.initial_eq]
    exact hprocedures
  store := by
    intro name _
    simp only [World.initial_eq, Table.get?_nil]
    exact ⟨rfl, fun g hg => by cases hg⟩
  owned := by simp [World.initial_eq]
  channels := ⟨fun h => h.elim, fun h => h.elim⟩
  channel h := h.elim
  future := by
    intro name _
    simp only [World.initial_eq, Table.get?_nil]
    exact .none
  count := by simp [World.initial_eq, World.countOf]
  threads := by
    simp only [World.initial_eq]
    constructor
    · rintro t t' ⟨rfl, rfl⟩
      exact ⟨Nat.zero_lt_one, Nat.zero_lt_one⟩
    · rintro t t' t'' t''' ⟨rfl, rfl⟩ ⟨rfl, rfl⟩
      exact ⟨fun _ => rfl, fun _ => rfl⟩

/-- At the start both sides are alone, each in a world of its own. -/
theorem Duet.start {procedures outerProcedures innerProcedures : Table (List Action)}
    (hfits : s.Fits configs procedures outerProcedures innerProcedures) :
    Duet s .outer (.idle (.initial configs procedures)) (.idle (.initial configs outerProcedures))
      (.idle (.initial configs innerProcedures)) := by
  -- only the handles of the created locks mean anything, and the sides fit these
  have hassigns : s.Assigns (.initial configs procedures) := by
    refine ⟨by simp [World.initial_eq, hfits.shared], ?_⟩
    intro n id hid
    rw [lockOf?_initial] at hid
    split at hid
    · rename_i hn
      cases hid
      exact (hfits.handle n hn).symm
    · cases hid
  refine .outer (p := .first) (q := .first) ⟨.initial hfits.shared hfits.outer,
    .initial hfits.shared hfits.inner, fun h => h.elim, ?_, hassigns, ?_⟩ .nil rfl rfl
  · simp [World.initial_eq, Machine.idle, Pairing.first]
  -- what was reported so far are the creations, which both sides have
  · simp only [World.initial_eq, Machine.idle]
    refine .created ?_
    simp

end Start

/-! ## What a side gets to see -/

/-- One thing for each side. -/
def Side.pick {α : Type} (outer inner : α) : Side → α
  | .outer => outer
  | .inner => inner

/-- A lock is in one run what it is in another one, up to what its requests will start. -/
structure Lock.Agrees (l l' : Lock Entry) : Prop where
  config : l'.config = l.config
  state : l'.state = l.state
  queue : l'.core.queue.map (fun r => (r.id, r.mode)) = l.core.queue.map fun r => (r.id, r.mode)
  /-- The number of the next grant. -/
  nextId : l'.core.nextId = l.core.nextId
  stats : l'.stats = l.stats
  unended : l'.unended = l.unended

/-- In the joint run it is for each side as if the side were alone. -/
structure Accord (s : Sides) (phase : Phase) (m a b : Machine) : Prop where
  lock : ∀ id, (m.world.lock id).Agrees (((s.lock id).pick a b).world.lock id)
  /-- What has happened to a lock, in this order. -/
  journal : ∀ id, List.Forall₂ (Event.Echoes s (s.lock id)) (m.world.journal id)
    (((s.lock id).pick a b).world.journal id)
  /-- The entry points of a lock were started in the same order. -/
  started : ∀ id, (((s.lock id).pick a b).world.journal id).started = (m.world.journal id).started
  /-- All that has happened, with the answers that were logged, has happened for either side.  While
      an operation of the inner side is performed, the outer side may still have to log one
      answer. -/
  told : ∃ due, due.length ≤ 1 ∧ (a.isIdle = true → due = []) ∧
    Merges s .outer m.world.history (due ++ a.world.history) b.world.history
  /-- The outer side on the move has the same stack, and is given the same answer. -/
  outer : phase = .outer → a.frames.length = m.frames.length ∧
    a.control = m.control.alone s .outer
  /-- So has the inner one, on top of what waits below it. -/
  inner : ∀ k, phase = .inner k → b.frames.length + k = m.frames.length ∧
    b.control = m.control.alone s .inner
  /-- When the joint run has come to its end, so have those of both sides. -/
  idle : m.isIdle = true → a.isIdle = true ∧ b.isIdle = true

section Accord

variable {s : Sides} {x : Side} {p : Pairing}

theorem Lock.Echoes.agrees {l l' : Lock Entry} (h : l.Echoes s x p l') : l.Agrees l' where
  config := h.config
  state := h.state
  queue := h.queue.unended
  nextId := h.nextId
  stats := h.stats
  unended := h.unended

/-- An event of a side is about the same lock in both runs, and the lock is one of the side. -/
theorem Event.Echoes.lock? {e e' : Event} (h : e.Echoes s x e') :
    e'.lock? = e.lock? ∧ ∀ id, e.lock? = some id → s.lock id = x := by
  cases h with
  | notice _ _ hn => exact ⟨rfl, fun id hid => by cases hid; exact hn⟩
  | issued _ _ hg => exact ⟨rfl, fun id hid => by cases hid; exact hg⟩
  | started _ _ _ hg => exact ⟨rfl, fun id hid => by cases hid; exact hg⟩
  | @discarded g _ hg =>
    cases g with
    | none => exact ⟨rfl, fun id hid => by cases hid⟩
    | some g => exact ⟨rfl, fun id hid => by cases hid; exact hg g rfl⟩
  | _ => exact ⟨rfl, fun id hid => by cases hid⟩

theorem Event.Echoes.started? {e e' : Event} (h : e.Echoes s x e') : e'.started? = e.started? := by
  cases h <;> rfl

/-- The part of a history that is about a lock of a side is that of the side. -/
theorem Merges.about {h k l : List Event} (hm : Merges s x h k l) {id : LockId}
    (hid : s.lock id = x) :
    List.Forall₂ (Event.Echoes s x) (h.filter fun e => e.lock? == some id)
      (k.filter fun e => e.lock? == some id) := by
  -- down the merged history: shared creations, events of the side, events of the other, and answers
  induction hm with
  | created hpast =>
    rw [List.forall₂_same]
    intro e he
    obtain ⟨hmem, habout⟩ := List.mem_filter.1 he
    obtain ⟨id', rfl⟩ := hpast e hmem
    obtain rfl : id' = id := by simpa [Event.lock?, Notice.lock] using habout
    exact .notice _ _ hid
  | own he _ ih =>
    rw [List.filter_cons, List.filter_cons, he.lock?.1]
    split
    · exact .cons he ih
    · exact ih
  | @other e _ _ _ _ he _ ih =>
    -- an event of the other side is about no lock of this one
    have hnot : (e.lock? == some id) = false := by
      rw [beq_eq_false_iff_ne]
      intro hlock
      exact x.other_ne ((he.lock?.2 id hlock).symm.trans hid)
    rw [List.filter_cons, hnot]
    exact ih
  | answer hop tag r _ ih => exact ih

theorem Journal.started_of_echoes {j j' : Journal} (h : List.Forall₂ (Event.Echoes s x) j j') :
    j'.started = j.started := by
  induction h with
  | nil => rfl
  | cons he _ ih =>
    dsimp only [Journal.started] at ih ⊢
    rw [occurrences_cons, occurrences_cons, he.started?, ih]

/-- A machine that waits has at most one answer to log, and has done everything else. -/
theorem Waits.world {v : World} {below : List Frame} {a : Machine} (h : Waits s p v below a) :
    (∀ id, v.lock id = a.world.lock id) ∧ (∀ id, v.journal id = a.world.journal id) ∧
      ∃ due : List Event, due.length ≤ 1 ∧ (a.isIdle = true → due = []) ∧
        v.history = due ++ a.world.history := by
  cases h with
  | idle h => exact ⟨fun _ => rfl, fun _ => rfl, [], Nat.zero_le _, fun _ => rfl, rfl⟩
  | @pursuing _ _ P' _ _ _ _ v _ hop last' r' hP hrest hbelow =>
    -- a machine with a frame on its stack is not idle, so its answer may still be due
    have hbusy : ∀ f below c, Machine.isIdle ⟨v, f :: below, c⟩ = false := by
      intro f below c
      cases c <;> rfl
    unfold World.logReply
    cases last' with
    | none => exact ⟨fun _ => rfl, fun _ => rfl, [], Nat.zero_le _, fun _ => rfl, rfl⟩
    | some word =>
      dsimp only
      split
      · exact ⟨fun _ => rfl, fun _ => rfl, [], Nat.zero_le _, fun _ => rfl, rfl⟩
      · refine ⟨fun _ => rfl, fun _ => rfl, [.acted P'.context.tag word r'], Nat.le_refl _, ?_, rfl⟩
        intro hidle
        rw [hbusy] at hidle
        cases hidle

/-- What has become of a lock, and what has happened to it, is in the run of its side alone what it
    is in the joint run. -/
theorem Echoes.sees {q : Pairing} {w v u : World} (h : FairLock.Echoes s x p q w v u)
    (id : LockId) :
    (s.lock id = x → (w.lock id).Agrees (v.lock id) ∧
        List.Forall₂ (Event.Echoes s x) (w.journal id) (v.journal id)) ∧
      (s.lock id = x.other → (w.lock id).Agrees (u.lock id) ∧
        List.Forall₂ (Event.Echoes s x.other) (w.journal id) (u.journal id)) := by
  constructor
  · exact fun hid => ⟨(h.own.lock id hid).agrees, h.told.about hid⟩
  · exact fun hid => ⟨(h.other.lock id hid).agrees, h.told.swap.about hid⟩

/-- Machines that play together are in accord. -/
theorem Duet.accord {phase : Phase} {m a b : Machine} (h : Duet s phase m a b) :
    Accord s phase m a b := by
  -- all that is said of single locks is the same for whoever is on the move
  have hlocks : ∀ id, (m.world.lock id).Agrees (((s.lock id).pick a b).world.lock id) ∧
      List.Forall₂ (Event.Echoes s (s.lock id)) (m.world.journal id)
        (((s.lock id).pick a b).world.journal id) := by
    intro id
    cases h with
    | outer hworld hframes hcontrol hb =>
      cases hid : s.lock id with
      | outer => exact (hworld.sees id).1 hid
      | inner => exact (hworld.sees id).2 hid
    | inner hworld hframes hm hcontrol hwaits houter hinner =>
      obtain ⟨hlock, hjournal, -⟩ := hwaits.world
      cases hid : s.lock id with
      | outer =>
        have hseen := (hworld.sees id).2 hid
        rwa [hlock, hjournal] at hseen
      | inner => exact (hworld.sees id).1 hid
  refine ⟨fun id => (hlocks id).1, fun id => (hlocks id).2,
    fun id => Journal.started_of_echoes (hlocks id).2, ?_, ?_, ?_, h.idle⟩
  all_goals clear hlocks
  · cases h with
    | outer hworld hframes hcontrol hb =>
      exact ⟨[], Nat.zero_le _, fun _ => rfl, hworld.told⟩
    | inner hworld hframes hm hcontrol hwaits houter hinner =>
      obtain ⟨-, -, due, hlength, hidle, hhistory⟩ := hwaits.world
      refine ⟨due, hlength, hidle, ?_⟩
      rw [← hhistory]
      exact hworld.told.swap
  · rintro rfl
    cases h with
    | outer hworld hframes hcontrol hb => exact ⟨hframes.length_eq.symm, hcontrol⟩
  · rintro k rfl
    cases h with
    | inner hworld hframes hm hcontrol hwaits houter hinner =>
      refine ⟨?_, hcontrol⟩
      rw [hm, List.length_append, hframes.length_eq]

end Accord

/-! ## Runs -/

/-- A joint run is played by the machines of both sides, each of which performs nothing but the
    operations of its own side. -/
theorem Joint.duet {s : Sides} {configs : List Config}
    {procedures outerProcedures innerProcedures : Table (List Action)}
    (hfits : s.Fits configs procedures outerProcedures innerProcedures)
    {calls ops calls' ops' : List Action} {phase : Phase} {m : Machine}
    (h : Joint s (.initial configs procedures) calls ops phase m)
    (hcalls : List.Forall₂ (Action.Echoes s .outer .top) calls calls')
    (hops : List.Forall₂ (Action.Echoes s .inner .top) ops ops') :
    ∃ a b, Solo (.initial configs outerProcedures) calls' a ∧
      Solo (.initial configs innerProcedures) ops' b ∧ Duet s phase m a b := by
  -- along the joint run; each move of it is a move of one of the two machines, or of none
  induction h generalizing calls' ops' with
  | start =>
    cases hcalls
    cases hops
    exact ⟨_, _, .start, .start, .start hfits⟩
  | callOuter call _ hidle hassigns ih =>
    cases hcalls with
    | cons hcall hcalls =>
      obtain ⟨a, b, ha, hb, hduet⟩ := ih hcalls hops
      exact ⟨_, b, .call _ ha (hduet.idle hidle).1, hb, hduet.callOuter hidle hb hcall hassigns⟩
  | callInner op _ hidle hassigns ih =>
    cases hops with
    | cons hop hops =>
      obtain ⟨a, b, ha, hb, hduet⟩ := ih hcalls hops
      exact ⟨a, _, ha, .call _ hb (hduet.idle hidle).2, hduet.callInner hidle hb hop hassigns⟩
  | stepOuter _ hopens hassigns ih =>
    obtain ⟨a, b, ha, hb, hduet⟩ := ih hcalls hops
    exact ⟨_, b, .step ha, hb, hduet.step hopens hassigns⟩
  | stepInner _ hk hassigns ih =>
    obtain ⟨a, b, ha, hb, hduet⟩ := ih hcalls hops
    exact ⟨a, _, ha, .step hb, hduet.stepInner hk hassigns⟩
  -- an operation that is entered is called in the machine of the inner side
  | enter _ hover hopens hassigns ih =>
    cases hops with
    | cons hop hops =>
      obtain ⟨a, b, ha, hb, hduet⟩ := ih hcalls hops
      obtain ⟨hidle, hduet'⟩ := hduet.enter hover hopens hb hop hassigns
      exact ⟨a, _, ha, .call _ hb hidle, hduet'⟩
  | leave _ hk hframes hcontrol hopens hassigns ih =>
    obtain ⟨a, b, ha, hb, hduet⟩ := ih hcalls hops
    exact ⟨_, b, .step ha, hb, hduet.leave hk hframes hcontrol hopens hb hassigns⟩

/-- The end of a joint run is in accord with the ends of both sides, however these were come to. -/
theorem Joint.accord_of_idle {s : Sides} {configs : List Config}
    {procedures outerProcedures innerProcedures : Table (List Action)}
    (hfits : s.Fits configs procedures outerProcedures innerProcedures)
    {calls ops calls' ops' : List Action} {phase : Phase} {m a b : Machine}
    (h : Joint s (.initial configs procedures) calls ops phase m)
    (hcalls : List.Forall₂ (Action.Echoes s .outer .top) calls calls')
    (hops : List.Forall₂ (Action.Echoes s .inner .top) ops ops') (hm : m.isIdle = true)
    (ha : Solo (.initial configs outerProcedures) calls' a) (haidle : a.isIdle = true)
    (hb : Solo (.initial configs innerProcedures) ops' b) (hbidle : b.isIdle = true) :
    Accord s phase m a b := by
  -- the machines that play the run are these, as a machine alone has only one way to go
  obtain ⟨a', b', ha', hb', hduet⟩ := h.duet hfits hcalls hops
  obtain ⟨haidle', hbidle'⟩ := hduet.accord.idle hm
  obtain rfl := ha'.unique ha haidle' haidle
  obtain rfl := hb'.unique hb hbidle' hbidle
  exact hduet.accord

/-- Nothing is opened by a machine whose next action, if it has one, is no operation of the inner
    side. -/
theorem Machine.not_opens {s : Sides} {m : Machine}
    (h : ∀ a, m.frames.head?.bind Frame.next? = some a → ¬ s.block a) (op : Action) :
    ¬ m.Opens s op := by
  rintro ⟨hblock⟩
  rename_i w P last rest below r
  cases P <;> exact h op rfl hblock

namespace Joint

variable {s : Sides} {w : World} {calls ops : List Action} {m : Machine}

/-- The outer side makes any number of steps. -/
theorem stepsOuter (h : Joint s w calls ops .outer m) (n : Nat)
    (hsteps : ∀ i < n, (Machine.step^[i] m).frames.head?.bind Frame.next? = none ∧
      s.Assigns (Machine.step^[i + 1] m).world) :
    Joint s w calls ops .outer (Machine.step^[n] m) := by
  -- a step at a time, since what may be stepped over is asked of every machine on the way
  induction n with
  | zero => exact h
  | succ n ih =>
    obtain ⟨hnext, hassigns⟩ := hsteps n (Nat.lt_succ_self n)
    have hbefore := ih fun i hi => hsteps i (Nat.lt_succ_of_lt hi)
    rw [Function.iterate_succ_apply'] at hassigns ⊢
    refine hbefore.stepOuter (Machine.not_opens ?_) hassigns
    intro a ha
    rw [hnext] at ha
    cases ha

/-- So does the inner one. -/
theorem stepsInner {k : Nat} (h : Joint s w calls ops (.inner k) m) (n : Nat)
    (hsteps : ∀ i < n, k < (Machine.step^[i] m).frames.length ∧
      s.Assigns (Machine.step^[i + 1] m).world) :
    Joint s w calls ops (.inner k) (Machine.step^[n] m) := by
  -- the same for the inner side, which has to stay above the frames of the outer one
  induction n with
  | zero => exact h
  | succ n ih =>
    obtain ⟨hk, hassigns⟩ := hsteps n (Nat.lt_succ_self n)
    have hbefore := ih fun i hi => hsteps i (Nat.lt_succ_of_lt hi)
    rw [Function.iterate_succ_apply'] at hassigns ⊢
    exact hbefore.stepInner hk hassigns

end Joint

/-- No side notices the other one.  Two sides with locks of their own share a run, in which their
    operations follow each other in any order, and in which operations of the inner side are also
    performed inside of entry points of the outer one, from which no panic of theirs escapes.  At
    every moment of it, each side alone has performed the same operations in the same order and
    stands where it stands there: its operations were given the same answers, its entry points were
    started in the same order, and its locks have the same states, queues, grant numbers and
    counters.  Where a side alone ends is determined, see `Joint.accord_of_idle`. -/
theorem lock_instances_independent {s : Sides} {configs : List Config}
    {procedures outerProcedures innerProcedures : Table (List Action)}
    (hfits : s.Fits configs procedures outerProcedures innerProcedures)
    {calls ops calls' ops' : List Action} {phase : Phase} {m : Machine}
    (h : Joint s (.initial configs procedures) calls ops phase m)
    (hcalls : List.Forall₂ (Action.Echoes s .outer .top) calls calls')
    (hops : List.Forall₂ (Action.Echoes s .inner .top) ops ops') :
    ∃ a b, Solo (.initial configs outerProcedures) calls' a ∧
      Solo (.initial configs innerProcedures) ops' b ∧ Accord s phase m a b := by
  obtain ⟨a, b, ha, hb, hduet⟩ := h.duet hfits hcalls hops
  exact ⟨a, b, ha, hb, hduet.accord⟩

/-! ## A submission inside an entry point of another lock -/

/-- A submission to the second of two locks. -/
def nestedSubmission : Action := .submit 1 .write "b" (.actions []) .done false

/-- An entry point of the first one that makes it, and then goes on. -/
def nestingEntry : Action :=
  .submit 0 .write "a" (.actions [nestedSubmission, .log .null]) .done false

/-- The same entry point in the run of the first lock alone. -/
def nestingEntryAlone : Action := .submit 0 .write "a" (.actions [.log .null]) .done false

/-- Each of the two locks has a side of its own. -/
def twoSides : Sides where
  lock id := if id = 0 then .outer else .inner
  shared := 2
  handle n := if n = 0 then .outer else .inner
  name n := if n = "a" then .outer else .inner
  counter _ := .outer
  procedure _ := .outer
  reach _ := .top
  block a := a = nestedSubmission

theorem twoSides_assigns {w : World} (h : w.handles = [some 0, some 1]) : twoSides.Assigns w := by
  refine ⟨h ▸ Nat.le_refl 2, ?_⟩
  intro n id hid
  unfold World.lockOf? at hid
  rw [h] at hid
  rcases n with _ | _ | n
  · cases hid
    rfl
  · cases hid
    rfl
  · cases hid

/-- The machine that performs the entry point on two fresh locks, after some steps. -/
def nestingAfter (n : Nat) : Machine :=
  Machine.step^[n] (.begin (.initial [{}, {}] []) nestingEntry)

/-- The submission is made inside of the entry point, and afterwards somebody asks the second lock
    for its counters at top level. -/
theorem joint_nesting :
    Joint twoSides (.initial [{}, {}] []) [nestingEntry] [.stats 1, nestedSubmission] (.inner 0)
      (.begin (nestingAfter 12).world (.stats 1)) := by
  have hbegun : Joint twoSides (.initial [{}, {}] []) [nestingEntry] [] .outer (nestingAfter 0) :=
    .callOuter nestingEntry .start rfl (twoSides_assigns rfl)
  have hentered : Joint twoSides (.initial [{}, {}] []) [nestingEntry] [nestedSubmission]
      (.inner 4) (nestingAfter 1) :=
    .enter hbegun trivial (.intro (P := .actions _) rfl) (twoSides_assigns rfl)
  -- while the operation runs, its frames lie above those of the entry point around it
  have hreturned : Joint twoSides (.initial [{}, {}] []) [nestingEntry] [nestedSubmission]
      (.inner 4) (nestingAfter 6) := by
    refine hentered.stepsInner 5 fun i hi => ?_
    have hsteps : ∀ i < 5, 4 < (Machine.step^[i] (nestingAfter 1)).frames.length ∧
        (Machine.step^[i + 1] (nestingAfter 1)).world.handles = [some 0, some 1] := by decide
    exact ⟨(hsteps i hi).1, twoSides_assigns (hsteps i hi).2⟩
  have hleft : Joint twoSides (.initial [{}, {}] []) [nestingEntry] [nestedSubmission]
      .outer (nestingAfter 7) := by
    refine hreturned.leave (r := .ok) rfl (fun h => by cases h) rfl (Machine.not_opens ?_)
      (twoSides_assigns rfl)
    intro a ha
    have hlog : (nestingAfter 6).frames.head?.bind Frame.next? = some (.log .null) := rfl
    rw [hlog] at ha
    cases ha
    exact fun h => by cases h
  -- what follows are steps of the outer side until it is idle
  have hdone : Joint twoSides (.initial [{}, {}] []) [nestingEntry] [nestedSubmission]
      .outer (nestingAfter 12) := by
    refine hleft.stepsOuter 5 fun i hi => ?_
    have hsteps : ∀ i < 5,
        ((Machine.step^[i] (nestingAfter 7)).frames.head?.bind Frame.next?).isNone = true ∧
          (Machine.step^[i + 1] (nestingAfter 7)).world.handles = [some 0, some 1] := by decide
    exact ⟨Option.isNone_iff_eq_none.1 (hsteps i hi).1, twoSides_assigns (hsteps i hi).2⟩
  exact .callInner (.stats 1) hdone rfl (twoSides_assigns rfl)

/-- Neither lock notices the other one there. -/
theorem lock_instances_independent_nested :
    twoSides.Fits [{}, {}] [] [] [] ∧
      Joint twoSides (.initial [{}, {}] []) [nestingEntry] [.stats 1, nestedSubmission] (.inner 0)
        (.begin (nestingAfter 12).world (.stats 1)) ∧
      ∃ a b, Solo (.initial [{}, {}] []) [nestingEntryAlone] a ∧
        Solo (.initial [{}, {}] []) [.stats 1, nestedSubmission] b ∧
        Accord twoSides (.inner 0) (.begin (nestingAfter 12).world (.stats 1)) a b := by
  have hfits : twoSides.Fits [{}, {}] [] [] [] :=
    ⟨rfl, fun _ _ => rfl, fun _ _ => .nil, fun _ _ => .nil⟩
  have hzero : twoSides.number .outer 0 = 0 := Sides.number_of_shared (by decide)
  have hone : twoSides.number .inner 1 = 1 := Sides.number_of_shared (by decide)
  -- alone, the outer side has the submission stripped off its list
  have hcall : nestingEntry.Echoes twoSides .outer .top nestingEntryAlone := by
    have hlist :
        Strips twoSides .outer ⟨true, true⟩ [nestedSubmission, .log .null] [.log .null] := by
      refine .strip rfl rfl (fun h => by cases h) (.keep ?_ (.log .null) .nil)
      rintro ⟨-, h⟩
      cases h
    have hsubmit : nestingEntry.Echoes twoSides .outer .top
        (.submit (twoSides.number .outer 0) .write "a" (.actions [.log .null]) .done false) :=
      .submit .write .done false rfl (fun _ => rfl) (.actions hlist)
    rwa [hzero] at hsubmit
  have hop : nestedSubmission.Echoes twoSides .inner .top nestedSubmission := by
    have hentry : Body.Echoes twoSides .inner ⟨true, true⟩ (.actions []) (.actions []) :=
      .actions .nil
    have hsubmit : nestedSubmission.Echoes twoSides .inner .top
        (.submit (twoSides.number .inner 1) .write "b" (.actions []) .done false) :=
      .submit .write .done false rfl (fun _ => rfl) hentry
    rwa [hone] at hsubmit
  have hasked : Action.Echoes twoSides .inner .top (.stats 1) (.stats 1) := by
    have hstats : Action.Echoes twoSides .inner .top (.stats 1)
        (.stats (twoSides.number .inner 1)) := .stats rfl
    rwa [hone] at hstats
  exact ⟨hfits, joint_nesting, lock_instances_independent hfits joint_nesting
    (.cons hcall .nil) (.cons hasked (.cons hop .nil))⟩

end FairLock
