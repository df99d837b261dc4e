import FairLock.Proofs.Machine.Beside

/-!
# Two runs beside each other

An entry point fails in one run, and in another one it ends its grant and succeeds.  From then on
the two runs differ in their pasts, in one counter, and in the answer to one submission, which is
the failure in the one and `ok` in the other.  That answer may still be on its way down the stack,
a loop may keep it until it has worked off its run list, or it has arrived somewhere and was logged
or dropped.  Whatever is done in both runs, they stay alike.

## Main definitions

- `World.retold`: a world with more in its past, and with one more failure on one lock.
- `Heedless`: nobody decides anything by the answer that is passed down a stack.
- `Told`: what was recorded in the two runs since they parted.
- `Machine.Alike`: the two machines of such runs.

## Main statements

- `Machine.Alike.follow`: two machines that are alike stay alike.
-/

namespace FairLock

/-! ## Another past -/

/-- The world with more in its past, and with one more failure on one lock. -/
def World.retold (w : World) (blame : Option LockId) (past : List Event) : World :=
  { w with
    locks :=
      match blame with
      | none => w.locks
      | some id => w.locks.modify id Lock.countFailure
    history := w.history ++ past }

/-- The move into a world that is told with another past. -/
def Move.retold (m : Move) (blame : Option LockId) (past : List Event) : Move :=
  { m with world := m.world.retold blame past }

/-- One failure on one lock. -/
def blameTally (id : LockId) : LockId → Tally :=
  fun other => if other = id then { failures := 1 } else {}

namespace World

variable (w : World) (past : List Event)

theorem retold_none : w.retold none past = w.recast noTally past := by
  rw [recast_noTally]
  rfl

theorem retold_some (id : LockId) :
    w.retold (some id) past = w.recast (blameTally id) past := by
  simp only [retold, recast, World.mk.injEq, and_true]
  refine List.ext_getElem? ?_
  intro n
  simp only [List.getElem?_modify, List.getElem?_mapIdx, blameTally]
  by_cases hn : n = id
  · simp only [hn, ↓reduceIte]
    rfl
  · have hother : id ≠ n := fun h => hn h.symm
    simp [hn, hother]

/-- Both are ways to have other counters and another past. -/
theorem exists_recast (blame : Option LockId) :
    ∃ more : LockId → Tally, ∀ (w : World) past, w.retold blame past = w.recast more past := by
  cases blame with
  | none => exact ⟨noTally, retold_none⟩
  | some id => exact ⟨blameTally id, fun w past => retold_some w past id⟩

theorem dispatch_retold (blame : Option LockId) (lock : LockId) (outcome : Reply) :
    (w.retold blame past).dispatch lock outcome =
      (w.dispatch lock outcome).retold blame past := by
  obtain ⟨more, hmore⟩ := exists_recast blame
  simp only [Move.retold, hmore]
  exact dispatch_recast w more past lock outcome

theorem unwindDispatch_retold (blame : Option LockId) (lock : LockId) (fault : Fault) :
    (w.retold blame past).unwindDispatch lock fault =
      (w.unwindDispatch lock fault).retold blame past := by
  obtain ⟨more, hmore⟩ := exists_recast blame
  simp only [Move.retold, hmore]
  exact unwindDispatch_recast w more past lock fault

end World

/-! ## What is recorded, and what is passed down -/

/-- Two events that were recorded in the same place: one event, or an answer with counters, one of
    which has counted a failure more. -/
inductive Event.Alike : Event → Event → Prop where
  | same (e : Event) : Alike e e
  | asked (tag word : String) (s : Stats) :
      Alike (.acted tag word (.stats s.countFailure)) (.acted tag word (.stats s))

/-- Two histories that differ in counters, and in at most one place in the answer to a submission.
    The flag says whether there is such a place. -/
inductive Told (failure : Failure) : Bool → List Event → List Event → Prop where
  | nil : Told failure false [] []
  | event {answered : Bool} {e e' : Event} {new new' : List Event} (he : e.Alike e')
      (h : Told failure answered new new') : Told failure answered (e :: new) (e' :: new')
  | answer {new new' : List Event} (tag word : String) (h : Told failure false new new') :
      Told failure true (.acted tag word (.failed failure) :: new) (.acted tag word .ok :: new')

/-- What is passed down two stacks: the same, or counters on their way to a log. -/
inductive Control.Alike (frames : List Frame) : Control → Control → Prop where
  | same (c : Control) : Alike frames c c
  | asked (s : Stats) (h : Listens frames) :
      Alike frames (.returned (.stats s.countFailure)) (.returned (.stats s))

/-- Nobody on the stack decides anything by the answer that is passed down: it is logged, or kept by
    a loop that passes it on, or nobody looks at it. -/
def Heedless : List Frame → Prop
  | .acquiring _ _ :: _ => False
  | .awaiting _ _ _ :: _ => False
  | .dispatching _ none :: rest => Heedless rest
  | _ => True

/-- The machines of two runs that have parted with different pasts, because an entry point of a lock
    has failed in the first and not in the second.  Apart from the pasts they differ in one failure
    that is counted, and in the answer to one submission. -/
inductive Machine.Alike (id : LockId) (failure : Failure) (past past' : List Event) :
    Machine → Machine → Prop where
  /-- The answer was logged or dropped. -/
  | settled {u : World} {answered : Bool} {new new' : List Event} {frames : List Frame}
      {c c' : Control} (hu : u.history = []) (hnew : Told failure answered new new')
      (hc : c.Alike frames c') :
      Alike id failure past past' ⟨u.retold (some id) (new ++ past), frames, c⟩
        ⟨u.retold none (new' ++ past'), frames, c'⟩
  /-- The answer is passed down. -/
  | arriving {u : World} {new new' : List Event} {frames : List Frame} (hu : u.history = [])
      (hnew : Told failure false new new') (hframes : Heedless frames) :
      Alike id failure past past'
        ⟨u.retold (some id) (new ++ past), frames, .returned (.failed failure)⟩
        ⟨u.retold none (new' ++ past'), frames, .returned .ok⟩
  /-- The answer is kept by a loop, to be passed down after that. -/
  | kept {u : World} {new new' : List Event} {above below : List Frame} {lock : LockId}
      {c c' : Control} (hu : u.history = []) (hnew : Told failure false new new')
      (hc : c.Alike (above ++ .dispatching lock (some .ok) :: below) c') (hbelow : Heedless below) :
      Alike id failure past past'
        ⟨u.retold (some id) (new ++ past),
          above ++ .dispatching lock (some (.failed failure)) :: below, c⟩
        ⟨u.retold none (new' ++ past'), above ++ .dispatching lock (some .ok) :: below, c'⟩

namespace Told

variable {failure : Failure} {answered : Bool} {new new' : List Event}

theorem append (h : Told failure answered new new') {e e' : List Event}
    (he : List.Forall₂ Event.Alike e e') : Told failure answered (e ++ new) (e' ++ new') := by
  induction he with
  | nil => exact h
  | cons hfirst _ ih => exact .event hfirst ih

end Told

/-- What is recorded in both runs in the same way. -/
theorem Event.alike_refl (events : List Event) : List.Forall₂ Event.Alike events events := by
  induction events with
  | nil => exact .nil
  | cons e rest ih => exact .cons (.same e) ih

/-! ## Moves -/

/-- Two moves that lead from worlds that are alike to worlds that are alike, and put the same frames
    on the stack. -/
inductive Move.Alike (id : LockId) (past past' : List Event) (below : List Frame) :
    Move → Move → Prop where
  | intro {u : World} {e e' : List Event} {frames : List Frame} {c c' : Control}
      (hu : u.history = []) (he : List.Forall₂ Event.Alike e e')
      (hc : c.Alike (frames ++ below) c') :
      Alike id past past' below ⟨u.retold (some id) (e ++ past), frames, c⟩
        ⟨u.retold none (e' ++ past'), frames, c'⟩

section Raised

variable {id : LockId} {past past' : List Event} {below : List Frame}

theorem Event.Raised.alike {e e' : Event} (h : e.Raised (blameTally id) e') : e.Alike e' := by
  cases h with
  | same e => exact .same e
  | asked tag word lock s =>
    by_cases hlock : lock = id
    · rw [blameTally, if_pos hlock]
      exact .asked tag word s
    · rw [blameTally, if_neg hlock]
      exact .same _

theorem Control.Raised.alike {frames : List Frame} {c c' : Control}
    (h : c.Raised (blameTally id) frames c') : c.Alike frames c' := by
  cases h with
  | same c => exact .same c
  | asked lock s hframes =>
    by_cases hlock : lock = id
    · rw [blameTally, if_pos hlock]
      exact .asked s hframes
    · rw [blameTally, if_neg hlock]
      exact .same _

theorem Control.Alike.raised (id : LockId) {frames : List Frame} {c c' : Control}
    (h : c.Alike frames c') : c.Raised (blameTally id) frames c' := by
  cases h with
  | same c => exact .same c
  | asked s hframes =>
    have hasked : Control.Raised (blameTally id) frames
        (.returned (.stats (s.raised (blameTally id id)))) (.returned (.stats s)) :=
      .asked id s hframes
    rwa [blameTally, if_pos rfl] at hasked

/-- One failure is a counter that is higher. -/
theorem Move.Raised.alike {m m' : Move}
    (h : Move.Raised (blameTally id) past past' below m m') :
    Move.Alike id past past' below m m' := by
  cases h with
  | intro hu he hc =>
    rw [← World.retold_some, ← World.retold_none]
    exact .intro hu (he.imp fun _ _ => Event.Raised.alike) hc.alike

theorem Move.Alike.of_retold (m : Move) :
    Move.Alike id past past' below (m.retold (some id) past) (m.retold none past') := by
  simp only [Move.retold, World.retold_some, World.retold_none]
  exact (Move.Raised.of_recast m).alike

theorem Frame.pass_alike {u : World} {f : Frame} (hu : u.history = []) {c c' : Control}
    (hc : c.Alike (f :: below) c') :
    Move.Alike id past past' below (f.pass (u.retold (some id) past) c)
      (f.pass (u.retold none past') c') := by
  rw [World.retold_some, World.retold_none]
  exact (Frame.pass_raised hu (hc.raised id)).alike

/-- Where an answer is logged, it does not matter otherwise. -/
theorem Frame.pass_alike_apart {u : World} {f : Frame} (hu : u.history = [])
    (hf : Listens (f :: below)) (r r' : Reply) (hr : r.isNothing = false)
    (hr' : r'.isNothing = false) :
    Move.Alike id past past' below (f.pass (u.retold (some id) past) (.returned r))
        (f.pass (u.retold none past') (.returned r')) ∨
      ∃ tag word, Move.Alike id (.acted tag word r :: past) (.acted tag word r' :: past') below
        (f.pass (u.retold (some id) past) (.returned r))
        (f.pass (u.retold none past') (.returned r')) := by
  -- raising some counters may be told of; here nothing is raised but one failure of this lock
  simp only [World.retold_some, World.retold_none]
  refine (Frame.pass_raised_apart hu hf r r' hr hr').imp Move.Raised.alike ?_
  rintro ⟨tag, word, h⟩
  exact ⟨tag, word, h.alike⟩

end Raised

namespace Machine.Alike

variable {id : LockId} {failure : Failure} {past past' : List Event} {m m' : Machine}

section Step

variable {u : World} {new new' : List Event} {below : List Frame}

/-- Two moves in the same direction, the answer being settled. -/
theorem of_move {answered : Bool} {move move' : Move} (hnew : Told failure answered new new')
    (h : Move.Alike id (new ++ past) (new' ++ past') below move move') :
    Alike id failure past past' (ofMove move below) (ofMove move' below) := by
  cases h with
  | intro hu he hc =>
    have hboth : Alike id failure past past' _ _ := settled hu (hnew.append he) hc
    rwa [List.append_assoc, List.append_assoc] at hboth

/-- A loop goes on with the answer, or passes it on. -/
theorem dispatch (hu : u.history = []) (hnew : Told failure false new new') (lock : LockId)
    (hbelow : Heedless below) :
    Alike id failure past past'
      (ofMove ((u.retold (some id) (new ++ past)).dispatch lock (.failed failure)) below)
      (ofMove ((u.retold none (new' ++ past')).dispatch lock .ok) below) := by
  rw [World.dispatch_retold, World.dispatch_retold]
  unfold World.dispatch
  cases (u.lock lock).next u.thread with
  | none =>
    exact arriving (u := u.setLock lock ((u.lock lock).close u.thread).1) hu hnew hbelow
  | some found =>
    -- what the start of the next entry point records comes on top
    obtain ⟨r, l⟩ := found
    dsimp only
    generalize (u.setLock lock l).start lock r = move
    have hkept : Alike id failure past past'
        ⟨World.retold { move.world with history := [] } (some id)
            ((move.world.history ++ new) ++ past),
          move.frames ++ .dispatching lock (some (.failed failure)) :: below, move.control⟩
        ⟨World.retold { move.world with history := [] } none
            ((move.world.history ++ new') ++ past'),
          move.frames ++ .dispatching lock (some .ok) :: below, move.control⟩ :=
      kept rfl (hnew.append (Event.alike_refl _)) (.same _) hbelow
    simpa [ofMove, Move.retold, World.retold] using hkept

/-- The answer arrives at the topmost frame. -/
theorem step_arriving (hu : u.history = []) (hnew : Told failure false new new')
    (hframes : Heedless below) :
    Alike id failure past past'
      (step ⟨u.retold (some id) (new ++ past), below, .returned (.failed failure)⟩)
      (step ⟨u.retold none (new' ++ past'), below, .returned .ok⟩) := by
  have hlistens : ∀ f rest, below = f :: rest → Listens below → Alike id failure past past'
      (step ⟨u.retold (some id) (new ++ past), below, .returned (.failed failure)⟩)
      (step ⟨u.retold none (new' ++ past'), below, .returned .ok⟩) := by
    rintro f rest rfl hf
    rw [step_cons, step_cons]
    rcases Frame.pass_alike_apart hu hf (.failed failure) .ok rfl rfl with h | ⟨tag, word, h⟩
    · exact of_move hnew h
    · exact of_move (.answer tag word hnew) h
  -- most frames do not look at what is passed to them
  have hdeaf : ∀ f rest, below = f :: rest →
      (∀ w, f.resume w (.failed failure) = f.resume w .ok) → Alike id failure past past'
        (step ⟨u.retold (some id) (new ++ past), below, .returned (.failed failure)⟩)
        (step ⟨u.retold none (new' ++ past'), below, .returned .ok⟩) := by
    rintro f rest rfl hf
    rw [step_cons, step_cons]
    simp only [Frame.pass, hf]
    exact of_move hnew (Frame.pass_alike hu (.same (.returned .ok)))
  cases below with
  | nil => exact .arriving hu hnew trivial
  | cons f rest =>
    cases f with
    | actions context last rest => exact hlistens _ _ rfl trivial
    | working name work g last rest => exact hlistens _ _ rfl trivial
    | acquiring name c => exact hframes.elim
    | awaiting name work c => exact hframes.elim
    | concluding fault => exact hdeaf _ _ rfl fun w => by cases fault <;> rfl
    | iterating context times body => exact hdeaf _ _ rfl fun w => by cases times <;> rfl
    | dispatching lock outcome =>
      cases outcome with
      | some outcome => exact hdeaf _ _ rfl fun w => rfl
      | none => exact dispatch hu hnew lock hframes
    | _ => exact hdeaf _ _ rfl fun w => rfl

/-- A frame above the loop that keeps the answer makes its step. -/
theorem of_move_above {move move' : Move} {above : List Frame} {lock : LockId}
    (hnew : Told failure false new new') (hbelow : Heedless below)
    (h : Move.Alike id (new ++ past) (new' ++ past')
      (above ++ .dispatching lock (some .ok) :: below) move move') :
    Alike id failure past past'
      (ofMove move (above ++ .dispatching lock (some (.failed failure)) :: below))
      (ofMove move' (above ++ .dispatching lock (some .ok) :: below)) := by
  cases h with
  | @intro u e e' frames c c' hu he hc =>
    -- the new frames join those above the loop,
    -- and the loop keeps the one answer apart from the other
    rw [← List.append_assoc] at hc
    have hkept : Alike id failure past past'
        ⟨u.retold (some id) ((e ++ new) ++ past),
          (frames ++ above) ++ .dispatching lock (some (.failed failure)) :: below, c⟩
        ⟨u.retold none ((e' ++ new') ++ past'),
          (frames ++ above) ++ .dispatching lock (some .ok) :: below, c'⟩ :=
      kept hu (hnew.append he) hc hbelow
    simpa [ofMove, List.append_assoc] using hkept

/-- The answer is kept by a loop. -/
theorem step_kept {above : List Frame} {lock : LockId} {c c' : Control} (hu : u.history = [])
    (hnew : Told failure false new new')
    (hc : c.Alike (above ++ .dispatching lock (some .ok) :: below) c') (hbelow : Heedless below) :
    Alike id failure past past'
      (step ⟨u.retold (some id) (new ++ past),
        above ++ .dispatching lock (some (.failed failure)) :: below, c⟩)
      (step ⟨u.retold none (new' ++ past'), above ++ .dispatching lock (some .ok) :: below,
        c'⟩) := by
  cases above with
  | cons f above =>
    rw [List.cons_append, List.cons_append, step_cons, step_cons]
    exact of_move_above hnew hbelow (Frame.pass_alike hu hc)
  | nil =>
    cases hc with
    | asked s h => exact h.elim
    | same c =>
      cases c with
      | returned reply => exact dispatch hu hnew lock hbelow
      | unwinding fault =>
        -- the answer goes with the loop
        simp only [List.nil_append, step_unwinding, Frame.unwind, World.unwindDispatch_retold]
        exact of_move hnew (.of_retold _)
      | aborted =>
        have hkept : Alike id failure past past'
            ⟨u.retold (some id) (new ++ past),
              [] ++ .dispatching lock (some (.failed failure)) :: below, .aborted⟩
            ⟨u.retold none (new' ++ past'), [] ++ .dispatching lock (some .ok) :: below,
              .aborted⟩ := .kept hu hnew (.same _) hbelow
        exact hkept

end Step

/-- Two machines that are alike stay alike in a step. -/
theorem step (h : m.Alike id failure past past' m') :
    m.step.Alike id failure past past' m'.step := by
  cases h with
  | @settled u answered new new' frames c c' hu hnew hc =>
    cases frames with
    | nil => exact .settled hu hnew hc
    | cons f below =>
      rw [step_cons, step_cons]
      exact of_move hnew (Frame.pass_alike hu hc)
  | arriving hu hnew hframes => exact step_arriving hu hnew hframes
  | kept hu hnew hc hbelow => exact step_kept hu hnew hc hbelow

/-- Both machines are idle, or none of them is. -/
theorem isIdle (h : m.Alike id failure past past' m') : m.isIdle = m'.isIdle := by
  -- a frame on the stack means a machine at work
  have hcovered : ∀ (w : World) f below (c : Control),
      Machine.isIdle ⟨w, f :: below, c⟩ = false := fun w f below c => by cases c <;> rfl
  cases h with
  | @settled u answered new new' frames c c' hu hnew hc =>
    cases frames with
    | cons f below => rw [hcovered, hcovered]
    | nil => cases hc with
      | same c => cases c <;> rfl
      | asked s h => rfl
  | @arriving u new new' frames hu hnew hframes => cases frames <;> rfl
  | @kept u new new' above below lock c c' hu hnew hc hbelow =>
    cases above with
    | nil => exact (hcovered _ _ below c).trans (hcovered _ _ below c').symm
    | cons f above => exact (hcovered _ f _ c).trans (hcovered _ f _ c').symm

/-- An action that is called in both runs; an answer that was on its way to nobody is gone then. -/
theorem call (h : m.Alike id failure past past' m') (a : Action) :
    (begin m.world a).Alike id failure past past' (begin m'.world a) := by
  -- the action begins in worlds that differ in a counter and in what was reported
  have hbegin : ∀ {u : World} {answered new new'}, Told failure answered new new' →
      (begin (u.retold (some id) (new ++ past)) a).Alike id failure past past'
        (begin (u.retold none (new' ++ past')) a) := by
    intro u answered new new' hnew
    have hperform : Move.Alike id (new ++ past) (new' ++ past') []
        (((u.retold (some id) (new ++ past)).perform {} a).before [])
        (((u.retold none (new' ++ past')).perform {} a).before []) := by
      rw [World.retold_some, World.retold_none]
      exact Move.Raised.alike (.perform u {} a [] trivial)
    simpa [begin, Move.before] using of_move hnew hperform
  cases h with
  | settled hu hnew hc => exact hbegin hnew
  | arriving hu hnew hframes => exact hbegin hnew
  | kept hu hnew hc hbelow => exact hbegin hnew

/-- Whatever is done in both runs, their machines stay alike. -/
theorem follow (h : m.Alike id failure past past' m') (moves : List (Option Action)) :
    (m.follow moves).Alike id failure past past' (m'.follow moves) := by
  induction moves generalizing m m' with
  | nil => exact h
  -- move by move; whether an action is taken depends on the machine being idle,
  -- in which the two agree
  | cons move rest ih =>
    refine ih ?_
    cases move with
    | none => exact h.step
    | some a =>
      simp only [go, ← h.isIdle]
      split
      · exact h.call a
      · exact h

/-! ## What machines that are alike agree on -/

/-- The locks are the same, up to one failure that is counted. -/
theorem locks (h : m.Alike id failure past past' m') :
    m.world.locks = m'.world.locks.modify id Lock.countFailure := by
  cases h <;> rfl

/-- What has happened on a lock since the runs have parted is the same. -/
theorem journal (h : m.Alike id failure past past' m') (lock : LockId) :
    ∃ new : Journal,
      m.world.journal lock = new ++ past.filter (fun e => e.lock? == some lock) ∧
        m'.world.journal lock = new ++ past'.filter (fun e => e.lock? == some lock) := by
  have htold : ∀ {answered new new'}, Told failure answered new new' →
      (new.filter fun e => e.lock? == some lock) = new'.filter fun e => e.lock? == some lock := by
    intro answered new new' hnew
    -- answers are about no lock
    induction hnew with
    | nil => rfl
    | event he _ ih =>
      cases he with
      | same e => rw [List.filter_cons, List.filter_cons, ih]
      | asked tag word s => exact ih
    | answer tag word _ ih => exact ih
  have hjournals : ∀ {u : World} {answered new new'}, u.history = [] →
      Told failure answered new new' → ∃ journal : Journal,
        (u.retold (some id) (new ++ past)).journal lock =
            journal ++ past.filter (fun e => e.lock? == some lock) ∧
          (u.retold none (new' ++ past')).journal lock =
            journal ++ past'.filter (fun e => e.lock? == some lock) := by
    intro u answered new new' hu hnew
    refine ⟨new.filter fun e => e.lock? == some lock, ?_, ?_⟩
    · simp [World.journal, World.retold, hu]
    · simp [World.journal, World.retold, hu, htold hnew]
  cases h with
  | settled hu hnew hc => exact hjournals hu hnew
  | arriving hu hnew hframes => exact hjournals hu hnew
  | kept hu hnew hc hbelow => exact hjournals hu hnew

end Machine.Alike

end FairLock
