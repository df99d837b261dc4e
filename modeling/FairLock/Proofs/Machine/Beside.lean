import FairLock.Proofs.Machine.Recast

/-!
# Higher counters in one of two runs

Two worlds differ in their pasts and in counters of locks, which are higher in the first.  Whatever
a frame does in both of them, it does the same, and leaves worlds behind that differ in nothing
else.  Only an answer with counters can differ, and it goes to a log or to nobody.

## Main definitions

- `Machine.follow`: a run, given by its steps and by the actions that are called at top level.
- `Frame.pass`: what a frame does with what is passed to it.
- `Pursuit`: a frame that goes through a list of actions.
- `Move.Raised`: two moves that differ in pasts and counters only.

## Main statements

- `Frame.pass_raised`: a frame makes such moves in worlds that differ in pasts and counters only.
-/

namespace FairLock

/-! ## Runs as lists -/

namespace Machine

/-- Can the machine be given an action at top level? -/
def isIdle (m : Machine) : Bool :=
  match m.frames, m.control with
  | [], .aborted => false
  | [], _ => true
  | _, _ => false

/-- Go on by a step, or by an action at top level if the machine is idle. -/
def go (m : Machine) : Option Action → Machine
  | none => m.step
  | some a => if m.isIdle then begin m.world a else m

/-- Go on by any number of steps and calls. -/
def follow (m : Machine) (moves : List (Option Action)) : Machine := moves.foldl go m

theorem reaches_go (m : Machine) (move : Option Action) : Reaches m (m.go move) := by
  cases move with
  | none => exact .single (.step m)
  | some a =>
    obtain ⟨w, frames, control⟩ := m
    simp only [go]
    split
    · rename_i hidle
      cases frames with
      -- an idle machine has no frames, and has not been aborted
      | cons f below => cases control <;> cases hidle
      | nil =>
        refine .single (.call a ?_)
        rintro rfl
        cases hidle
    · exact .refl

/-- Every run is one that follows a list, and the other way round. -/
theorem reaches_iff_follow {m m' : Machine} : Reaches m m' ↔ ∃ moves, m.follow moves = m' := by
  constructor
  · intro h
    induction h with
    | refl => exact ⟨[], rfl⟩
    -- the other way round each transition is written down as the move that makes it
    | tail _ hn ih =>
      obtain ⟨moves, rfl⟩ := ih
      have hgo : ∀ {m m' : Machine}, Next m m' → ∃ move, m.go move = m' := by
        intro m m' hn
        cases hn with
        | step => exact ⟨none, rfl⟩
        | @call w control a hcontrol =>
          refine ⟨some a, ?_⟩
          have hidle : isIdle ⟨w, [], control⟩ = true := by
            cases control with
            | aborted => exact absurd rfl hcontrol
            | _ => rfl
          simp [go, hidle]
      obtain ⟨move, rfl⟩ := hgo hn
      exact ⟨moves ++ [move], by simp [follow]⟩
  · rintro ⟨moves, rfl⟩
    induction moves generalizing m with
    | nil => exact .refl
    | cons move rest ih => exact (reaches_go m move).trans ih

end Machine

/-! ## What is recorded, and what is passed down -/

/-- Two events that were recorded in the same place: one event, or an answer with the counters of a
    lock, which are higher in the first. -/
inductive Event.Raised (more : LockId → Tally) : Event → Event → Prop where
  | same (e : Event) : Raised more e e
  | asked (tag word : String) (lock : LockId) (s : Stats) :
      Raised more (.acted tag word (.stats (s.raised (more lock)))) (.acted tag word (.stats s))

/-- The answer that is passed down is going to be logged, or nobody is left to see it. -/
def Listens : List Frame → Prop
  | [] => True
  | .actions _ _ _ :: _ => True
  | .working _ _ _ _ _ :: _ => True
  | _ => False

/-- What is passed down two stacks: the same, or counters on their way to a log. -/
inductive Control.Raised (more : LockId → Tally) (frames : List Frame) :
    Control → Control → Prop where
  | same (c : Control) : Raised more frames c c
  | asked (lock : LockId) (s : Stats) (h : Listens frames) :
      Raised more frames (.returned (.stats (s.raised (more lock)))) (.returned (.stats s))

/-- No counter is higher. -/
def noTally : LockId → Tally := fun _ => {}

/-- Two moves that lead to worlds that differ in pasts and counters only, and put the same frames on
    the stack. -/
inductive Move.Raised (more : LockId → Tally) (past past' : List Event) (below : List Frame) :
    Move → Move → Prop where
  | intro {u : World} {e e' : List Event} {frames : List Frame} {c c' : Control}
      (hu : u.history = []) (he : List.Forall₂ (Event.Raised more) e e')
      (hc : c.Raised more (frames ++ below) c') :
      Raised more past past' below ⟨u.recast more (e ++ past), frames, c⟩
        ⟨u.recast noTally (e' ++ past'), frames, c'⟩

/-! ## Moves -/

section Moves

variable {more : LockId → Tally} {past past' : List Event} {below : List Frame}

/-- What is recorded in both runs in the same way. -/
theorem Event.raised_refl (more : LockId → Tally) (events : List Event) :
    List.Forall₂ (Event.Raised more) events events := by
  induction events with
  | nil => exact .nil
  | cons e rest ih => exact .cons (.same e) ih

theorem World.recast_noTally (w : World) (past : List Event) :
    w.recast noTally past = { w with history := w.history ++ past } := by
  simp only [recast, noTally, Lock.raised_nothing, World.mk.injEq, and_true]
  refine List.ext_getElem? ?_
  intro n
  simp

@[simp] theorem World.extra_noTally (w : World) (lock : LockId) : w.extra noTally lock = {} := by
  simp [extra, noTally]

namespace Move.Raised

/-- What the two moves record is added to what was recorded before. -/
theorem after {m m' : Move} {e e' : List Event}
    (h : Move.Raised more (e ++ past) (e' ++ past') below m m')
    (he : List.Forall₂ (Event.Raised more) e e') : Move.Raised more past past' below m m' := by
  cases h with
  | @intro u new new' frames c c' hu hnew hc =>
    have hall : List.Forall₂ (Event.Raised more) (new ++ e) (new' ++ e') := List.rel_append hnew he
    have hboth : Move.Raised more past past' below
        ⟨u.recast more ((new ++ e) ++ past), frames, c⟩
        ⟨u.recast noTally ((new' ++ e') ++ past'), frames, c'⟩ := .intro hu hall hc
    rwa [List.append_assoc, List.append_assoc] at hboth

/-- One move, seen in two worlds. -/
theorem of_recast (m : Move) :
    Move.Raised more past past' below (m.recast more past) (m.recast noTally past') :=
  .intro (u := { m.world with history := [] }) rfl (Event.raised_refl more m.world.history)
    (.same _)

/-- An action is begun. -/
theorem perform (u : World) (context : Context) (a : Action) (frames : List Frame)
    (hframes : Listens (frames ++ below)) :
    Move.Raised more past past' below
      (((u.recast more past).perform context a).before frames)
      (((u.recast noTally past').perform context a).before frames) := by
  by_cases ha : a.isStats = false
  · rw [World.perform_recast u _ _ context ha, World.perform_recast u _ _ context ha]
    exact of_recast ((u.perform context a).before frames)
  · -- the answer is about a lock whose counters may be higher
    cases a with
    | stats handle =>
      have hplain : ∀ c c' : Control, c.Raised more (frames ++ below) c' →
          Move.Raised more past past' below ⟨u.recast more past, frames, c⟩
            ⟨u.recast noTally past', frames, c'⟩ := fun c c' hc =>
        .intro (u := { u with history := [] }) rfl (Event.raised_refl more u.history) hc
      rw [World.perform_stats_recast, World.perform_stats_recast]
      cases hlock : u.lockOf? handle with
      | none =>
        simp only [World.perform, World.withLock, hlock]
        exact hplain _ _ (.same _)
      | some lock =>
        simp only [World.perform, World.withLock, hlock, World.extra_noTally, Lock.raised_nothing]
        by_cases hid : lock < u.locks.length
        · simp only [World.extra, if_pos hid]
          exact hplain _ _ (.asked lock _ hframes)
        · simp only [World.extra, if_neg hid]
          exact hplain _ _ (.same _)
    | _ => exact absurd rfl ha

theorem nextAction (u : World) (context : Context) (rest : List Action) :
    Move.Raised more past past' below ((u.recast more past).nextAction context rest)
      ((u.recast noTally past').nextAction context rest) := by
  cases rest with
  | nil => exact of_recast (u.nextAction context [])
  | cons a rest => exact perform u context a _ trivial

theorem work (u : World) (name : String) (work : Work) (g : Grant) (rest : List Action) :
    Move.Raised more past past' below ((u.recast more past).work name work g rest)
      ((u.recast noTally past').work name work g rest) := by
  -- work that is done releases its grant, work that pauses is stored,
  -- and any other action is performed
  cases rest with
  | nil =>
    simp only [World.work, World.release_recast]
    exact of_recast ((u.release g).1.answering (.done work.output))
  | cons a rest =>
    cases a with
    | pause =>
      simp only [World.work, World.suspend_recast]
      exact of_recast (u.suspend name (.run work (.working g rest)))
    | _ => exact perform u _ _ [.working name work g _ rest] trivial

end Move.Raised

/-- An answer is logged where somebody listens, whatever it is, or it is not logged. -/
theorem World.logReply_cases {u : World} (hu : u.history = []) (context : Context)
    (last : Option String) :
    (∀ more past reply, Reply.isNothing reply = false →
      (u.recast more past).logReply context last reply = u.recast more past) ∨
    ∃ word, last = some word ∧ ∀ more past reply, Reply.isNothing reply = false →
      (u.recast more past).logReply context last reply =
        u.recast more (.acted context.tag word reply :: past) := by
  -- quiet lists log nothing, and others log the answer as it is
  cases last with
  | none => exact .inl fun _ _ _ _ => rfl
  | some word =>
    cases hquiet : context.quiet with
    | true =>
      refine .inl ?_
      intro more past reply _
      simp [logReply, hquiet]
    | false =>
      refine .inr ⟨word, rfl, ?_⟩
      intro more past reply hreply
      simp [logReply, hquiet, hreply, emit, recast, hu]

/-! ## Frames -/

/-- What a frame does with what is passed to it. -/
def Frame.pass (w : World) (f : Frame) : Control → Move
  | .returned reply => f.resume w reply
  | .unwinding fault => f.unwind w fault
  | .aborted => { world := w, frames := [f], control := .aborted }

theorem Machine.step_cons (w : World) (f : Frame) (below : List Frame) (c : Control) :
    Machine.step ⟨w, f :: below, c⟩ = Machine.ofMove (f.pass w c) below := by
  cases c <;> rfl

/-- A frame that goes through a list of actions. -/
inductive Pursuit where
  | actions (context : Context)
  | working (future : String) (work : Work) (grant : Grant)

namespace Pursuit

/-- The frame, with the word for its last action and with what is left. -/
def frame : Pursuit → Option String → List Action → Frame
  | actions context => .actions context
  | working future work grant => .working future work grant

/-- On whose behalf the actions run. -/
def context : Pursuit → Context
  | actions context => context
  | working future _ _ => { tag := future }

/-- Go on with what is left. -/
def goOn (w : World) (rest : List Action) : Pursuit → Move
  | actions context => w.nextAction context rest
  | working future work grant => w.work future work grant rest

theorem resume_frame (p : Pursuit) (w : World) (last : Option String) (rest : List Action)
    (reply : Reply) :
    (p.frame last rest).resume w reply = p.goOn (w.logReply p.context last reply) rest := by
  cases p <;> rfl

theorem goOn_raised (p : Pursuit) (u : World) (rest : List Action) :
    Move.Raised more past past' below (p.goOn (u.recast more past) rest)
      (p.goOn (u.recast noTally past') rest) := by
  cases p with
  | actions context => exact .nextAction u context rest
  | working future work grant => exact .work u future work grant rest

/-- Where the actions of a list are begun, answers are logged. -/
theorem exists_of_listens {f : Frame} (h : Listens (f :: below)) :
    ∃ (p : Pursuit) (last : Option String) (rest : List Action), f = p.frame last rest := by
  -- only lists of actions and work hear the answers of what they have begun
  cases f with
  | actions context last rest => exact ⟨.actions context, last, rest, rfl⟩
  | working future work grant last rest => exact ⟨.working future work grant, last, rest, rfl⟩
  | _ => exact h.elim

end Pursuit

namespace Frame

variable {u : World} {f : Frame}

/-- A frame does the same in both worlds, if it is told the same. -/
theorem pass_raised_same (c : Control) :
    Move.Raised more past past' below (f.pass (u.recast more past) c)
      (f.pass (u.recast noTally past') c) := by
  cases c with
  | aborted => exact .of_recast { world := u, frames := [f], control := .aborted }
  | unwinding fault =>
    simp only [pass, unwind_recast]
    exact .of_recast (f.unwind u fault)
  | returned reply =>
    -- a frame that does not look at counters does the same in both worlds
    have hplain : (∀ a ∈ f.next?, a.isStats = false) →
        Move.Raised more past past' below (f.resume (u.recast more past) reply)
          (f.resume (u.recast noTally past') reply) := by
      intro hf
      rw [resume_recast _ _ _ hf, resume_recast _ _ _ hf]
      exact .of_recast (f.resume u reply)
    cases f with
    | actions context last rest =>
      simp only [pass, resume, World.logReply_recast]
      exact .nextAction (u.logReply context last reply) context rest
    | working name work g last rest =>
      simp only [pass, resume, World.logReply_recast]
      exact .work (u.logReply { tag := name } last reply) name work g rest
    | _ => exact hplain (by simp [next?])

/-- Where an answer is logged, it does not matter otherwise. -/
theorem pass_raised_apart (hu : u.history = []) (hf : Listens (f :: below)) (r r' : Reply)
    (hr : r.isNothing = false) (hr' : r'.isNothing = false) :
    Move.Raised more past past' below (f.pass (u.recast more past) (.returned r))
        (f.pass (u.recast noTally past') (.returned r')) ∨
      ∃ tag word, Move.Raised more (.acted tag word r :: past) (.acted tag word r' :: past') below
        (f.pass (u.recast more past) (.returned r))
        (f.pass (u.recast noTally past') (.returned r')) := by
  obtain ⟨p, last, rest, rfl⟩ := Pursuit.exists_of_listens hf
  simp only [pass, Pursuit.resume_frame]
  -- the answer is dropped in both worlds, or logged in both as it was told
  rcases World.logReply_cases hu p.context last with hquiet | ⟨word, -, hlogged⟩
  · rw [hquiet _ _ _ hr, hquiet _ _ _ hr']
    exact .inl (p.goOn_raised u rest)
  · rw [hlogged _ _ _ hr, hlogged _ _ _ hr']
    exact .inr ⟨p.context.tag, word, p.goOn_raised u rest⟩

theorem pass_raised (hu : u.history = []) {c c' : Control} (hc : c.Raised more (f :: below) c') :
    Move.Raised more past past' below (f.pass (u.recast more past) c)
      (f.pass (u.recast noTally past') c') := by
  cases hc with
  | same c => exact pass_raised_same c
  | asked lock s hf =>
    rcases pass_raised_apart hu hf (.stats (s.raised (more lock))) (.stats s) rfl rfl with
      h | ⟨tag, word, h⟩
    · exact h
    -- the two logged answers differ in their counters as the worlds do
    · have hevent : List.Forall₂ (Event.Raised more)
          [.acted tag word (.stats (s.raised (more lock)))] [.acted tag word (.stats s)] :=
        .cons (.asked tag word lock s) .nil
      exact h.after hevent

end Frame

end Moves

end FairLock
