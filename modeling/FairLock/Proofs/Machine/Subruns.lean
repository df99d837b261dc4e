import FairLock.Proofs.Machine.Runs

/-!
# Runs above a stack

A step looks at no frame but the topmost.  So while a stack is covered by other frames it takes no
part in the run, and the run up to the moment at which it is laid bare can be looked at by itself.

## Main definitions

- `Machine.Steps`: some number of steps leads from one machine to another.
- `Machine.ComesTo`: it does, and until then more frames lie on the stack that is left in the end.
- `Machine.Begins`: an action is the next thing that the machine does.

## Main statements

- `ComesTo.split`: a run that lays a stack bare has laid bare every stack in between.
- `ComesTo.preserves`: what every step above a stack keeps, the whole run keeps.
- `ComesTo.reaches_cases`: there is one way only.
-/

namespace FairLock.Machine

variable {m m' m'' : Machine}

/-! ## Some number of steps -/

/-- Some number of steps leads from the first machine to the second. -/
def Steps (m m' : Machine) : Prop := ∃ n, step^[n] m = m'

theorem Steps.refl (m : Machine) : m.Steps m := ⟨0, rfl⟩

theorem Steps.head (h : m.step.Steps m') : m.Steps m' := by
  obtain ⟨n, rfl⟩ := h
  exact ⟨n + 1, Function.iterate_succ_apply _ _ _⟩

theorem Steps.trans (h : m.Steps m') (h' : m'.Steps m'') : m.Steps m'' := by
  obtain ⟨n, rfl⟩ := h
  obtain ⟨k, rfl⟩ := h'
  exact ⟨k + n, Function.iterate_add_apply _ _ _ _⟩

theorem Steps.reaches (h : m.Steps m') : Reaches m m' := by
  obtain ⟨n, rfl⟩ := h
  induction n with
  | zero => exact .refl
  | succ n ih =>
    rw [Function.iterate_succ_apply']
    exact ih.tail (.step _)

/-- Of two machines on one way one comes first. -/
theorem Steps.or (h : m.Steps m') (h' : m.Steps m'') : m'.Steps m'' ∨ m''.Steps m' := by
  obtain ⟨n, rfl⟩ := h
  obtain ⟨k, rfl⟩ := h'
  rcases Nat.le_total n k with hle | hle
  · exact .inl ⟨k - n, by rw [← Function.iterate_add_apply, Nat.sub_add_cancel hle]⟩
  · exact .inr ⟨n - k, by rw [← Function.iterate_add_apply, Nat.sub_add_cancel hle]⟩

/-- A machine with frames left is given no other action, so it goes on by a step. -/
theorem Reaches.eq_or_step (h : Reaches m m') (hm : m.frames ≠ []) :
    m' = m ∨ Reaches m.step m' := by
  rcases Relation.ReflTransGen.cases_head h with rfl | ⟨next, hn, h⟩
  · exact .inl rfl
  · cases hn with
    | step => exact .inr h
    | call a hcontrol => exact absurd rfl hm

/-! ## Down to a stack -/

/-- Steps lead from the first machine to the second, and until then there are more frames on top of
    those that are left in the end. -/
inductive ComesTo : Machine → Machine → Prop where
  | here (m : Machine) : ComesTo m m
  | step {m m' : Machine} (f : Frame) (above : List Frame)
      (hframes : m.frames = f :: above ++ m'.frames) (h : ComesTo m.step m') : ComesTo m m'

/-- What was below the topmost frame is still there after a step. -/
theorem frames_step {f : Frame} {below : List Frame} (h : m.frames = f :: below) :
    (∃ pushed, m.step.frames = pushed ++ below) ∨ m.step = m := by
  obtain ⟨w, frames, control⟩ := m
  cases h
  cases control with
  | returned reply => exact .inl ⟨(f.resume w reply).frames, rfl⟩
  | unwinding fault => exact .inl ⟨(f.unwind w fault).frames, rfl⟩
  | aborted => exact .inr rfl

namespace ComesTo

theorem steps (h : m.ComesTo m') : m.Steps m' := by
  induction h with
  | here m => exact .refl m
  | step _ _ _ _ ih => exact ih.head

theorem reaches (h : m.ComesTo m') : Reaches m m' := h.steps.reaches

theorem trans (h : m.ComesTo m') (h' : m'.ComesTo m'') (above : List Frame)
    (hm' : m'.frames = above ++ m''.frames) : m.ComesTo m'' := by
  induction h with
  | here m => exact h'
  | step f covering hframes _ ih =>
    refine .step f (covering ++ above) ?_ (ih h' hm')
    rw [hframes, hm', List.cons_append, List.cons_append, List.append_assoc]

/-- What the steps above a stack keep, the run down to it keeps. -/
theorem preserves {P : Machine → Prop} (h : m.ComesTo m')
    (hstep : ∀ (m : Machine) f above, m.frames = f :: above ++ m'.frames → P m → P m.step)
    (hm : P m) : P m' := by
  induction h with
  | here m => exact hm
  | step f above hframes _ ih => exact ih hstep (hstep _ f above hframes hm)

/-- On the way down to a stack every stack in between is laid bare. -/
theorem split (h : m.ComesTo m') {above between : List Frame}
    (hm : m.frames = above ++ (between ++ m'.frames)) :
    ∃ middle : Machine, middle.frames = between ++ m'.frames ∧ m.ComesTo middle ∧
      middle.ComesTo m' := by
  induction h generalizing above with
  | here m =>
    refine ⟨m, ?_, .here m, .here m⟩
    -- nothing lies above what is already bare
    have hlength := congrArg List.length hm
    simp only [List.length_append] at hlength
    have hnone : above = [] := List.eq_nil_of_length_eq_zero (by omega)
    rw [hnone] at hm
    exact hm
  | @step m m' f covering hframes hr ih =>
    cases above with
    | nil => exact ⟨m, hm, .here m, .step f covering hframes hr⟩
    | cons f' above =>
      have hnext : ∃ above', m.step.frames = above' ++ (between ++ m'.frames) := by
        rcases frames_step hm with ⟨pushed, hpushed⟩ | hsame
        · exact ⟨pushed ++ above, by simpa using hpushed⟩
        · exact ⟨f' :: above, by rw [hsame, hm]⟩
      obtain ⟨above', habove⟩ := hnext
      obtain ⟨middle, hmiddle, hdown, hrest⟩ := ih habove
      have hcovered : m.frames = f' :: above ++ middle.frames := by rw [hm, hmiddle]
      exact ⟨middle, hmiddle, .step f' above hcovered hdown, hrest⟩

/-- The first step of a run down to a stack that is covered. -/
theorem next (h : m.ComesTo m') {f : Frame} {above : List Frame}
    (hm : m.frames = f :: above ++ m'.frames) : m.step.ComesTo m' := by
  cases h with
  | here =>
    have hlength := congrArg List.length hm
    simp only [List.length_append, List.length_cons] at hlength
    omega
  | step _ _ _ h => exact h

/-- A stack that is bare already is the end of the way. -/
theorem eq_of_frames (h : m.ComesTo m') (hframes : m.frames = m'.frames) : m = m' := by
  cases h with
  | here => rfl
  | step f above hm h =>
    have hlength := congrArg List.length (hframes.symm.trans hm)
    simp only [List.length_append, List.length_cons] at hlength
    omega

/-- A stack is laid bare in one way only. -/
theorem unique (h : m.ComesTo m') (h' : m.ComesTo m'') (hframes : m'.frames = m''.frames) :
    m' = m'' := by
  induction h with
  | here m => exact h'.eq_of_frames hframes
  | step f above hm _ ih => exact ih (h'.next (hframes ▸ hm)) hframes

/-- A stack that is covered by other frames until it is bare. -/
theorem of_iterate {above tail : List Frame} (hm : m.frames = above ++ tail) {n : Nat}
    (hcovered : ∀ k < n, tail.length < (Machine.step^[k] m).frames.length)
    (hlast : (Machine.step^[n] m).frames = tail) : m.ComesTo (Machine.step^[n] m) := by
  induction n generalizing m above with
  | zero => exact .here m
  | succ n ih =>
    -- before the last step something covers the tail, so a step takes away at most what covers it
    have hfirst := hcovered 0 (Nat.succ_pos n)
    cases above with
    | nil => simp [hm] at hfirst
    | cons f above =>
      have hnext : ∃ above', m.step.frames = above' ++ tail := by
        rcases frames_step hm with ⟨pushed, hpushed⟩ | hsame
        · exact ⟨pushed ++ above, by simpa using hpushed⟩
        · exact ⟨f :: above, by rw [hsame, hm]⟩
      obtain ⟨above', habove⟩ := hnext
      have hrest : m.step.ComesTo (Machine.step^[n] m.step) :=
        ih habove (fun k hk => hcovered (k + 1) (Nat.succ_lt_succ hk)) hlast
      exact .step f above (by rw [hlast]; exact hm) hrest

/-- An aborted machine comes to nothing else. -/
theorem not_aborted (h : m.ComesTo m') (hm' : m'.control ≠ .aborted) : m.control ≠ .aborted := by
  have hstep : ∀ (x : Machine) f above, x.frames = f :: above ++ m'.frames →
      x.control = .aborted → x.step.control = .aborted := by
    rintro ⟨w, frames, control⟩ f above - hcontrol
    cases hcontrol
    rw [step_aborted]
  exact fun haborted => hm' (h.preserves hstep haborted)

/-- A machine that is reached lies on the way, or it is reached from the end of the way. -/
theorem reaches_cases (h : m.ComesTo m') (hr : Reaches m m'') :
    m.Steps m'' ∧ m''.ComesTo m' ∨ Reaches m' m'' := by
  induction h with
  | here m => exact .inr hr
  | @step m m' f above hframes h ih =>
    rcases hr.eq_or_step (by simp [hframes]) with rfl | hr
    · exact .inl ⟨.refl _, .step f above hframes h⟩
    · exact (ih hr).imp_left fun hway => ⟨hway.1.head, hway.2⟩

/-- Whatever is reached comes before a machine on the way or after it. -/
theorem reaches_or (h : m.ComesTo m') {x : Machine} (hx : m.Steps x) (hrest : x.ComesTo m')
    (hr : Reaches m m'') : Reaches m'' x ∨ Reaches x m'' := by
  rcases h.reaches_cases hr with ⟨hway, -⟩ | hafter
  · exact (hway.or hx).imp Steps.reaches Steps.reaches
  · exact .inr (hrest.reaches.trans hafter)

end ComesTo

/-! ## The next action -/

/-- The next thing that the machine does is to begin an action, in the given world, on behalf of the
    given context, and on top of the given stack. -/
inductive Begins : Machine → World → Context → Action → List Frame → Prop where
  /-- An idle machine is given an action at top level. -/
  | call {w : World} {control : Control} (a : Action) (hcontrol : control ≠ .aborted) :
      Begins ⟨w, [], control⟩ w {} a []
  /-- An action in a list is next; the answer to the one before is logged first. -/
  | action {w : World} {context : Context} {last : Option String} {a : Action}
      {rest : List Action} {below : List Frame} {reply : Reply} :
      Begins ⟨w, .actions context last (a :: rest) :: below, .returned reply⟩
        (w.logReply context last reply) context a (.actions context (some a.word) rest :: below)
  /-- The same in the work of a future, where a pause would end the poll. -/
  | work {w : World} {name : String} {work : Work} {g : Grant} {last : Option String} {a : Action}
      {rest : List Action} {below : List Frame} {reply : Reply} (ha : a ≠ .pause) :
      Begins ⟨w, .working name work g last (a :: rest) :: below, .returned reply⟩
        (w.logReply { tag := name } last reply) { tag := name } a
        (.working name work g (some a.word) rest :: below)

variable {w : World} {context : Context} {a : Action} {below : List Frame}

/-- A machine that is not idle begins the action by its next step. -/
theorem Begins.step_eq (h : m.Begins w context a below) (hframes : m.frames ≠ []) :
    m.step = ofMove (w.perform context a) below := by
  cases h with
  | call a hcontrol => exact absurd rfl hframes
  | action => simp [Frame.resume, World.nextAction, ofMove]
  -- work that is not paused performs its action over its own frame
  | @work w name work g last a rest below reply ha =>
    have hwork : (w.logReply { tag := name } last reply).work name work g (a :: rest) =
        ((w.logReply { tag := name } last reply).perform { tag := name } a).before
          [.working name work g (some a.word) rest] := by
      cases a with
      | pause => exact absurd rfl ha
      | _ => rfl
    simp [Frame.resume, hwork, ofMove]

theorem Begins.next (h : m.Begins w context a below) : Next m (ofMove (w.perform context a) below) := by
  by_cases hframes : m.frames = []
  · cases h with
    | call a hcontrol => exact .call a hcontrol
    | action => cases hframes
    | work ha => cases hframes
  · exact h.step_eq hframes ▸ .step m

end FairLock.Machine
