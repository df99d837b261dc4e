import FairLock.Proofs.Machine.Loops

/-!
# Failing entry points

An entry point that fails drops its own capability first, so a grant that it still has ends before
anybody looks at what went wrong.  The boundary around it then ends the grant if it has not ended:
the capability may have been parked, leaked or released before.  But whoever looks at the failure
also destroys it, and if that panics, the boundary is left before it has ended anything.

## Main definitions

- `Machine.Fails`: an entry point fails now.
- `World.afterBody`, `World.contained`: the world when the failure has arrived at the boundary, and
  after it was contained there.

## Main statements

- `Machine.Fails.comesTo_contained`, `Machine.Fails.comesTo_bomb`: the two ways in which the
  boundary is left.
- `failed_grant_ended_iff`: when the grant has ended by then.
-/

namespace FairLock

/-! ## Failing -/

/-- The entry point of a grant fails now, above the given stack: it has come to the end of its
    actions and returns an error, or a panic leaves its actions.  The world is the one in which it
    fails, its end being logged. -/
inductive Machine.Fails : Machine → World → Grant → Task → Fault → List Frame → Prop where
  | returns {w : World} {g : Grant} {t : Task} {fault : Fault} {below : List Frame} {reply : Reply}
      (h : t.ending.fault? = some fault) :
      Fails ⟨w, .finishing g t :: .invocation g :: below, .returned reply⟩
        (if t.quiet then w else w.emit (.ended t.tag)) g t fault below
  | panics {w : World} {g : Grant} {t : Task} {fault : Fault} {below : List Frame} :
      Fails ⟨w, .finishing g t :: .invocation g :: below, .unwinding fault⟩ w g t fault below

namespace World

variable {w : World} {g : Grant}

/-- A failure has arrived at the boundary: the own capability has been dropped, and the span
    left. -/
def afterBody (w : World) (g : Grant) : World := (w.dropOwned g).world.leaveSpan

/-- A failure has been contained: the grant has ended, and the failure is counted and reported. -/
def contained (w : World) (g : Grant) (failure : Failure) : World :=
  (((w.afterBody g).endGrant g).world.reportFailure g failure).world

/-- Whatever the history says stays said. -/
theorem mem_ended_of_suffix {w' : World} (h : w.history <:+ w'.history)
    (hg : g ∈ (w.journal g.lock).ended) : g ∈ (w'.journal g.lock).ended :=
  mem_occurrences_of_suffix (h.filter _) hg

/-- Ending a grant is recorded. -/
theorem mem_ended_endUnended (hid : g.lock < w.locks.length) :
    g ∈ ((w.endUnended g).world.journal g.lock).ended := by
  cases hrelease : (w.lock g.lock).release g.id g.mode with
  | mk l batch =>
    obtain ⟨hworld, -⟩ := endUnended_eq hid hrelease
    refine mem_occurrences.2 ⟨.notice (.released g l.state l.pending) w.entered, ?_, rfl⟩
    rw [journal, hworld, List.mem_filter]
    exact ⟨by simp, by simp [Event.lock?, Notice.lock]⟩

/-- What a lock does not take for unended has ended. -/
theorem mem_ended_endGrant (hid : g.lock < w.locks.length)
    (hended : w.isUnended g = false → g ∈ (w.journal g.lock).ended) :
    g ∈ ((w.endGrant g).world.journal g.lock).ended := by
  unfold endGrant
  split
  · exact mem_ended_endUnended hid
  · rename_i h
    exact hended (by simpa using h)

end World

/-- What an entry point can rely on while it runs: it was started, it runs inside a loop of its
    lock, and its grant has ended as soon as the lock does not take it for unended. -/
structure World.Running (w : World) (g : Grant) : Prop where
  knows : w.Knows g
  loop : (w.lock g.lock).isDispatching w.thread = true
  ended : w.isUnended g = false → g ∈ (w.journal g.lock).ended

/-- An event about no lock changes nothing for it. -/
theorem World.Running.emit {w : World} {g : Grant} (h : w.Running g) {e : Event}
    (he : e.lock? = none) : (w.emit e).Running g := by
  -- the history of the lock leaves the event out
  have hjournal : (w.emit e).journal g.lock = w.journal g.lock := by
    simp [World.emit, World.journal, he]
  refine ⟨⟨h.knows.1, ?_⟩, h.loop, ?_⟩
  · rw [hjournal]
    exact h.knows.2
  · rw [hjournal]
    exact h.ended

namespace Machine

variable {m : Machine} {w : World} {g : Grant} {t : Task} {fault : Fault} {below : List Frame}

/-- A grant whose entry point was started is taken for unended as long as it has not ended. -/
theorem Reachable.isUnended_iff (h : m.Reachable) (hg : m.world.Knows g) :
    m.world.isUnended g = true ↔ g ∉ (m.world.journal g.lock).ended := by
  obtain ⟨out, -, hsound⟩ := h.sound g.lock
  have hissued := hsound.issued_of_started hg.2
  have hheld := (hsound.balanced.isUnended_iff hissued).trans mem_stillHeld
  exact hheld.trans (and_iff_right hissued)

/-- An entry point whose boundary is covered by no loop and no end of a thread is running. -/
theorem Reachable.running (h : m.Reachable) (above : List Frame)
    (hframes : m.frames = above ++ .invocation g :: below)
    (habove : ∀ f ∈ above, f.isPlain = true) : m.world.Running g := by
  obtain ⟨⟨-, hstack⟩, -⟩ := h.exists_ledger
  have hlooped := h.looped
  rw [hframes] at hstack hlooped
  have hknows : m.world.Knows g := by
    clear hframes hlooped habove
    generalize hstacked : above ++ Frame.invocation g :: below = frames at hstack
    -- down to the boundary, taking off what lies above it as it was put on
    induction hstack generalizing above with
    | nil => simp at hstacked
    | frame hf _ ih =>
      cases above with
      | nil =>
        cases hstacked
        exact hf
      | cons f above => exact ih above (List.cons.inj hstacked).2
    | handingBack hlock _ ih =>
      cases above with
      | nil => cases hstacked
      | cons f above =>
        cases above with
        | nil => cases hstacked
        | cons f' above =>
          simp only [List.cons_append, List.cons.injEq] at hstacked
          exact ih above hstacked.2.2
    | discarding _ ih =>
      cases above with
      | nil => cases hstacked
      | cons f above => exact ih above (List.cons.inj hstacked).2
  refine ⟨hknows, ?loop, ?ended⟩
  -- plain frames above the boundary hide no loop, so the topmost loop of the stack is below it
  case loop =>
    have hsheltered : Sheltered m.world.thread (.invocation g :: below) ∧
        loopsOf m.world.thread (above ++ .invocation g :: below) =
          loopsOf m.world.thread below := by
      have hall := hlooped.sheltered
      clear hframes hstack hlooped
      induction above with
      | nil => exact ⟨hall, rfl⟩
      | cons f above ih =>
        -- a plain frame may be taken off without changing which loops there are
        have hf := habove f (by simp)
        obtain ⟨hrest, hloops⟩ := ih (fun f hf => habove f (by simp [hf]))
          ((sheltered_plain hf _ _).1 hall)
        exact ⟨hrest, by rw [List.cons_append, loopsOf_plain hf, hloops]⟩
    rw [hlooped.lists, hsheltered.2]
    exact hsheltered.1.1
  -- the lock remembers the grant of an entry point exactly until it ends
  case ended =>
    intro hended
    by_contra hnot
    exact Bool.false_ne_true (hended.symm.trans ((h.isUnended_iff hknows).2 hnot))

/-- A grant that has ended is not taken for unended. -/
theorem Reachable.not_isUnended (h : m.Reachable) (hg : m.world.Knows g)
    (hended : g ∈ (m.world.journal g.lock).ended) : m.world.isUnended g = false := by
  rw [Bool.eq_false_iff, Ne, h.isUnended_iff hg]
  exact not_not_intro hended

/-- A failure that can be destroyed does not leave the boundary: the grant has ended after the next
    step, which puts nothing on the stack but the report. -/
theorem Reachable.step_invocation
    (h : Reachable ⟨w, .invocation g :: below, .unwinding fault⟩) (hbomb : fault.bomb? = none) :
    step ⟨w, .invocation g :: below, .unwinding fault⟩ =
      ⟨(w.leaveSpan.endGrant g).world, .reporting g (fault.failure g.id g.mode) :: below,
        .returned .nothing⟩ := by
  have hrunning : w.Running g := h.running [] rfl (by simp)
  -- the loop is running, so the end of the grant puts its drain on the run list and no frame down
  have hend := World.endGrant_inPlace (w := w.leaveSpan) hrunning.loop hrunning.knows.1
  simp only [step_unwinding, Frame.unwind, World.contain, hbomb]
  rw [hend]
  rfl

namespace Fails

theorem running (hf : m.Fails w g t fault below) (h : m.Reachable) : w.Running g := by
  cases hf with
  | returns hfault =>
    have hrunning := h.running [.finishing g t] rfl (by simp [Frame.isPlain])
    split
    · exact hrunning
    · exact hrunning.emit rfl
  | panics => exact h.running [.finishing g t] rfl (by simp [Frame.isPlain])

/-- The own capability is dropped, and the failure arrives at the boundary. -/
theorem comesTo_boundary (hf : m.Fails w g t fault below) (h : m.Reachable) :
    m.ComesTo ⟨(w.dropOwned g).world, .invocation g :: below, .unwinding fault⟩ := by
  have hrunning := hf.running h
  have hdrop := World.dropOwned_inPlace hrunning.loop hrunning.knows.1
  -- both ways the entry point ends: its capability goes first,
  -- and the failure is carried on after that
  cases hf with
  | @returns w₀ _ _ _ _ reply hfault =>
    have hstep : (⟨w₀, .finishing g t :: .invocation g :: below, .returned reply⟩ : Machine).step =
        ⟨(World.dropOwned (if t.quiet then w₀ else w₀.emit (.ended t.tag)) g).world,
          .concluding (some fault) :: .invocation g :: below, .returned .nothing⟩ := by
      simp only [step_returned, Frame.resume, hfault]
      rw [hdrop]
      rfl
    refine .step (.finishing g t) [] rfl (hstep ▸ ?_)
    exact .step (.concluding (some fault)) [] rfl (.here _)
  | panics =>
    have hstep : (⟨w, .finishing g t :: .invocation g :: below, .unwinding fault⟩ : Machine).step =
        ⟨(w.dropOwned g).world, .rethrowing fault :: .invocation g :: below,
          .returned .nothing⟩ := by
      simp only [step_unwinding, Frame.unwind]
      rw [hdrop]
      rfl
    refine .step (.finishing g t) [] rfl (hstep ▸ ?_)
    exact .step (.rethrowing fault) [] rfl (.here _)

/-- A failure that can be destroyed is contained: the submitter is told of it. -/
theorem comesTo_contained (hf : m.Fails w g t fault below) (h : m.Reachable)
    (hbomb : fault.bomb? = none) :
    m.ComesTo ⟨w.contained g (fault.failure g.id g.mode), below,
      .returned (.failed (fault.failure g.id g.mode))⟩ := by
  have hboundary := hf.comesTo_boundary h
  refine hboundary.trans ?_ [.invocation g] rfl
  -- the boundary ends the grant, before it looks for somebody to tell
  have hstep : (⟨(w.dropOwned g).world, .invocation g :: below, .unwinding fault⟩ : Machine).step =
      ⟨((w.afterBody g).endGrant g).world,
        .reporting g (fault.failure g.id g.mode) :: below, .returned .nothing⟩ :=
    (h.reaches hboundary.reaches).step_invocation hbomb
  refine .step (.invocation g) [] rfl (hstep ▸ ?_)
  exact .step (.reporting g _) [] rfl (.here _)

/-- A failure whose destruction panics leaves the boundary as that panic, and the grant as it is. -/
theorem comesTo_bomb (hf : m.Fails w g t fault below) (h : m.Reachable) {message : String}
    (hbomb : fault.bomb? = some message) :
    m.ComesTo ⟨w.afterBody g, below, .unwinding (.panic message)⟩ := by
  refine (hf.comesTo_boundary h).trans ?_ [.invocation g] rfl
  -- the panic comes out of the boundary before it ends anything
  have hstep : (⟨(w.dropOwned g).world, .invocation g :: below, .unwinding fault⟩ : Machine).step =
      ⟨w.afterBody g, below, .unwinding (.panic message)⟩ := by
    simp only [step_unwinding, Frame.unwind, World.contain, hbomb]
    rfl
  exact .step (.invocation g) [] rfl (hstep ▸ .here _)

end Fails

end Machine

namespace World

variable {w : World} {g : Grant}

/-- Dropping the own capability ends the grant, if it is still there. -/
theorem mem_ended_afterBody_iff (h : w.Running g) :
    g ∈ ((w.afterBody g).journal g.lock).ended ↔
      g ∈ w.owned ∨ g ∈ (w.journal g.lock).ended := by
  show g ∈ ((w.dropOwned g).world.journal g.lock).ended ↔ _
  -- with the capability in hand the drop ends the grant; without it the drop does nothing
  unfold dropOwned
  split
  · rename_i howned
    have hended := mem_ended_endGrant (w := { w with owned := w.owned.erase g }) h.knows.1 h.ended
    exact iff_of_true hended (.inl (by simpa using howned))
  · rename_i howned
    have hnot : g ∉ w.owned := by simpa using howned
    simp [hnot]

/-- Once a failure is contained its grant has ended. -/
theorem mem_ended_contained (h : (w.afterBody g).Running g) (failure : Failure) :
    g ∈ ((w.contained g failure).journal g.lock).ended := by
  have hended := mem_ended_endGrant h.knows.1 h.ended
  refine mem_ended_of_suffix ?_ hended
  -- the report only adds to the history
  unfold contained reportFailure
  dsimp only [reply]
  split
  · exact List.suffix_cons _ _
  · exact List.suffix_refl _

end World

/-- The boundary around an entry point that fails is left in the end, by a return or by a panic.  By
    then its grant has ended exactly if nothing panicked while the failure was destroyed, or the
    entry point still had its capability, or the grant had ended before.

    So a grant stays held only if its capability was parked or leaked and the failure is a bomb. -/
theorem failed_grant_ended_iff {m : Machine} (h : m.Reachable) {w : World} {g : Grant} {t : Task}
    {fault : Fault} {below : List Frame} (hf : m.Fails w g t fault below) :
    ∃ m' : Machine, m.ComesTo m' ∧ m'.frames = below ∧
      (m'.control =
        match fault.bomb? with
        | none => .returned (.failed (fault.failure g.id g.mode))
        | some message => .unwinding (.panic message)) ∧
      (g ∈ (m'.world.journal g.lock).ended ↔
        fault.bomb? = none ∨ g ∈ w.owned ∨ g ∈ (w.journal g.lock).ended) := by
  have hrunning := hf.running h
  -- the failure panics when it is destroyed, or the boundary does its work
  cases hbomb : fault.bomb? with
  | some message =>
    refine ⟨_, hf.comesTo_bomb h hbomb, rfl, rfl, ?_⟩
    simpa using World.mem_ended_afterBody_iff hrunning
  | none =>
    refine ⟨_, hf.comesTo_contained h hbomb, rfl, rfl, ?_⟩
    have hboundary := h.reaches (hf.comesTo_boundary h).reaches
    have hafter : (w.dropOwned g).world.Running g := hboundary.running [] rfl (by simp)
    have hafter' : (w.afterBody g).Running g := ⟨hafter.knows, hafter.loop, hafter.ended⟩
    exact iff_of_true (World.mem_ended_contained hafter' _) (.inl rfl)

/-! ## A bomb without its capability -/

/-- A writer leaks its capability and panics with a value whose destruction panics again. -/
def leakingBomb : Action :=
  .submit 0 .write "writer" (.actions [.forget .own, .panic (.panicBomb "escaped")]) .done true

/-- The machine that performs this on one lock, after some steps. -/
def leakingBombAfter (n : Nat) : Machine :=
  Machine.step^[n] (Machine.begin (World.initial [{}] []) leakingBomb)

theorem failed_grant_ended_iff_leakingBomb :
    ∃ m' : Machine, (leakingBombAfter 3).ComesTo m' ∧
      m'.control = .unwinding (.panic "escaped") ∧
      (⟨0, 1, .write⟩ : Grant) ∉ (m'.world.journal 0).ended := by
  have hfails : (leakingBombAfter 3).Fails (leakingBombAfter 3).world ⟨0, 1, .write⟩
      ⟨0, "writer", .actions [.forget .own, .panic (.panicBomb "escaped")], .done, true⟩
      (.panicBomb "escaped") [.dispatching 0 none] := .panics
  obtain ⟨m', hcomes, -, hcontrol, hended⟩ :=
    -- the entry point has forgotten its capability by then, so no drop ends the grant either
    failed_grant_ended_iff (Machine.reachable_iterate _ _ _ 3) hfails
  refine ⟨m', hcomes, hcontrol, ?_⟩
  rw [hended]
  decide

/-- The lock stays taken: once the call is over, its grant is held, and nobody can end it. -/
theorem leakingBomb_stays_held :
    (leakingBombAfter 9).frames = [] ∧
      ((leakingBombAfter 9).world.lock 0).state = .writing ∧
      ((leakingBombAfter 9).world.journal 0).held = [⟨0, 1, .write⟩] := by
  have hframes : (leakingBombAfter 9).frames.isEmpty = true := by decide
  exact ⟨List.isEmpty_iff.1 hframes, by decide, by decide⟩

end FairLock
