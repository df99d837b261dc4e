import FairLock.Proofs.Containment
import FairLock.Proofs.Machine.Alike

/-!
# A failure is as good as a release

When an entry point fails and the failure is contained, its grant ends, and everybody else goes on
as if the entry point had ended its grant and succeeded.  Where the end happens makes no difference:
in the entry point, on its way out, or at its boundary after it is gone.  A loop of the lock is
below in each case, so what the end drains is never started before that loop goes on.

## Main definitions

- `Event.bare`: what an event says, without the spans that were entered.
- `Machine.excused`: the entry point ends its grant and succeeds instead of failing.

## Main statements

- `World.exists_end`: what the end of a grant does, whatever is owned and entered.
- `contained_failure_as_release`: the run in which the entry point fails and the one in which it is
  excused.
-/

namespace FairLock

/-- What an event says, without the spans that were entered when it was recorded. -/
def Event.bare : Event → Event
  | .notice n _ => .notice n []
  | .issued g _ => .issued g none
  | e => e

/-- The failing entry point ends its grant, if that has not ended, and succeeds.  Its end has been
    logged, if it came to its end. -/
def Machine.excused (w : World) (g : Grant) (t : Task) (below : List Frame) : Machine :=
  ofMove (w.endGrant g)
    (.finishing g { t with ending := .done, quiet := true } :: .invocation g :: below)

namespace World

variable {w : World} {g : Grant}

theorem bare_drainEvents (lock : LockId) (batch : List (Request Entry)) (pending : Nat)
    (parent parent' : Option Grant) (entered entered' : List Grant) :
    (drainEvents lock batch pending parent entered).map Event.bare =
      (drainEvents lock batch pending parent' entered').map Event.bare := by
  cases batch with
  | nil => rfl
  | cons front rest => simp [drainEvents, Event.bare, Function.comp_def]

/-- The end of a grant depends on the locks and the thread alone.  The spans that are entered only
    show in what is recorded of it. -/
theorem exists_end (hid : g.lock < w.locks.length) :
    ∃ (locks : List (Lock Entry)) (events : List Grant → List Event),
      locks.length = w.locks.length ∧
      (∀ entered entered', (events entered).map Event.bare = (events entered').map Event.bare) ∧
      ∀ v : World, v.locks = w.locks → v.thread = w.thread →
        (v.endGrant g).world =
          { v with locks := locks, history := events v.entered ++ v.history } := by
  -- the lock is looked at once, here, so that one drain serves for every world with the same locks
  by_cases hunended : w.isUnended g = true
  · cases hrelease : (w.lock g.lock).release g.id g.mode with
    | mk l batch =>
      refine ⟨w.locks.set g.lock (l.deferBatch w.thread batch), fun entered =>
        drainEvents g.lock batch l.pending (currentSpan entered) entered ++
          [.notice (.released g l.state l.pending) entered,
            .notice ((w.lock g.lock).holdNotice g) (g :: entered)], by simp, ?_, ?_⟩
      · intro entered entered'
        simp only [List.map_append]
        -- the spans show in the reports of the drain and of the release, and are blanked out there
        rw [bare_drainEvents _ _ _ _ (currentSpan entered') entered entered']
        rfl
      · intro v hlocks hthread
        have hlock : v.lock g.lock = w.lock g.lock := by rw [lock, hlocks]; rfl
        have hid' : g.lock < v.locks.length := hlocks ▸ hid
        have hunended' : v.isUnended g = true := by rw [isUnended, hlock]; exact hunended
        obtain ⟨hworld, -⟩ := endUnended_eq hid' (hlock ▸ hrelease)
        rw [endGrant, if_pos hunended', hworld, hlocks, hthread, hlock]
        simp
  -- a grant that has ended already does not end again in any of these worlds
  · refine ⟨w.locks, fun _ => [], rfl, fun _ _ => rfl, ?_⟩
    intro v hlocks _
    have hended : ¬v.isUnended g = true := by
      rw [isUnended, lock, hlocks]
      exact hunended
    rw [endGrant, if_neg hended, ← hlocks]
    rfl

/-- A grant that has ended does not end again. -/
theorem endGrant_of_ended (h : w.isUnended g = false) : w.endGrant g = { world := w } := by
  simp [endGrant, h]

/-- Counting a failure does not depend on the state of the lock. -/
theorem reportFailure_modify (hid : g.lock < w.locks.length) (failure : Failure) :
    (w.reportFailure g failure).world =
      { w with
        locks := w.locks.modify g.lock Lock.countFailure
        history := (w.lock g.lock).failureEvents g failure w.entered ++ w.history } := by
  have hset : w.locks.set g.lock (w.lock g.lock).countFailure =
      w.locks.modify g.lock Lock.countFailure := by
    rw [List.modify_eq_set_getElem?]
    simp [lock, List.getD_eq_getElem?_getD, hid]
  rw [reportFailure_eq hid, hset]

/-- The failing entry point and the excused one bring about the same world, up to what is recorded:
    the first drops its own capability and leaves its span before its boundary ends the grant, the
    second ends the grant and drops its own capability then. -/
theorem exists_ends (h : w.Running g)
    (hafter : g ∈ w.owned → (w.afterBody g).isUnended g = false) :
    ∃ (locks : List (Lock Entry)) (ends ends' : List Event),
      locks.length = w.locks.length ∧ ends.map Event.bare = ends'.map Event.bare ∧
      ((w.afterBody g).endGrant g).world =
        { w with
          locks := locks, owned := w.owned.erase g, entered := w.entered.tail,
          history := ends ++ w.history } ∧
      (w.endGrant g).world.dropOwned g =
        { world :=
            { w with
              locks := locks, owned := w.owned.erase g, history := ends' ++ w.history } } := by
  obtain ⟨locks, events, hlength, hspans, hend⟩ := exists_end h.knows.1
  have hreleased := hend w rfl rfl
  by_cases howned : g ∈ w.owned
  · -- the grant ends with the own capability, and the boundary has nothing left to end
    have hcontains : w.owned.contains g = true := by simpa using howned
    have hdropped := hend { w with owned := w.owned.erase g } rfl rfl
    have hbody : w.afterBody g =
        { w with
          locks := locks, owned := w.owned.erase g, entered := w.entered.tail,
          history := events w.entered ++ w.history } := by
      rw [afterBody, dropOwned, if_pos hcontains, hdropped]
      rfl
    have hended := hafter howned
    refine ⟨locks, events w.entered, events w.entered, hlength, rfl, ?_, ?_⟩
    · rw [endGrant_of_ended hended, hbody]
    · rw [hbody] at hended
      rw [dropOwned, hreleased, if_pos hcontains]
      exact endGrant_of_ended hended
  · -- somebody else has the capability, so the boundary ends the grant, outside of its span
    have hcontains : w.owned.contains g = false := by simpa using howned
    have herase : w.owned.erase g = w.owned := List.erase_of_not_mem howned
    have hbody : w.afterBody g = w.leaveSpan := by
      simp [afterBody, dropOwned, howned]
    refine ⟨locks, events w.entered.tail, events w.entered, hlength, hspans _ _, ?_, ?_⟩
    · rw [hbody, hend w.leaveSpan rfl rfl, herase]
      rfl
    · rw [herase, hreleased]
      simp [dropOwned, howned]

end World

/-! ## What is said of grants -/

/-- The spans do not matter for what is said of grants. -/
theorem occurrences_bare {pick : Event → Option Grant} (hpick : ∀ e : Event, pick e.bare = pick e)
    {ends ends' : List Event} (h : ends.map Event.bare = ends'.map Event.bare) (id : LockId) :
    occurrences pick (ends.filter fun e => e.lock? == some id) =
      occurrences pick (ends'.filter fun e => e.lock? == some id) := by
  -- which lock an event is about is not said by its spans
  have hlock : ∀ e : Event, e.bare.lock? = e.lock? := by
    intro e
    cases e <;> rfl
  have hbare : ∀ events : List Event,
      occurrences pick (events.filter fun e => e.lock? == some id) =
        occurrences pick ((events.map Event.bare).filter fun e => e.lock? == some id) := by
    intro events
    simp only [occurrences, List.filter_map, List.filterMap_map, Function.comp_def, hlock, hpick]
  rw [hbare ends, hbare ends', h]

/-- The journals name the same accepted requests and the same grants as issued, ended, started and
    handed back, each in the same order. -/
structure SameGrants (j j' : Journal) : Prop where
  accepted : j.accepted = j'.accepted
  issued : j.issued = j'.issued
  ended : j.ended = j'.ended
  started : j.started = j'.started
  handedBack : j.handedBack = j'.handedBack

/-! ## The two runs -/

namespace Machine.Fails

variable {m : Machine} {w : World} {g : Grant} {t : Task} {fault : Fault} {below : List Frame}

/-- If the own capability is there, the grant has ended when the failure arrives at the boundary. -/
theorem ended_afterBody (hf : m.Fails w g t fault below) (h : m.Reachable) (howned : g ∈ w.owned) :
    (w.afterBody g).isUnended g = false := by
  have hboundary := h.reaches (hf.comesTo_boundary h).reaches
  have hafter : (w.dropOwned g).world.Running g := hboundary.running [] rfl (by simp)
  have hended := (World.mem_ended_afterBody_iff (hf.running h)).2 (.inl howned)
  exact hboundary.not_isUnended hafter.knows hended

/-- The excused entry point ends its grant, drops its capability, and succeeds. -/
theorem excused_comesTo (hf : m.Fails w g t fault below) (h : m.Reachable) {w' : World}
    (hdrop : (w.endGrant g).world.dropOwned g = { world := w' }) :
    (excused w g t below).ComesTo ⟨w'.leaveSpan, below, .returned .ok⟩ := by
  have hrunning := hf.running h
  have hend : excused w g t below =
      ⟨(w.endGrant g).world,
        .finishing g { t with ending := .done, quiet := true } :: .invocation g :: below,
        -- the excused end leaves no frame, so the next to come is the end of the entry point
        .returned .nothing⟩ := by
    unfold excused
    rw [World.endGrant_inPlace hrunning.loop hrunning.knows.1]
    rfl
  rw [hend]
  have hstep : Machine.step ⟨(w.endGrant g).world,
      .finishing g { t with ending := .done, quiet := true } :: .invocation g :: below,
      .returned .nothing⟩ =
        ⟨w', .concluding none :: .invocation g :: below, .returned .nothing⟩ := by
    simp only [step_returned, Frame.resume, ↓reduceIte, hdrop]
    rfl
  -- the three frames of an entry point that returns, from the top
  refine .step (.finishing g _) [.invocation g] rfl (hstep ▸ ?_)
  refine .step (.concluding none) [.invocation g] rfl ?_
  exact .step (.invocation g) [] rfl (.here _)

end Machine.Fails

/-- Journals that go on in the same way name the same grants, if what they go on from differs in
    spans and in reports of failures at most. -/
theorem SameGrants.of_parted {j j' new past : Journal} {id : LockId}
    {report ends ends' : List Event}
    (hj : j = new ++ (report ++ ends ++ past).filter (fun e => e.lock? == some id))
    (hj' : j' = new ++ (ends' ++ past).filter (fun e => e.lock? == some id))
    (hreport : ∀ e ∈ report, ∃ g failure entered, e = .notice (.entryFailed g failure) entered)
    (hspans : ends.map Event.bare = ends'.map Event.bare) : SameGrants j j' := by
  have hsame : ∀ pick : Event → Option Grant, (∀ e : Event, pick e.bare = pick e) →
      (∀ g failure entered, pick (.notice (.entryFailed g failure) entered) = none) →
      occurrences pick j = occurrences pick j' := by
    intro pick hbare hsilent
    -- the report of the failure is about no grant that is accepted, issued, ended or started
    have hnone : occurrences pick (report.filter fun e => e.lock? == some id) = [] := by
      rw [List.eq_nil_iff_forall_not_mem]
      intro g hg
      obtain ⟨e, he, hpick⟩ := mem_occurrences.1 hg
      obtain ⟨g', failure, entered, rfl⟩ := hreport e (List.mem_filter.1 he).1
      rw [hsilent] at hpick
      cases hpick
    simp only [hj, hj', List.filter_append, occurrences_append, hnone, List.append_nil,
      occurrences_bare hbare hspans id]
  -- of a notice and of an issue only the spans are blanked out
  have hnotice : ∀ {pick : Event → Option Grant}, (∀ n entered, pick (.notice n entered) =
      pick (.notice n [])) → (∀ g parent, pick (.issued g parent) = pick (.issued g none)) →
      ∀ e : Event, pick e.bare = pick e := by
    intro pick hn hi e
    cases e with
    | notice n entered => exact (hn n entered).symm
    | issued g parent => exact (hi g parent).symm
    | _ => rfl
  constructor
  all_goals
    refine hsame _ (hnotice ?_ ?_) ?_
    · intro n entered
      cases n <;> rfl
    · intro g parent
      rfl
    · intro g failure entered
      rfl

/-- An entry point fails, and the failure is contained; in another run it ends its grant instead,
    unless that has ended, and succeeds.  In both runs its boundary returns to what is below.  The
    end of the grant has then been recorded in both, in different spans perhaps, and a report of the
    failure in the first.  Whatever is done after that in both runs, by steps and by calls at top
    level, the two machines stay alike: nothing differs but the one failure that is counted, and the
    answer to the submission of the entry point.  In particular, on every lock the same requests
    are accepted, and the same grants issued, ended, started and handed back in the same order. -/
theorem contained_failure_as_release {m : Machine} (h : m.Reachable) {w : World} {g : Grant}
    {t : Task} {fault : Fault} {below : List Frame} (hf : m.Fails w g t fault below)
    (hbomb : fault.bomb? = none) (hheedless : Heedless below) :
    ∃ (failing excused : Machine) (report ends ends' : List Event),
      (m.ComesTo failing ∧ failing.frames = below ∧
        failing.control = .returned (.failed (fault.failure g.id g.mode))) ∧
      ((Machine.excused w g t below).ComesTo excused ∧ excused.frames = below ∧
        excused.control = .returned .ok) ∧
      ends.map Event.bare = ends'.map Event.bare ∧
      (report = [] ∨
        ∃ entered, report = [.notice (.entryFailed g (fault.failure g.id g.mode)) entered]) ∧
      ∀ moves,
        (failing.follow moves).Alike g.lock (fault.failure g.id g.mode)
          (report ++ ends ++ w.history) (ends' ++ w.history) (excused.follow moves) ∧
        (failing.follow moves).world.locks =
          (excused.follow moves).world.locks.modify g.lock Lock.countFailure ∧
        ∀ id, SameGrants ((failing.follow moves).world.journal id)
          ((excused.follow moves).world.journal id) := by
  have hrunning := hf.running h
  obtain ⟨locks, ends, ends', hlength, hspans, hfailing, hexcused⟩ :=
    World.exists_ends hrunning (hf.ended_afterBody h)
  generalize hfailure : fault.failure g.id g.mode = failure
  -- what both runs have in common when they come back to the stack
  let u : World :=
    { w with locks := locks, owned := w.owned.erase g, entered := w.entered.tail, history := [] }
  let report := (((w.afterBody g).endGrant g).world.lock g.lock).failureEvents g failure u.entered
  have hcontained : w.contained g failure =
      u.retold (some g.lock) (report ++ ends ++ w.history) := by
    have hid : g.lock < ((w.afterBody g).endGrant g).world.locks.length := by
      rw [hfailing]
      exact Nat.lt_of_lt_of_eq hrunning.knows.1 hlength.symm
    rw [World.contained, World.reportFailure_modify hid]
    simp [report, hfailing, u, World.retold]
  have hreleased : World.leaveSpan
      { w with locks := locks, owned := w.owned.erase g, history := ends' ++ w.history } =
        u.retold none (ends' ++ w.history) := by
    simp [World.leaveSpan, u, World.retold]
  have hreport : report = [] ∨ ∃ entered, report = [.notice (.entryFailed g failure) entered] := by
    simp only [report, Lock.failureEvents]
    split
    · exact .inr ⟨_, rfl⟩
    · exact .inl rfl
  refine ⟨_, _, report, ends, ends', ⟨hf.comesTo_contained h hbomb, rfl, by rw [hfailure]⟩,
    ⟨hf.excused_comesTo h hexcused, rfl, rfl⟩, hspans, hreport, ?_⟩
  intro moves
  rw [hfailure, hcontained, hreleased]
  have hparted : Machine.Alike g.lock failure (report ++ ends ++ w.history) (ends' ++ w.history)
      ⟨u.retold (some g.lock) ([] ++ (report ++ ends ++ w.history)), below,
        .returned (.failed failure)⟩
      ⟨u.retold none ([] ++ (ends' ++ w.history)), below, .returned .ok⟩ :=
    .arriving rfl .nil hheedless
  have halike := hparted.follow moves
  refine ⟨halike, halike.locks, ?_⟩
  intro id
  obtain ⟨new, hj, hj'⟩ := halike.journal id
  refine .of_parted hj hj' ?_ hspans
  rcases hreport with hnone | ⟨entered, hone⟩
  · simp [hnone]
  · simp [hone]

/-! ## A writer that parks its capability -/

/-- A writer parks its capability, lets a reader wait, and panics. -/
def parkingPanic : Action :=
  .submit 0 .write "writer" (.actions
    [.park none, .submit 0 .read "reader" (.actions []) .done true,
     .panic (.panic "lost")]) .done true

/-- The machine that performs this on one lock, after some steps. -/
def parkingPanicAfter (n : Nat) : Machine :=
  Machine.step^[n] (Machine.begin (World.initial [{}] []) parkingPanic)

theorem contained_failure_as_release_parkingPanic :
    ∃ failing excused : Machine, (parkingPanicAfter 5).ComesTo failing ∧
      failing.control = .returned (.failed (.entryPanicked 1 .write "lost")) ∧
      excused.control = .returned .ok ∧
      ∀ moves, (failing.follow moves).world.locks =
          (excused.follow moves).world.locks.modify 0 Lock.countFailure ∧
        SameGrants ((failing.follow moves).world.journal 0)
          ((excused.follow moves).world.journal 0) := by
  have hfails : (parkingPanicAfter 5).Fails (parkingPanicAfter 5).world ⟨0, 1, .write⟩
      ⟨0, "writer", .actions
        [.park none, .submit 0 .read "reader" (.actions []) .done true, .panic (.panic "lost")],
        -- what went wrong is one panic, whose failure can be destroyed
        .done, true⟩ (.panic "lost") [.dispatching 0 none] := .panics
  obtain ⟨failing, excused, report, ends, ends', ⟨hcomes, -, hfailed⟩, ⟨-, -, hok⟩, -, -, hall⟩ :=
    contained_failure_as_release (Machine.reachable_iterate _ _ _ 5) hfails rfl trivial
  exact ⟨failing, excused, hcomes, hfailed, hok, fun moves =>
    ⟨(hall moves).2.1, (hall moves).2.2 0⟩⟩

end FairLock
