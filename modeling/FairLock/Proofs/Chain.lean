import FairLock.Proofs.Chain.Lock
import FairLock.Proofs.Machine.Loops

/-!
# Chains of entry points

The queue of a lock holds entry points that release their own capability, some of them again and
again, and then succeed or fail.  Once the only grant that is held is released, they all run, one
after the other and on the thread that has released it, and in the end the lock is free.

## Main definitions

- `Follows`: an entry point does nothing but follow a plan.
- `World.Turned`: only a lock and the history have changed.

## Main statements

- `Machine.steps_entry`: one turn of the loop.
- `release_completes_chain`: the whole chain.
-/

namespace FairLock

/-- A task does nothing but follow a plan.  If it fails, its failure can be destroyed. -/
inductive Task.Follows (w : World) (t : Task) : Plan → Prop where
  /-- It releases its capability and returns, with an error or without. -/
  | returns {n : Nat} (hbody : w.actionsOf t.body = List.replicate n (.release .own))
      (hbomb : ∀ fault ∈ t.ending.fault?, fault.bomb? = none) : Follows w t ⟨n, t.ending.fault?⟩
  /-- It releases its capability and panics. -/
  | panics {n : Nat} {fault : Fault} {rest : List Action}
      (hbody : w.actionsOf t.body = List.replicate n (.release .own) ++ .panic fault :: rest)
      (hbomb : fault.bomb? = none) : Follows w t ⟨n, some fault⟩

/-- What is to be done is the same as long as nobody changes the procedures. -/
theorem World.actionsOf_congr {w w' : World} (h : w'.procedures = w.procedures) (body : Body) :
    w'.actionsOf body = w.actionsOf body := by
  cases body with
  | actions list => rfl
  | procedure name => simp only [World.actionsOf, h]

theorem Task.Follows.congr {w w' : World} {t : Task} {p : Plan} (h : t.Follows w p)
    (hprocedures : w'.procedures = w.procedures) : t.Follows w' p := by
  have hbody := World.actionsOf_congr hprocedures t.body
  cases h with
  | returns h hbomb => exact .returns (hbody.trans h) hbomb
  | panics h hbomb => exact .panics (hbody.trans h) hbomb

/-- The entry point of a request is a task that follows a plan. -/
def Request.Follows (w : World) (r : Request Entry) (p : Plan) : Prop :=
  ∃ t, r.payload = .task t ∧ t.Follows w p

theorem Task.Follows.bomb?_eq_none {w : World} {t : Task} {p : Plan} (h : t.Follows w p) :
    ∀ fault ∈ p.fault, fault.bomb? = none := by
  -- the fault of a plan is one that a boundary contains: it is not one that panics again
  cases h with
  | returns hbody hbomb => exact hbomb
  | panics hbody hbomb =>
    intro fault hfault
    cases hfault
    exact hbomb

namespace World

variable {w w' w'' : World} {id : LockId} {l l' : Lock Entry} {starts starts' : List Grant}

/-- A lock has changed, some entry points were started, and nothing else has happened but that more
    was recorded. -/
def Turned (w : World) (id : LockId) (l : Lock Entry) (starts : List Grant) (w' : World) : Prop :=
  ∃ events, occurrences Event.started? events = starts ∧
    w' = { w with locks := w.locks.set id l, history := events ++ w.history }

namespace Turned

theorem refl (w : World) (id : LockId) : w.Turned id (w.lock id) [] w := by
  refine ⟨[], rfl, ?_⟩
  have hself : w.locks.set id (w.lock id) = w.locks := by
    by_cases hid : id < w.locks.length
    · simp [lock, List.getD_eq_getElem?_getD, hid]
    · exact List.set_eq_of_length_le (Nat.le_of_not_lt hid)
  rw [hself]
  rfl

theorem trans (h : w.Turned id l starts w') (h' : w'.Turned id l' starts' w'') :
    w.Turned id l' (starts ++ starts') w'' := by
  obtain ⟨events, rfl, rfl⟩ := h
  obtain ⟨events', rfl, rfl⟩ := h'
  exact ⟨events' ++ events, by simp, by simp⟩

theorem setLock (w : World) (id : LockId) (l : Lock Entry) :
    w.Turned id l [] (w.setLock id l) := ⟨[], rfl, rfl⟩

theorem emit (h : w.Turned id l starts w') {e : Event} (he : e.started? = none) :
    w.Turned id l starts (w'.emit e) := by
  obtain ⟨events, rfl, rfl⟩ := h
  refine ⟨e :: events, ?_, rfl⟩
  rw [occurrences_cons, he]
  simp

theorem lock_self (h : w.Turned id l starts w') (hid : id < w.locks.length) : w'.lock id = l := by
  obtain ⟨events, -, rfl⟩ := h
  exact lock_setLock_self hid l

theorem lock_of_ne (h : w.Turned id l starts w') {other : LockId} (hother : id ≠ other) :
    w'.lock other = w.lock other := by
  obtain ⟨events, -, rfl⟩ := h
  exact lock_setLock_of_ne hother l

theorem length_locks (h : w.Turned id l starts w') : w'.locks.length = w.locks.length := by
  obtain ⟨events, -, rfl⟩ := h
  simp

theorem thread (h : w.Turned id l starts w') : w'.thread = w.thread := by
  obtain ⟨events, -, rfl⟩ := h
  rfl

theorem owned (h : w.Turned id l starts w') : w'.owned = w.owned := by
  obtain ⟨events, -, rfl⟩ := h
  rfl

theorem logReply (w : World) (id : LockId) (context : Context) (last : Option String)
    (reply : Reply) : w.Turned id (w.lock id) [] (w.logReply context last reply) := by
  unfold World.logReply
  cases last with
  | none => exact refl w id
  | some word =>
    dsimp only
    split
    · exact refl w id
    · exact (refl w id).emit rfl

/-- It does not matter who has capabilities. -/
theorem withOwned (h : w.Turned id l starts w') (owned : List Grant) :
    ({ w with owned := owned } : World).Turned id l starts { w' with owned := owned } := by
  obtain ⟨events, hstarts, rfl⟩ := h
  exact ⟨events, hstarts, rfl⟩

/-- Nor does it matter which spans are entered. -/
theorem leaveSpan (h : w.Turned id l starts w') :
    w.leaveSpan.Turned id l starts w'.leaveSpan := by
  obtain ⟨events, hstarts, rfl⟩ := h
  exact ⟨events, hstarts, rfl⟩

/-- The entry points that were started are those of the lock. -/
theorem started (h : w.Turned id l starts w') (hstarts : ∀ g ∈ starts, g.lock = id) :
    (w'.journal id).started = (w.journal id).started ++ starts := by
  obtain ⟨events, rfl, rfl⟩ := h
  -- among the events of the chain, an entry point is started only on this lock
  have hall : events.filterMap Event.started? =
      (events.filter fun e => e.lock? == some id).filterMap Event.started? := by
    rw [List.filterMap_filter]
    refine List.filterMap_congr ?_
    intro e he
    cases e with
    | started g thread shown =>
      have hg : g.lock = id := hstarts g (mem_occurrences.2 ⟨_, he, rfl⟩)
      simp [Event.lock?, hg]
    | _ => simp
  simp [journal, Journal.started, occurrences, hall]

theorem procedures (h : w.Turned id l starts w') : w'.procedures = w.procedures := by
  obtain ⟨events, -, rfl⟩ := h
  rfl

end Turned

/-! ## The end of a grant inside a loop -/

section Ending

variable {g : Grant}

/-- No entry point is started where a grant ends. -/
theorem turned_endUnended (hid : g.lock < w.locks.length) :
    w.Turned g.lock ((w.lock g.lock).handOn w.thread g.id g.mode) [] (w.endUnended g).world := by
  -- the end is the report of the release,
  -- preceded by how long it was held and followed by the drain
  cases hrelease : (w.lock g.lock).release g.id g.mode with
  | mk l batch =>
    obtain ⟨hworld, -⟩ := endUnended_eq hid hrelease
    have hdrain : occurrences Event.started?
        (drainEvents g.lock batch l.pending (currentSpan w.entered) w.entered) = [] :=
      (Ledger.issues_drainEvents _ _ _ _ _).started
    have hhold : occurrences Event.started?
        [.notice ((w.lock g.lock).holdNotice g) (g :: w.entered)] = [] :=
      (Ledger.issues_holdNotice _ _ _).started
    refine ⟨drainEvents g.lock batch l.pending (currentSpan w.entered) w.entered ++
      .notice (.released g l.state l.pending) w.entered ::
        [.notice ((w.lock g.lock).holdNotice g) (g :: w.entered)], ?_, ?_⟩
    · rw [occurrences_append, occurrences_cons, hdrain, hhold]
      rfl
    · rw [hworld, Lock.handOn, hrelease]
      simp

/-- The redundant release of a grant is counted. -/
theorem release_of_ended (h : w.isUnended g = false) :
    ∃ w', w.release g = ({ world := w' }, false) ∧
      w.Turned g.lock (w.lock g.lock).countRedundant [] w' := by
  refine ⟨(w.setLock g.lock (w.lock g.lock).countRedundant).notify (.redundant g), ?_, ?_⟩
  · simp [release, h]
  · exact (Turned.setLock w g.lock _).emit rfl

/-- Outside of any loop of the lock, the thread starts a loop for what becomes ready. -/
theorem endUnended_frames (hid : g.lock < w.locks.length) (hruns : (w.lock g.lock).runLists = []) :
    (w.endUnended g).control = .returned .nothing ∧
      (w.endUnended g).frames =
        if ((w.lock g.lock).release g.id g.mode).2 = [] then []
        else [.dispatching g.lock (some .nothing)] := by
  -- without a run list on the lock the thread is not in a loop of it
  obtain ⟨-, hframes, hcontrol⟩ := endUnended_eq hid
    (Prod.mk.eta : (((w.lock g.lock).release g.id g.mode).1, _) = _).symm
  refine ⟨hcontrol, ?_⟩
  rw [hframes]
  simp [Lock.isDispatching, hruns]

section Loop

variable (hid : g.lock < w.locks.length)
  (hloop : (w.lock g.lock).isDispatching w.thread = true)
include hid hloop

theorem endGrant_of_unended (h : w.isUnended g = true) :
    ∃ w', w.endGrant g = { world := w' } ∧
      w.Turned g.lock ((w.lock g.lock).handOn w.thread g.id g.mode) [] w' := by
  refine ⟨_, ?_, turned_endUnended hid⟩
  rw [endGrant, if_pos h]
  exact endUnended_inPlace hloop hid

theorem release_of_unended (h : w.isUnended g = true) :
    ∃ w', w.release g = ({ world := w' }, true) ∧
      w.Turned g.lock ((w.lock g.lock).handOn w.thread g.id g.mode) [] w' := by
  refine ⟨_, ?_, turned_endUnended hid⟩
  rw [release, if_pos h]
  exact congrArg (·, true) (endUnended_inPlace hloop hid)

/-- The own capability is dropped. -/
theorem dropOwned_of_owned (howned : g ∈ w.owned) :
    ∃ w', w.dropOwned g = { world := w' } ∧
      ({ w with owned := w.owned.erase g } : World).Turned g.lock
        ((w.lock g.lock).afterEnd w.thread g.id g.mode) [] w' := by
  have hcontains : w.owned.contains g = true := by simpa using howned
  unfold dropOwned Lock.afterEnd
  rw [if_pos hcontains]
  -- the drop ends the grant, or finds that an explicit release has done so before
  by_cases hunended : (w.lock g.lock).isUnended g.id = true
  · rw [if_pos hunended]
    exact endGrant_of_unended (w := { w with owned := w.owned.erase g }) hid hloop hunended
  · rw [if_neg hunended]
    refine ⟨{ w with owned := w.owned.erase g }, ?_, Turned.refl _ g.lock⟩
    exact if_neg hunended

end Loop

/-- A failure is counted, and reported perhaps. -/
theorem turned_reportFailure (w : World) (g : Grant) (failure : Failure) :
    ∃ w', w.reportFailure g failure = w'.reply (.failed failure) ∧
      w.Turned g.lock (w.lock g.lock).countFailure [] w' := by
  refine ⟨_, rfl, ?_⟩
  split
  · exact (Turned.setLock w g.lock _).emit rfl
  · exact Turned.setLock w g.lock _

end Ending

end World

/-- An entry point has been started inside a loop: it has its own capability, and its grant is going
    to end once. -/
structure World.Entered (w : World) (g : Grant) : Prop where
  owned : g ∈ w.owned
  lock_lt : g.lock < w.locks.length
  loop : (w.lock g.lock).isDispatching w.thread = true
  unended : (w.lock g.lock).isUnended g.id = true
  once : ((w.lock g.lock).handOn w.thread g.id g.mode).isUnended g.id = false

/-! ## The machine in an entry point -/

namespace Machine

variable {w : World} {g : Grant} {context : Context} {last : Option String} {below : List Frame}
  {reply : Reply} {rest : List Action}

theorem step_actions (w : World) (context : Context) (last : Option String) (a : Action)
    (rest : List Action) (below : List Frame) (reply : Reply) :
    step ⟨w, .actions context last (a :: rest) :: below, .returned reply⟩ =
      ofMove ((w.logReply context last reply).perform context a)
        (.actions context (some a.word) rest :: below) := by
  simp [Frame.resume, World.nextAction, ofMove]

/-- An entry point that has its own capability releases it. -/
theorem steps_release (hown : context.own = some g) (howned : g ∈ w.owned) {w' : World}
    {flag : Bool}
    (hrelease : (w.logReply context last reply).release g = ({ world := w' }, flag)) :
    Steps ⟨w, .actions context last (.release .own :: rest) :: below, .returned reply⟩
      ⟨w', .actions context (some "release") rest :: below, .returned (.flag flag)⟩ := by
  -- the capability is found, as the entry point has it in its hands
  have howned' : (w.logReply context last reply).owned.contains g = true := by
    rw [(World.Turned.logReply w 0 context last reply).owned]
    simpa using howned
  refine .head ?_
  rw [step_actions]
  simp only [World.perform, World.withCapability, World.locate, hown, Option.filter, howned',
    if_true, Option.map, hrelease]
  exact .head (.refl _)

/-- Releases of a grant that has ended do nothing but raise a counter. -/
theorem steps_redundant (hown : context.own = some g) (howned : g ∈ w.owned)
    (hid : g.lock < w.locks.length) (hended : (w.lock g.lock).isUnended g.id = false) (n : Nat)
    (last : Option String) (rest : List Action) (below : List Frame) (reply : Reply) :
    ∃ w' last' reply',
      Steps ⟨w, .actions context last (.replicate n (.release .own) ++ rest) :: below,
          .returned reply⟩
        ⟨w', .actions context last' rest :: below, .returned reply'⟩ ∧
      w.Turned g.lock ((w.lock g.lock).afterRedundant n) [] w' := by
  -- one release after the other: each finds the grant ended and the capability still in hand
  induction n generalizing w last reply with
  | zero => exact ⟨w, last, reply, .refl _, .refl w g.lock⟩
  | succ n ih =>
    have hlogged := World.Turned.logReply w g.lock context last reply
    have hself := hlogged.lock_self hid
    obtain ⟨w₁, hrelease, hcounted⟩ := World.release_of_ended
      (w := w.logReply context last reply) (g := g) (by rw [World.isUnended, hself]; exact hended)
    rw [hself] at hcounted
    have hturned := hlogged.trans hcounted
    have hself₁ := hturned.lock_self hid
    obtain ⟨w', last', reply', hsteps, hrest⟩ := ih (w := w₁) (hturned.owned ▸ howned)
      (hturned.length_locks ▸ hid) (by rw [hself₁]; exact hended) (some "release") (.flag false)
    rw [hself₁, Lock.afterRedundant_countRedundant] at hrest
    exact ⟨w', last', reply', (steps_release hown howned hrelease).trans hsteps,
      hturned.trans hrest⟩

/-- An entry point releases its own capability a number of times.  The first time its grant ends. -/
theorem steps_releases (hown : context.own = some g) (h : w.Entered g) (n : Nat)
    (last : Option String) (rest : List Action) (below : List Frame) (reply : Reply) :
    ∃ w' last' reply',
      Steps ⟨w, .actions context last (.replicate n (.release .own) ++ rest) :: below,
          .returned reply⟩
        ⟨w', .actions context last' rest :: below, .returned reply'⟩ ∧
      w.Turned g.lock ((w.lock g.lock).afterReleases w.thread g.id g.mode n) [] w' := by
  -- the first release ends the grant, and those after it are redundant
  cases n with
  | zero => exact ⟨w, last, reply, .refl _, .refl w g.lock⟩
  | succ n =>
    have hlogged := World.Turned.logReply w g.lock context last reply
    have hself := hlogged.lock_self h.lock_lt
    obtain ⟨w₁, hrelease, hreleased⟩ := World.release_of_unended
      (w := w.logReply context last reply) (g := g)
      (by rw [hlogged.length_locks]; exact h.lock_lt)
      (by rw [hself, hlogged.thread]; exact h.loop)
      (by rw [World.isUnended, hself]; exact h.unended)
    rw [hself, hlogged.thread] at hreleased
    have hturned := hlogged.trans hreleased
    have hself₁ := hturned.lock_self h.lock_lt
    obtain ⟨w', last', reply', hsteps, hrest⟩ := steps_redundant (w := w₁) hown
      (hturned.owned ▸ h.owned) (hturned.length_locks ▸ h.lock_lt) (by rw [hself₁]; exact h.once)
      n (some "release") rest below (.flag true)
    rw [hself₁] at hrest
    exact ⟨w', last', reply', (steps_release hown h.owned hrelease).trans hsteps,
      hturned.trans hrest⟩

/-- How an entry point comes to its end: it returns from its actions, or a panic leaves them. -/
inductive Finishes (t : Task) : Control → Option Fault → Prop where
  | returns (reply : Reply) : Finishes t (.returned reply) t.ending.fault?
  | panics (fault : Fault) : Finishes t (.unwinding fault) (some fault)

/-- An entry point with a plan does what is planned and comes to its end. -/
theorem steps_plan {t : Task} {p : Plan} (hp : t.Follows w p) (hown : context.own = some g)
    (h : w.Entered g) (below : List Frame) (reply : Reply) :
    ∃ w' control, Finishes t control p.fault ∧
      Steps ⟨w, .actions context none (w.actionsOf t.body) :: below, .returned reply⟩
        ⟨w', below, control⟩ ∧
      w.Turned g.lock ((w.lock g.lock).afterReleases w.thread g.id g.mode p.releases) [] w' := by
  -- an entry point that returns has logged its last answer;
  -- one that panics leaves its frame by that
  cases hp with
  | @returns n hbody hbomb =>
    obtain ⟨w₁, last, reply₁, hsteps, hturned⟩ :=
      steps_releases hown h n none [] below reply
    have hlogged := World.Turned.logReply w₁ g.lock context last reply₁
    rw [hturned.lock_self h.lock_lt] at hlogged
    refine ⟨w₁.logReply context last reply₁, .returned .nothing, .returns _, ?_,
      hturned.trans hlogged⟩
    rw [hbody, ← List.append_nil (List.replicate n _)]
    exact hsteps.trans (.head (.refl _))
  | @panics n fault rest hbody hbomb =>
    obtain ⟨w₁, last, reply₁, hsteps, hturned⟩ :=
      steps_releases hown h n none (.panic fault :: rest) below reply
    have hlogged := World.Turned.logReply w₁ g.lock context last reply₁
    rw [hturned.lock_self h.lock_lt] at hlogged
    refine ⟨w₁.logReply context last reply₁, .unwinding fault, .panics fault, ?_,
      hturned.trans hlogged⟩
    rw [hbody]
    refine hsteps.trans (.head ?_)
    rw [step_actions]
    exact .head (.refl _)

/-- What arrives at the boundary of an entry point. -/
def arrival : Option Fault → Control
  | none => .returned .nothing
  | some fault => .unwinding fault

/-- At its end an entry point drops its own capability. -/
theorem steps_finishing {t : Task} {control : Control} {fault : Option Fault}
    (hfinishes : Finishes t control fault) (howned : g ∈ w.owned) (hid : g.lock < w.locks.length)
    (hloop : (w.lock g.lock).isDispatching w.thread = true) (below : List Frame) :
    ∃ w', Steps ⟨w, .finishing g t :: .invocation g :: below, control⟩
        ⟨w', .invocation g :: below, arrival fault⟩ ∧
      ({ w with owned := w.owned.erase g } : World).Turned g.lock
        ((w.lock g.lock).afterEnd w.thread g.id g.mode) [] w' := by
  cases hfinishes with
  | panics fault =>
    obtain ⟨w', hdrop, hturned⟩ := World.dropOwned_of_owned hid hloop howned
    refine ⟨w', ?_, hturned⟩
    refine .head ?_
    rw [step_unwinding, Frame.unwind, hdrop]
    exact .head (.refl _)
  | returns reply =>
    -- the end is logged, unless the task is quiet
    have hlogged : w.Turned g.lock (w.lock g.lock) []
        (if t.quiet then w else w.emit (.ended t.tag)) := by
      split
      · exact .refl w g.lock
      · exact (World.Turned.refl w g.lock).emit rfl
    generalize hw₁ : (if t.quiet then w else w.emit (.ended t.tag)) = w₁ at hlogged
    have hself := hlogged.lock_self hid
    obtain ⟨w', hdrop, hturned⟩ := World.dropOwned_of_owned (w := w₁) (g := g)
      (by rw [hlogged.length_locks]; exact hid) (by rw [hself, hlogged.thread]; exact hloop)
      (by rw [hlogged.owned]; exact howned)
    have hend : (w₁.lock g.lock).afterEnd w₁.thread g.id g.mode =
        (w.lock g.lock).afterEnd w.thread g.id g.mode := by rw [hself, hlogged.thread]
    rw [hend, hlogged.owned] at hturned
    refine ⟨w', ?_, (hlogged.withOwned (w.owned.erase g)).trans hturned⟩
    refine .head ?_
    rw [step_returned, Frame.resume, hw₁, hdrop]
    refine .head ?_
    cases hfault : t.ending.fault? with
    | none => exact .refl _
    | some fault => exact .refl _

/-- The boundary around an entry point whose grant has ended. -/
theorem steps_boundary {fault : Option Fault} (hbomb : ∀ f ∈ fault, f.bomb? = none)
    (hended : (w.lock g.lock).isUnended g.id = false) (below : List Frame) :
    ∃ w' reply', Steps ⟨w, .invocation g :: below, arrival fault⟩ ⟨w', below, .returned reply'⟩ ∧
      w.leaveSpan.Turned g.lock ((w.lock g.lock).afterFault fault) [] w' := by
  -- with the grant ended already, the boundary only reports the failure, if there is one
  cases fault with
  | none =>
    refine ⟨w.leaveSpan, .ok, ?_, World.Turned.refl w.leaveSpan g.lock⟩
    exact .head (.refl _)
  | some fault =>
    have hcontain : w.leaveSpan.contain g fault =
        { world := w.leaveSpan, frames := [.reporting g (fault.failure g.id g.mode)] } := by
      have hend : w.leaveSpan.endGrant g = { world := w.leaveSpan } :=
        if_neg (Bool.eq_false_iff.1 hended)
      simp [World.contain, hbomb fault rfl, hend, Move.before]
    obtain ⟨w', hreport, hturned⟩ :=
      World.turned_reportFailure w.leaveSpan g (fault.failure g.id g.mode)
    refine ⟨w', .failed (fault.failure g.id g.mode), ?_, hturned⟩
    refine .head ?_
    simp only [arrival]
    rw [step_unwinding, Frame.unwind, hcontain]
    refine .head ?_
    simp only [ofMove, List.singleton_append, step_returned, Frame.resume, hreport]
    exact .refl _

/-- The thread takes a request off its run list and starts its task. -/
theorem step_dispatching {id : LockId} {r : Request Entry} {l : Lock Entry} {t : Task}
    (hnext : (w.lock id).next w.thread = some (r, l)) (hentry : r.payload = .task t)
    (outcome : Reply) (below : List Frame) (reply : Reply) :
    ∃ w₀, w.Turned id l [r.grant id] w₀ ∧
      step ⟨w, .dispatching id (some outcome) :: below, .returned reply⟩ =
        ⟨{ w₀ with owned := r.grant id :: w.owned, entered := r.grant id :: w.entered },
          .actions ⟨t.tag, some (r.grant id), t.quiet⟩ none (w.actionsOf t.body) ::
            .finishing (r.grant id) t :: .invocation (r.grant id) ::
              .dispatching id (some outcome) :: below, .returned .nothing⟩ := by
  -- what was taken off the run list becomes frames: the body, its ending, and the boundary
  have hstep : step ⟨w, .dispatching id (some outcome) :: below, .returned reply⟩ =
      ofMove (((w.setLock id l).start id r).before [.dispatching id (some outcome)]) below := by
    simp [Frame.resume, World.dispatch, hnext]
  rw [hstep, World.start, hentry]
  refine ⟨(w.setLock id l).emit (.started (r.grant id) w.thread
    (if t.quiet then none else some (t.tag, (w.setLock id l).stateOf? t.handle))), ?_, rfl⟩
  exact ⟨[_], rfl, rfl⟩

/-- One turn of a loop: an entry point follows its plan. -/
theorem steps_entry {id : LockId} {r : Request Entry} {ds q : List (Request Entry)} {p : Plan}
    (hid : id < w.locks.length) (hchain : (w.lock id).Chain w.thread (r :: ds) q)
    (hp : r.Follows w p) (outcome : Reply) (below : List Frame) (reply : Reply) :
    ∃ w' reply', Steps ⟨w, .dispatching id (some outcome) :: below, .returned reply⟩
        ⟨w', .dispatching id (some outcome) :: below, .returned reply'⟩ ∧
      w.Turned id
        (Lock.afterEntry { w.lock id with runLists := [⟨w.thread, ds⟩] } w.thread r p)
        [r.grant id] w' := by
  obtain ⟨t, hentry, ht⟩ := hp
  have honce := hchain.not_isUnended_handOn
  -- the task is started
  obtain ⟨w₀, hstarted, hstart⟩ := step_dispatching hchain.next hentry outcome below reply
  generalize hl : ({ w.lock id with runLists := [⟨w.thread, ds⟩] } : Lock Entry) = l at *
  generalize hw₁ : ({ w₀ with owned := r.grant id :: w.owned, entered := r.grant id :: w.entered } :
    World) = w₁ at hstart
  have hthread : w₁.thread = w.thread := hw₁ ▸ hstarted.thread
  have hself : w₁.lock id = l := hw₁ ▸ hstarted.lock_self hid
  have hprocedures : w₁.procedures = w.procedures := hw₁ ▸ hstarted.procedures
  have hlt : id < w₁.locks.length := by
    rw [← hw₁]
    exact hstarted.length_locks ▸ hid
  have hloop : l.isDispatching w.thread = true := by simp [← hl, Lock.isDispatching]
  have hunended : l.isUnended r.id = true := hl ▸ hchain.isUnended
  have hentered : w₁.Entered (r.grant id) := by
    refine ⟨by simp [← hw₁], hlt, ?_, ?_, ?_⟩
    all_goals
      simp only [Request.grant_lock, Request.grant_id, Request.grant_mode, hself, hthread]
      assumption
  -- it does what is planned, drops its capability, and arrives at its boundary
  have hown : (⟨t.tag, some (r.grant id), t.quiet⟩ : Context).own = some (r.grant id) := rfl
  obtain ⟨w₂, control, hfinishes, hplan, hreleased⟩ :=
    steps_plan (ht.congr hprocedures) hown hentered
      (.finishing (r.grant id) t :: .invocation (r.grant id) ::
        .dispatching id (some outcome) :: below) .nothing
  simp only [Request.grant_lock, Request.grant_id, Request.grant_mode, hself, hthread] at hreleased
  have hself₂ := hreleased.lock_self hlt
  have hthread₂ : w₂.thread = w.thread := hreleased.thread.trans hthread
  have hloop₂ : (w₂.lock (r.grant id).lock).isDispatching w₂.thread = true := by
    rw [Request.grant_lock, hself₂, hthread₂]
    exact Lock.isDispatching_afterReleases hloop _ _ _
  obtain ⟨w₃, hfinish, hdropped⟩ := steps_finishing hfinishes (hreleased.owned ▸ hentered.owned)
    (hreleased.length_locks ▸ hentered.lock_lt) hloop₂ (.dispatching id (some outcome) :: below)
  have hend : (w₂.lock (r.grant id).lock).afterEnd w₂.thread (r.grant id).id (r.grant id).mode =
      (l.afterReleases w.thread r.id r.mode p.releases).afterEnd w.thread r.id r.mode := by
    rw [Request.grant_lock, hself₂, hthread₂]
    rfl
  rw [hend, Request.grant_lock] at hdropped
  have hself₃ := hdropped.lock_self (hreleased.length_locks ▸ hlt)
  have hended₃ : (w₃.lock (r.grant id).lock).isUnended (r.grant id).id = false := by
    rw [Request.grant_lock, hself₃]
    exact Lock.not_isUnended_afterEnd _ hunended honce
  obtain ⟨w₄, reply', hleave, hcounted⟩ :=
    steps_boundary ht.bomb?_eq_none hended₃ (.dispatching id (some outcome) :: below)
  rw [Request.grant_lock, hself₃, Lock.afterEntry_eq p hunended honce] at hcounted
  refine ⟨w₄, reply', ?_, ?_⟩
  · refine .head ?_
    rw [hstart]
    rw [← World.actionsOf_congr hprocedures]
    exact hplan.trans (hfinish.trans hleave)
  · -- the capability and the span that the start has added are gone
    have howned : w₂.owned.erase (r.grant id) = w.owned := by
      rw [hreleased.owned, ← hw₁]
      simp
    rw [howned] at hdropped
    have hlast := ((hreleased.withOwned w.owned).trans hdropped).leaveSpan.trans hcounted
    have hback : World.leaveSpan { w₁ with owned := w.owned } = w₀ := by
      rw [← hw₁]
      obtain ⟨events, -, rfl⟩ := hstarted
      rfl
    rw [hback] at hlast
    exact hstarted.trans hlast

/-- A thread works off everything that it has deferred, and everything that waits for that. -/
theorem steps_chain {v : World} {id : LockId} {ds q : List (Request Entry)}
    {plans : List Plan} (hid : id < w.locks.length) (hchain : (w.lock id).Chain w.thread ds q)
    (hprocedures : v.procedures = w.procedures)
    (hplans : List.Forall₂ (Request.Follows v) (ds ++ q) plans) (outcome : Reply)
    (below : List Frame) (reply : Reply) :
    ∃ w', Steps ⟨w, .dispatching id (some outcome) :: below, .returned reply⟩
        ⟨w', below, .returned outcome⟩ ∧
      w.Turned id ((w.lock id).settled ((w.lock id).stats.chained plans q))
        ((ds ++ q).map (Request.grant id)) w' := by
  generalize hall : ds ++ q = all at hplans ⊢
  -- the induction is on all that is still to be started, deferred or waiting
  induction hplans generalizing w ds q reply with
  | nil =>
    obtain ⟨rfl, rfl⟩ := List.append_eq_nil_iff.1 hall
    obtain ⟨hnext, hclose⟩ := hchain.next_nil
    refine ⟨w.setLock id ((w.lock id).settled (w.lock id).stats), ?_, World.Turned.setLock w id _⟩
    refine .head ?_
    simp only [step_returned, Frame.resume, World.dispatch, hnext, hclose]
    exact .refl _
  | @cons r p rest plans hp _ ih =>
    cases ds with
    | nil =>
      rw [hchain.moving rfl] at hall
      cases hall
    | cons d ds =>
      obtain ⟨rfl, rfl⟩ := List.cons.inj hall
      obtain ⟨t, hentry, ht⟩ := hp
      obtain ⟨w₁, reply₁, hsteps, hturned⟩ :=
        steps_entry hid hchain ⟨t, hentry, ht.congr hprocedures.symm⟩ outcome below reply
      obtain ⟨ds', q', l, hl, hchain', hall', hconfig, hnext, hstats⟩ := hchain.afterEntry p
      rw [hl] at hturned
      have hself := hturned.lock_self hid
      obtain ⟨w', hsteps', hturned'⟩ := ih (w := w₁)
        (hturned.length_locks ▸ hid) (by rw [hself, hturned.thread]; exact hchain')
        (hprocedures.trans hturned.procedures.symm) reply₁ hall'
      rw [hself, hstats, Lock.settled_congr hconfig hnext] at hturned'
      exact ⟨w', hsteps.trans hsteps', hturned.trans hturned'⟩

namespace Begins

variable {m : Machine} {a : Action}

/-- Before an action begins, the answer to the one before is logged, and nothing else happens. -/
theorem logged (h : m.Begins w context a below) :
    w = m.world ∨ ∃ e : Event, e.lock? = none ∧ w = m.world.emit e := by
  -- an answer is logged if there is one to log and it is not quiet
  have hlog : ∀ (v : World) context last reply, v.logReply context last reply = v ∨
      ∃ e : Event, e.lock? = none ∧ v.logReply context last reply = v.emit e := by
    intro v context last reply
    unfold World.logReply
    cases last with
    | none => exact .inl rfl
    | some word =>
      dsimp only
      split
      · exact .inl rfl
      · exact .inr ⟨_, rfl, rfl⟩
  cases h with
  | call => exact .inl rfl
  | action => exact hlog _ _ _ _
  | work => exact hlog _ _ _ _

theorem wellFormed (h : m.Begins w context a below) (hm : m.Reachable) : w.WellFormed := by
  obtain ⟨⟨hworld, -⟩, -⟩ := hm.exists_ledger
  rcases h.logged with rfl | ⟨e, -, rfl⟩
  · exact hworld
  · exact hworld.emit e

theorem balanced (h : m.Begins w context a below) (hm : m.Reachable) (id : LockId) :
    Balanced id (w.lock id) (w.journal id).accepted (w.journal id).issued
      (w.journal id).ended := by
  have hbalanced := hm.balanced id
  -- no answer is about a lock, so its state and its journal are those of the machine
  rcases h.logged with rfl | ⟨e, he, rfl⟩
  · exact hbalanced
  · have hjournal : (m.world.emit e).journal id = m.world.journal id := by
      simp [World.emit, World.journal, he]
    rw [hjournal]
    exact hbalanced

end Begins

end Machine

namespace Balanced

variable {id : LockId} {l : Lock Entry} {accepted issued ended : List Grant} {g : Grant}

/-- If only one grant is held, the lock knows of no other. -/
theorem of_held_singleton (h : Balanced id l accepted issued ended)
    (hheld : stillHeld issued ended = [g]) :
    l.unended = [(g.id, g.mode)] ∧ l.core.state.Counts [g.mode] ∧ l.isUnended g.id = true := by
  have hunended := h.unended
  have hstate := h.state
  rw [hheld] at hunended hstate
  refine ⟨hunended, hstate, ?_⟩
  simp [Lock.isUnended, hunended]

/-- The waiting requests have different numbers. -/
theorem queue_ids (h : Balanced id l accepted issued ended) :
    l.core.queue.Pairwise fun r r' => r.id < r'.id := by
  have hsorted := h.increasing
  rw [h.queue, List.pairwise_append, List.pairwise_map] at hsorted
  exact hsorted.2.1

end Balanced

namespace Machine

variable {w : World} {g : Grant} {below : List Frame}

/-- The only grant ends, and the thread works off everything that waits. -/
theorem steps_endUnended {plans : List Plan} (hid : g.lock < w.locks.length)
    (hruns : (w.lock g.lock).runLists = [])
    (hunended : (w.lock g.lock).unended = [(g.id, g.mode)])
    (hstate : (w.lock g.lock).core.state.Counts [g.mode])
    (hids : ((w.lock g.lock).core.queue.map (·.id)).Nodup)
    (hplans : List.Forall₂ (Request.Follows w) (w.lock g.lock).core.queue plans)
    (below : List Frame) :
    ∃ w', Steps (ofMove (w.endUnended g) below) ⟨w', below, .returned .nothing⟩ ∧
      w.Turned g.lock
        ((w.lock g.lock).settled
          ((w.lock g.lock).stats.countReleased.chained plans (w.lock g.lock).core.queue))
        ((w.lock g.lock).core.queue.map (Request.grant g.lock)) w' := by
  obtain ⟨hcontrol, hframes⟩ := World.endUnended_frames hid hruns
  have hturned := World.turned_endUnended hid
  have honly := Lock.release_only hunended hstate
  rw [honly] at hframes
  have hstart : ofMove (w.endUnended g) below =
      ⟨(w.endUnended g).world, (w.endUnended g).frames ++ below, .returned .nothing⟩ := by
    rw [ofMove, hcontrol]
  rw [hstart, hframes]
  by_cases hq : (w.lock g.lock).core.queue = []
  · -- nobody waits
    refine ⟨(w.endUnended g).world, ?_, ?_⟩
    · rw [if_pos (batchOf_eq_nil_iff.2 hq)]
      exact .refl _
    · have hnone : plans = [] := by simpa [hq] using hplans
      have hfreed : (w.lock g.lock).handOn w.thread g.id g.mode =
          (w.lock g.lock).settled (w.lock g.lock).stats.countReleased := by
        rw [← Lock.freed_of_queue_nil hq hruns, Lock.handOn, honly, batchOf_eq_nil_iff.2 hq]
        rfl
      rw [hfreed] at hturned
      simpa [hq, hnone, Stats.chained_nil] using hturned
  · rw [if_neg (mt batchOf_eq_nil_iff.1 hq)]
    rw [Lock.handOn_opens w.thread hruns hunended hstate hq] at hturned
    have hself := hturned.lock_self hid
    have hchain := Lock.chain_freed (w.lock g.lock) w.thread hids
    rw [← batchOf_append_rest (w.lock g.lock).core.queue] at hplans
    obtain ⟨w', hsteps, hworked⟩ := steps_chain (w := (w.endUnended g).world)
      (hturned.length_locks ▸ hid) (by rw [hself, hturned.thread]; exact hchain)
      hturned.procedures.symm hplans .nothing below .nothing
    refine ⟨w', hsteps, ?_⟩
    have hall := hturned.trans hworked
    rw [hself, batchOf_append_rest, List.nil_append] at hall
    rw [← Lock.chained_freed]
    exact hall

end Machine

/-- A lock is released while no thread is at work on it, nothing else is held on it, and everybody
    who waits for it has an entry point that follows a plan: it releases its own capability a number
    of times, and then succeeds or fails.  The release comes to its end and returns true.  All entry
    points are started on the way, each once and in the order of submission.  In the end the lock is
    free; its settings and numbers are as before, its counters have grown by exactly what the plans
    say, and no other lock has changed. -/
theorem release_completes_chain {m : Machine} (h : m.Reachable) {w : World} {context : Context}
    {cap : CapRef} {below : List Frame} (hbegins : m.Begins w context (.release cap) below)
    {place : Place} {g : Grant} (hcap : w.locate context cap = some (place, g))
    (hidle : (w.lock g.lock).runLists = []) (hheld : (w.journal g.lock).held = [g])
    {plans : List Plan}
    (hplans : List.Forall₂ (Request.Follows w) (w.lock g.lock).core.queue plans) :
    ∃ w', (Machine.ofMove (w.perform context (.release cap)) below).Steps
        ⟨w', below, .returned (.flag true)⟩ ∧
      (w'.journal g.lock).started =
        (w.journal g.lock).started ++ (w.lock g.lock).core.queue.map (Request.grant g.lock) ∧
      (w'.journal g.lock).started.Nodup ∧
      (w.lock g.lock).core.queue.Pairwise (fun r r' => r.id < r'.id) ∧
      w'.lock g.lock =
        { w.lock g.lock with
          core := { (w.lock g.lock).core with state := .free, queue := [] }
          stats :=
            { (w.lock g.lock).stats with
              released := (w.lock g.lock).stats.released + ((w.lock g.lock).core.queue.length + 1)
              grantedFromQueue :=
                (w.lock g.lock).stats.grantedFromQueue + (w.lock g.lock).core.queue.length
              entryFailures :=
                (w.lock g.lock).stats.entryFailures + plans.countP (·.fault.isSome)
              redundantReleases :=
                (w.lock g.lock).stats.redundantReleases + (plans.map (·.releases - 1)).sum
              readBatches :=
                (w.lock g.lock).stats.readBatches + readRuns (w.lock g.lock).core.queue }
          unended := []
          runLists := [] } ∧
      ∀ other, other ≠ g.lock → w'.lock other = w.lock other := by
  have hid := (World.knows_of_locate (hbegins.wellFormed h) hcap).1
  have hbalanced := hbegins.balanced h g.lock
  obtain ⟨hunended, hstate, hheld'⟩ := hbalanced.of_held_singleton hheld
  -- the entry points of the queue are told apart by their numbers
  have hids : ((w.lock g.lock).core.queue.map (·.id)).Nodup := by
    rw [List.Nodup, List.pairwise_map]
    exact hbalanced.queue_ids.imp Nat.ne_of_lt
  obtain ⟨w', hsteps, hturned⟩ := Machine.steps_endUnended hid hidle hunended hstate hids hplans
    (.answering (.flag true) :: below)
  -- the capability is found and its grant is held, so the release is the end of it and answers true
  have hperform : w.perform context (.release cap) =
      (w.endUnended g).answering (.flag true) := by
    have hrelease : w.release g = (w.endUnended g, true) := if_pos hheld'
    simp [World.perform, World.withCapability, hcap, hrelease]
  -- the frame that answers lies below the chain and is reached when the chain is done
  have hall : (Machine.ofMove (w.perform context (.release cap)) below).Steps
      ⟨w', below, .returned (.flag true)⟩ := by
    rw [hperform]
    have hmove : Machine.ofMove ((w.endUnended g).answering (.flag true)) below =
        Machine.ofMove (w.endUnended g) (.answering (.flag true) :: below) := by
      simp [Machine.ofMove, Move.answering]
    rw [hmove]
    exact hsteps.trans (.head (.refl _))
  refine ⟨w', hall, ?started, ?once, hbalanced.queue_ids, ?lock, ?others⟩
  case started =>
    refine hturned.started ?_
    intro x hx
    obtain ⟨r, -, rfl⟩ := List.mem_map.1 hx
    rfl
  case once =>
    -- an entry point is in one place in the end, so it is not twice among the started ones
    have hreached := h.reaches (.head hbegins.next hall.reaches)
    obtain ⟨out, -, hsound⟩ := hreached.sound g.lock
    have hplaces := hsound.places_nodup
    simp only [List.append_assoc] at hplaces
    exact hplaces.of_append_left
  case lock =>
    rw [hturned.lock_self hid]
    -- what the chain has counted, brought into the form of the statement
    have hlength := hplans.length_eq
    simp only [Lock.settled, Stats.chained, Stats.countReleased, hlength, Nat.add_assoc,
      Nat.add_comm 1]
  case others => exact fun other hother => hturned.lock_of_ne hother.symm

/-! ## A writer that is released from outside -/

/-- A writer parks its capability and returns.  Two readers wait for it, one of which releases twice
    and one panics, and behind them a writer that returns an error.  Then the first is released. -/
def parkedWriter : Action :=
  .guard (.actions
    [.submit 0 .write "writer" (.actions [.park none]) .done true,
     .submit 0 .read "first" (.actions [.release .own, .release .own]) .done true,
     .submit 0 .read "second" (.actions [.panic (.panic "lost")]) .done true,
     .submit 0 .write "last" (.actions [.release .own]) (.io "broken") true,
     .release (.named "writer")])

/-- The machine that performs this on one lock, after some steps. -/
def parkedWriterAfter (n : Nat) : Machine :=
  Machine.step^[n] (Machine.begin (World.initial [{}] []) parkedWriter)

theorem release_completes_chain_parkedWriter :
    ∃ w w' : World, (parkedWriterAfter 11).Begins w {} (.release (.named "writer"))
        [.actions {} (some "release") [], .guarding] ∧
      (Machine.ofMove (w.perform {} (.release (.named "writer")))
        [.actions {} (some "release") [], .guarding]).Steps
          ⟨w', [.actions {} (some "release") [], .guarding], .returned (.flag true)⟩ ∧
      (w'.journal 0).started = [⟨0, 1, .write⟩, ⟨0, 2, .read⟩, ⟨0, 3, .read⟩, ⟨0, 4, .write⟩] ∧
      (w'.lock 0).state = .free ∧
      (w'.lock 0).stats =
        { submitted := 4, grantedImmediately := 1, queued := 3, grantedFromQueue := 3,
          released := 4, redundantReleases := 1, entryFailures := 2, peakPending := 3,
          readBatches := 1 } := by
  have hbegins : (parkedWriterAfter 11).Begins
      ((parkedWriterAfter 11).world.logReply {} (some "submit") .ok) {}
      (.release (.named "writer")) [.actions {} (some "release") [], .guarding] := .action
  -- the world is named, so that its lock and its queue compute once and are not unfolded elsewhere
  generalize hw : (parkedWriterAfter 11).world.logReply {} (some "submit") .ok = w at hbegins
  have hqueue : (w.lock 0).core.queue =
      [⟨2, .read, .task ⟨0, "first", .actions [.release .own, .release .own], .done, true⟩⟩,
       ⟨3, .read, .task ⟨0, "second", .actions [.panic (.panic "lost")], .done, true⟩⟩,
       ⟨4, .write, .task ⟨0, "last", .actions [.release .own], .io "broken", true⟩⟩] := by
    rw [← hw]
    rfl
  have hplans : List.Forall₂ (Request.Follows w) (w.lock 0).core.queue
      [⟨2, none⟩, ⟨0, some (.panic "lost")⟩, ⟨1, some (.error "broken")⟩] := by
    rw [hqueue]
    refine .cons ⟨_, rfl, ?_⟩ (.cons ⟨_, rfl, ?_⟩ (.cons ⟨_, rfl, ?_⟩ .nil))
    · exact .returns rfl (by simp [Ending.fault?])
    · exact .panics rfl rfl
    · exact .returns rfl (by simp [Ending.fault?, Fault.bomb?])
  have hcap : w.locate {} (.named "writer") = some (.kept "writer", ⟨0, 1, .write⟩) := by
    rw [← hw]
    rfl
  obtain ⟨w', hsteps, hstarted, -, -, hlock, -⟩ :=
    release_completes_chain (Machine.reachable_iterate _ _ _ 11) hbegins hcap
      (by rw [← hw]; rfl) (by rw [← hw]; decide) hplans
  refine ⟨w, w', hbegins, hsteps, ?_, ?_, ?_⟩
  · rw [hstarted, ← hw]
    decide
  · rw [Lock.state, hlock]
  · rw [hlock, ← hw]
    decide

end FairLock
