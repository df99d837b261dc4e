import FairLock.Proofs.Ledger.Places
import FairLock.Proofs.Machine.Steps
import FairLock.Script.Run
import Mathlib.Logic.Function.Iterate

/-!
# Runs of the machine

A machine is run step by step, and whenever it is idle the next action is called at top level.
Every lock of a machine that is reached in this way shows a reachable ledger.

A fault that leaves the cleaning up after an earlier one never reaches a task again: it meets the
fault that waits below, and the machine is aborted.  From then on nothing happens on any lock, and
the grants that were still to be handed back are with nobody.

## Main definitions

- `Machine.out`: the grants that an unwound loop has taken out and that are still to be handed back.
- `Machine.takenOut`: with those among them that were dropped since.
- `Machine.isAborting`: no task will run again.
- `Machine.Ok`: the invariant of a machine.
- `Machine.Next`, `Machine.Reaches`, `Machine.Reachable`.

## Main statements

- `Machine.Ok.step_leads`, `Machine.Ok.step_aborting`: what one step preserves.
- `Machine.Ok.reaches`: what a run preserves.
- `Machine.Reachable.exists_ledger`: every lock of a reachable machine shows a reachable ledger.
- `Machine.Reachable.history_suffix`: what has happened stays recorded.
- `Script.reachable_of_run`: a script reaches such a machine.
-/

namespace FairLock

namespace Machine

/-- The grants that an unwound loop has taken out and that are still to be handed back. -/
def out (m : Machine) : List Grant := outOf m.frames

/-- The requests of a lock that unwound loops have taken out, to be handed back or dropped since. -/
def takenOut (m : Machine) (id : LockId) : List Grant :=
  (m.out.filter fun g => g.lock == id) ++ (m.world.journal id).handedBack

/-- Is the machine aborted, or about to be because a fault has left the cleaning up after an
    earlier one?  No task runs again then. -/
def isAborting (m : Machine) : Bool :=
  match m.control, m.frames with
  | .aborted, _ => true
  | .unwinding _, .handingBack _ _ :: _ => true
  | .unwinding _, .discarding _ _ :: _ => true
  | .unwinding _, .rethrowing _ :: _ => true
  | _, _ => false

/-- The invariant of a machine. -/
structure Ok (m : Machine) : Prop where
  world : m.world.WellFormed
  stack : StackOk m.world m.frames

namespace Ok

variable {m : Machine} {w : World} {below : List Frame}

/-- A move that is right, on top of a stack that was. -/
theorem ofMove {move : Move} (h : move.Ok w (outOf below)) (hbelow : StackOk w below) :
    (ofMove move below).Ok ∧
      w.Leads (outOf below) (ofMove move below).world (ofMove move below).out := by
  refine ⟨⟨h.wellFormed, ?_⟩, ?_⟩
  · exact .append h.frames (hbelow.mono h.leads.locks h.leads.history)
  · rw [out, Machine.ofMove, outOf_append_of_supported h.frames]
    exact h.leads

/-! ## The cleaning up after a loop -/

/-- Unwinding a loop takes its grants off the run list; they are with the frames that clean up. -/
theorem unwindDispatch (h : w.WellFormed) (hbelow : StackOk w below) {lock : LockId}
    (hid : lock < w.locks.length) (fault : Fault) :
    (Machine.ofMove (w.unwindDispatch lock fault) below).Ok ∧
      w.Leads (outOf below) (Machine.ofMove (w.unwindDispatch lock fault) below).world
        (Machine.ofMove (w.unwindDispatch lock fault) below).out := by
  have hleads : w.Leads (outOf below) (w.unwindDispatch lock fault).world
      (((w.lock lock).deferredOn w.thread).map (Request.grant lock) ++ outOf below) := by
    refine World.Leads.of_step ((w.lock lock).close w.thread).1 [] hid rfl rfl (by simp) ?_ ?_
    · -- nothing of another lock is taken out
      intro other hother
      have hnone : ((((w.lock lock).deferredOn w.thread).map (Request.grant lock)).filter
          fun g => g.lock == other) = [] := by
        simp [List.filter_eq_nil_iff, Ne.symm hother]
      rw [List.filter_append, hnone, List.nil_append]
    · have hall : ((((w.lock lock).deferredOn w.thread).map (Request.grant lock)).filter
          fun g => g.lock == lock) =
            ((w.lock lock).deferredOn w.thread).map (Request.grant lock) := by
        simp [List.filter_eq_self]
      rw [List.filter_append, hall]
      exact .closed w.thread
  refine ⟨⟨h.setLock _ _, ?_⟩, hleads⟩
  refine .handingBack ?_ (hbelow.mono hleads.locks hleads.history)
  exact hleads.lock_lt hid

/-- Handing a grant back ends it; the loop still has to drop its entry point. -/
theorem handBack (h : w.WellFormed) {lock : LockId} {items : List (Request Entry)}
    (hstack : StackOk w (.handingBack lock items :: below)) :
    (Machine.ofMove (w.handBack lock items) below).Ok ∧
      w.Leads (outOf (.handingBack lock items :: below))
        (Machine.ofMove (w.handBack lock items) below).world
        (Machine.ofMove (w.handBack lock items) below).out := by
  cases hstack with
  | frame hf _ => exact hf.elim
  | @handingBack _ _ fault rest hlock hrest =>
    cases items with
    | nil => exact ⟨⟨h, .frame trivial hrest⟩, .refl _ _⟩
    | cons r items =>
      -- seen from the ledgers, the move puts the two frames down first and ends the grant then
      have hstack : StackOk w
          (.discarding (r.grant lock) r.payload :: .handingBack lock items ::
            .rethrowing fault :: rest) :=
        .discarding (g := r.grant lock) (.handingBack hlock hrest)
      have hsource : r.grant lock ∈
          outOf (.discarding (r.grant lock) r.payload :: .handingBack lock items ::
            .rethrowing fault :: rest) := by
        simp [Frame.out]
      have hend := World.endGrant_ok_of_source h (g := r.grant lock) hlock (.inr hsource)
      have hmove : Machine.ofMove (w.handBack lock (r :: items)) (.rethrowing fault :: rest) =
          Machine.ofMove (w.endGrant (r.grant lock))
            (.discarding (r.grant lock) r.payload :: .handingBack lock items ::
              .rethrowing fault :: rest) := by
        simp [Machine.ofMove, World.handBack, Request.grant]
      rw [hmove]
      exact ofMove hend hstack

/-- Dropping the entry point lets go of the grant. -/
theorem discard (h : w.WellFormed) {g : Grant} {entry : Entry}
    (hstack : StackOk w (.discarding g entry :: below)) :
    (Machine.ofMove { world := w.discard (some g) entry } below).Ok ∧
      w.Leads (outOf (.discarding g entry :: below))
        (Machine.ofMove { world := w.discard (some g) entry } below).world
        (Machine.ofMove { world := w.discard (some g) entry } below).out := by
  cases hstack with
  | frame hf _ => exact hf.elim
  | @discarding _ _ items rest hrest =>
    -- what is dropped next comes of a run list, so the lock is there
    have hid : g.lock < w.locks.length := by
      cases hrest with
      | frame hf _ => exact hf.elim
      | handingBack hlock _ => exact hlock
    have hleads := World.leads_discard_some hid entry (outOf (.handingBack g.lock items :: rest))
    have hwell := World.discard_wellFormed h (some g) entry
    exact ⟨⟨hwell, hrest.mono hleads.locks hleads.history⟩, hleads⟩

/-! ## One step -/

/-- A step keeps the invariant and leads every ledger on, unless the machine is aborting. -/
theorem step_leads (h : m.Ok) (hm : m.isAborting = false) :
    m.step.Ok ∧ m.world.Leads m.out m.step.world m.step.out := by
  obtain ⟨w, frames, control⟩ := m
  obtain ⟨hworld, hstack⟩ := h
  cases frames with
  | nil => exact ⟨⟨hworld, hstack⟩, .refl _ _⟩
  | cons f below =>
    cases control with
    | aborted => simp [isAborting] at hm
    | returned reply =>
      rw [step_returned]
      cases hstack with
      | frame hf hbelow =>
        have := ofMove (Frame.resume_ok hworld hf reply) hbelow
        simpa only [out, outOf_cons, hf.out_eq_nil, List.nil_append] using this
      | handingBack hlock hrest => exact handBack hworld (.handingBack hlock hrest)
      | discarding hrest => exact discard hworld (.discarding hrest)
    | unwinding fault =>
      rw [step_unwinding]
      cases hstack with
      | frame hf hbelow =>
        have hout : out ⟨w, f :: below, .unwinding fault⟩ = outOf below := by
          rw [out, outOf_cons, hf.out_eq_nil, List.nil_append]
        rw [hout]
        -- a loop is the only frame that takes grants out when it is unwound
        by_cases hloop : ∃ lock outcome, f = .dispatching lock outcome
        · obtain ⟨lock, outcome, rfl⟩ := hloop
          exact unwindDispatch hworld hbelow hf fault
        · have hno : ∀ lock outcome, f ≠ .dispatching lock outcome := fun lock outcome heq =>
            hloop ⟨lock, outcome, heq⟩
          exact ofMove (Frame.unwind_ok hworld hf hno fault) hbelow
      | handingBack _ _ => simp [isAborting] at hm
      | discarding _ => simp [isAborting] at hm

/-- An aborting machine does nothing to the world any more. -/
theorem step_aborting (h : m.Ok) (hm : m.isAborting = true) :
    m.step.Ok ∧ m.step.world = m.world ∧ m.step.isAborting = true := by
  obtain ⟨w, frames, control⟩ := m
  obtain ⟨hworld, hstack⟩ := h
  -- which frames are on the stack says whether what is passed down can still be caught
  cases control with
  | returned reply => cases frames <;> simp [isAborting] at hm
  | aborted =>
    rw [step_aborted]
    exact ⟨⟨hworld, hstack⟩, rfl, rfl⟩
  | unwinding fault =>
    cases hstack with
    | nil => simp [isAborting] at hm
    | @frame f below hf hbelow =>
      cases f with
      | rethrowing fault => exact ⟨⟨hworld, hbelow⟩, rfl, rfl⟩
      | handingBack lock items => exact hf.elim
      | discarding g entry => exact hf.elim
      | _ => simp [isAborting] at hm
    | handingBack hlock hrest => exact ⟨⟨hworld, .frame trivial hrest⟩, rfl, rfl⟩
    | discarding hrest => exact ⟨⟨hworld, hrest⟩, rfl, rfl⟩

end Ok

/-! ## Runs -/

/-- A machine makes a step, or an idle one is given the next action at top level. -/
inductive Next : Machine → Machine → Prop where
  | step (m : Machine) : Next m m.step
  | call {w : World} {control : Control} (a : Action) (hcontrol : control ≠ .aborted) :
      Next ⟨w, [], control⟩ (begin w a)

/-- Any number of steps and calls. -/
abbrev Reaches : Machine → Machine → Prop := Relation.ReflTransGen Next

/-- A machine that has nothing to do in a world. -/
def idle (w : World) : Machine := ⟨w, [], .returned .nothing⟩

/-- A machine that can come about: some locks are created, and then actions are performed. -/
def Reachable (m : Machine) : Prop :=
  ∃ configs procedures, Reaches (idle (World.initial configs procedures)) m

theorem Reachable.reaches {m m' : Machine} (h : m.Reachable) (hr : Reaches m m') :
    m'.Reachable := by
  obtain ⟨configs, procedures, hinitial⟩ := h
  exact ⟨configs, procedures, hinitial.trans hr⟩

/-- The grants that a machine still has to hand back, as far as anybody will hand them back. -/
def Holds (m : Machine) (out : List Grant) : Prop := m.isAborting = false → out = m.out

/-- What a step or a call preserves. -/
theorem Ok.next {m m' : Machine} (h : m.Ok) (hn : Next m m') {out : List Grant}
    (hout : m.Holds out) :
    m'.Ok ∧ ∃ out', m.world.Leads out m'.world out' ∧ m'.Holds out' := by
  cases hn with
  | step =>
    cases hm : m.isAborting with
    | false =>
      obtain ⟨hok, hleads⟩ := h.step_leads hm
      exact ⟨hok, m.step.out, hout hm ▸ hleads, fun _ => rfl⟩
    | true =>
      -- the frames lose what they hold, but nobody will ask for it
      obtain ⟨hok, hworld, habort⟩ := h.step_aborting hm
      refine ⟨hok, out, hworld ▸ .refl _ _, ?_⟩
      intro hm'
      simp [habort] at hm'
  | @call w control a hcontrol =>
    have hidle : isAborting ⟨w, [], control⟩ = false := by
      cases control with
      | aborted => exact absurd rfl hcontrol
      | _ => rfl
    obtain ⟨hok, hleads⟩ := Ok.ofMove (World.perform_ok h.world {} a) .nil
    exact ⟨hok, (begin w a).out, hout hidle ▸ hleads, fun _ => rfl⟩

/-- What a run preserves. -/
theorem Ok.reaches {m m' : Machine} (h : m.Ok) (hr : Reaches m m') {out : List Grant}
    (hout : m.Holds out) :
    m'.Ok ∧ ∃ out', m.world.Leads out m'.world out' ∧ m'.Holds out' := by
  induction hr with
  | refl => exact ⟨h, out, .refl _ _, hout⟩
  | tail _ hn ih =>
    obtain ⟨hok, between, hleads, hbetween⟩ := ih
    obtain ⟨hok', out', hleads', hout'⟩ := hok.next hn hbetween
    exact ⟨hok', out', hleads.trans hleads', hout'⟩

end Machine

/-! ## The beginning -/

namespace World

/-- Locks have been created, and nothing else has happened. -/
structure JustCreated (w : World) : Prop where
  wellFormed : w.WellFormed
  locks : ∀ l ∈ w.locks, ∃ config, l = { config := config }
  history : ∀ e ∈ w.history, ∃ id entered, e = .notice (.created id) entered

theorem JustCreated.create {w : World} (h : w.JustCreated) (config : Config) :
    (w.create config).JustCreated := by
  -- one lock more, and what the tasks had before refers to locks that keep their numbers
  have hlength : (w.create config).locks.length = w.locks.length + 1 := by
    simp [World.create, notify, emit]
  have hknows : ∀ g, w.Knows g → (w.create config).Knows g := by
    intro g hg
    refine ⟨by rw [hlength]; exact Nat.lt_succ_of_lt hg.1, ?_⟩
    exact mem_occurrences_of_suffix ((List.suffix_cons _ _).filter _) hg.2
  constructor
  case wellFormed =>
    constructor
    case handles =>
      intro id hid
      rw [hlength]
      have hid' : some id ∈ w.handles ++ [some w.locks.length] := hid
      rw [List.mem_append, List.mem_singleton, Option.some.injEq] at hid'
      rcases hid' with hid | rfl
      · exact Nat.lt_succ_of_lt (h.wellFormed.handles id hid)
      · exact Nat.lt_succ_self _
    case store => exact fun entry he => hknows _ (h.wellFormed.store entry he)
    case owned => exact fun g hg => hknows _ (h.wellFormed.owned g hg)
    case channels => exact fun c hc g hg => hknows _ (h.wellFormed.channels c hc g hg)
    case futures =>
      intro entry he
      obtain ⟨hheld, hlock⟩ := h.wellFormed.futures entry he
      refine ⟨fun g hg => hknows _ (hheld g hg), fun id hid => ?_⟩
      rw [hlength]
      exact Nat.lt_succ_of_lt (hlock id hid)
  case locks =>
    intro l hl
    rcases List.mem_append.1 (show l ∈ w.locks ++ [_] from hl) with hl | hl
    · exact h.locks l hl
    · exact ⟨config, List.mem_singleton.1 hl⟩
  case history =>
    intro e he
    rcases List.mem_cons.1 (show e ∈ _ :: w.history from he) with rfl | he
    · exact ⟨_, _, rfl⟩
    · exact h.history e he

theorem justCreated_initial (configs : List Config) (procedures : Table (List Action)) :
    (initial configs procedures).JustCreated := by
  have hstart : ({ procedures := procedures } : World).JustCreated := by
    constructor
    case wellFormed => constructor <;> simp
    all_goals simp
  unfold initial
  generalize ({ procedures := procedures } : World) = w at hstart
  induction configs generalizing w with
  | nil => exact hstart
  | cons config rest ih => exact ih _ (hstart.create config)

/-- A world in which nothing has happened shows fresh ledgers. -/
theorem JustCreated.fresh {w : World} (h : w.JustCreated) (id : LockId) :
    Ledger.Fresh (w.ledger [] id) := by
  constructor
  case lock =>
    -- a number beyond the locks stands for one that nothing was done with
    cases hget : w.locks[id]? with
    | none => exact ⟨{}, by simp [ledger, World.lock, List.getD_eq_getElem?_getD, hget]⟩
    | some l =>
      obtain ⟨config, rfl⟩ := h.locks l (List.mem_of_getElem? hget)
      exact ⟨config, by simp [ledger, World.lock, List.getD_eq_getElem?_getD, hget]⟩
  case journal => exact fun e he => h.history e (List.mem_filter.1 he).1
  case out => rfl

end World

/-! ## Reachable machines -/

namespace Machine

/-- Every lock of a reachable machine shows a reachable ledger.  What is still to be handed back is
    with the frames of the machine, unless it is aborting. -/
theorem Reachable.exists_ledger {m : Machine} (h : m.Reachable) :
    m.Ok ∧ ∃ out, m.Holds out ∧ ∀ id, Ledger.Reachable id (m.world.ledger out id) := by
  obtain ⟨configs, procedures, hr⟩ := h
  have hcreated := World.justCreated_initial configs procedures
  have hok : (idle (World.initial configs procedures)).Ok := ⟨hcreated.wellFormed, .nil⟩
  obtain ⟨hm, out, hleads, hout⟩ := hok.reaches hr (fun _ => rfl : Holds _ [])
  exact ⟨hm, out, hout, fun id => ⟨_, hcreated.fresh id, hleads.run id⟩⟩

theorem Reachable.sound {m : Machine} (h : m.Reachable) (id : LockId) :
    ∃ out, m.Holds out ∧ Ledger.Sound id (m.world.ledger out id) := by
  obtain ⟨-, out, hout, hreachable⟩ := h.exists_ledger
  exact ⟨out, hout, (hreachable id).sound⟩

/-- The journal of a lock and its core agree at every moment. -/
theorem Reachable.balanced {m : Machine} (h : m.Reachable) (id : LockId) :
    Balanced id (m.world.lock id) (m.world.journal id).accepted (m.world.journal id).issued
      (m.world.journal id).ended := by
  obtain ⟨out, -, hsound⟩ := h.sound id
  exact hsound.balanced

/-- What has happened stays recorded. -/
theorem Reachable.history_suffix {m m' : Machine} (h : m.Reachable) (hr : Reaches m m') :
    m.world.history <:+ m'.world.history := by
  obtain ⟨hok, out, hholds, -⟩ := h.exists_ledger
  obtain ⟨-, out', hleads, -⟩ := hok.reaches hr hholds
  exact hleads.history

/-- No lock is created or lost, -/
theorem Reachable.length_locks {m m' : Machine} (h : m.Reachable) (hr : Reaches m m') :
    m'.world.locks.length = m.world.locks.length := by
  obtain ⟨hok, out, hholds, -⟩ := h.exists_ledger
  obtain ⟨-, out', hleads, -⟩ := hok.reaches hr hholds
  exact hleads.locks

/-- and each keeps its settings. -/
theorem Reachable.config_eq {m m' : Machine} (h : m.Reachable) (hr : Reaches m m') (id : LockId) :
    (m'.world.lock id).config = (m.world.lock id).config := by
  obtain ⟨hok, out, hholds, -⟩ := h.exists_ledger
  obtain ⟨-, out', hleads, -⟩ := hok.reaches hr hholds
  exact (hleads.run id).config_eq

theorem Reachable.occurrences_append {m m' : Machine} (h : m.Reachable) (hr : Reaches m m')
    (pick : Event → Option Grant) (id : LockId) :
    ∃ more, occurrences pick (m'.world.journal id) =
      occurrences pick (m.world.journal id) ++ more := by
  obtain ⟨new, hnew⟩ := (h.history_suffix hr).filter fun e => e.lock? == some id
  refine ⟨occurrences pick new, ?_⟩
  have hjournal : m'.world.journal id = new ++ m.world.journal id := hnew.symm
  rw [hjournal, FairLock.occurrences_append]

theorem Reachable.mem_occurrences {m m' : Machine} (h : m.Reachable) (hr : Reaches m m')
    {pick : Event → Option Grant} {id : LockId} {g : Grant}
    (hg : g ∈ occurrences pick (m.world.journal id)) :
    g ∈ occurrences pick (m'.world.journal id) :=
  mem_occurrences_of_suffix ((h.history_suffix hr).filter _) hg

/-- Any number of steps after an action was called in a fresh world. -/
theorem reaches_iterate (configs : List Config) (procedures : Table (List Action)) (a : Action)
    (n : Nat) : Reaches (idle (World.initial configs procedures))
      (step^[n] (begin (World.initial configs procedures) a)) := by
  refine .head (.call a (by simp)) ?_
  induction n with
  | zero => exact .refl
  | succ n ih =>
    rw [Function.iterate_succ_apply']
    exact ih.tail (.step _)

theorem reachable_iterate (configs : List Config) (procedures : Table (List Action)) (a : Action)
    (n : Nat) : (step^[n] (begin (World.initial configs procedures) a)).Reachable :=
  ⟨configs, procedures, reaches_iterate configs procedures a n⟩

/-! ## Scripts -/

theorem reaches_of_runFor {fuel : Nat} {m final : Machine} (h : m.runFor fuel = some final) :
    Reaches m final := by
  -- each unit of fuel is a step, unless the machine has halted before
  induction fuel generalizing m with
  | zero =>
    unfold runFor at h
    split at h
    · cases h
      exact .refl
    · cases h
  | succ fuel ih =>
    unfold runFor at h
    split at h
    · cases h
      exact .refl
    · exact .head (.step m) (ih h)

/-- An action at top level that comes to its end leaves an idle machine. -/
theorem reaches_of_call {w w' : World} {a : Action} {reply : Reply} {control : Control}
    (hcontrol : control ≠ .aborted) (h : w.call a = some (w', reply)) :
    ∃ control', control' ≠ .aborted ∧ Reaches ⟨w, [], control⟩ ⟨w', [], control'⟩ := by
  unfold World.call at h
  cases hrun : (begin w a).runFor World.stepBudget with
  | none => simp [hrun] at h
  | some final =>
    have hreaches : Reaches ⟨w, [], control⟩ final :=
      .head (.call a hcontrol) (reaches_of_runFor hrun)
    -- a run that has ended in time has halted, so nothing is left on the stack unless it is aborted
    have hhalted := isHalted_of_runFor hrun
    obtain ⟨world, frames, control'⟩ := final
    simp only [hrun] at h
    cases control' with
    | aborted => simp at h
    | returned answer =>
      obtain ⟨rfl, -⟩ : world = w' ∧ answer = reply := by simpa using h
      cases frames with
      | nil => exact ⟨_, by simp, hreaches⟩
      | cons f below => simp [isHalted] at hhalted
    | unwinding fault =>
      obtain ⟨rfl, -⟩ : world = w' ∧ Reply.unwound fault.text = reply := by simpa using h
      cases frames with
      | nil => exact ⟨_, by simp, hreaches⟩
      | cons f below => simp [isHalted] at hhalted

theorem reaches_of_callAll {w final : World} {actions : List Action} {reports : List StepReport}
    {control : Control} (hcontrol : control ≠ .aborted)
    (h : w.callAll actions = some (final, reports)) :
    ∃ control', control' ≠ .aborted ∧ Reaches ⟨w, [], control⟩ ⟨final, [], control'⟩ := by
  induction actions generalizing w reports control with
  | nil =>
    obtain ⟨rfl, -⟩ : w = final ∧ [] = reports := by simpa [World.callAll] using h
    exact ⟨control, hcontrol, .refl⟩
  -- one action after the other, each from an idle machine to an idle one
  | cons a rest ih =>
    simp only [World.callAll, Option.bind_eq_bind, Option.bind_eq_some_iff] at h
    obtain ⟨⟨next, reply⟩, hcall, ⟨last, more⟩, hrest, heq⟩ := h
    obtain ⟨rfl, -⟩ : last = final ∧ _ = reports := by simpa using heq
    obtain ⟨between, hbetween, hreaches⟩ := reaches_of_call hcontrol hcall
    obtain ⟨control', hcontrol', hreaches'⟩ := ih hbetween hrest
    exact ⟨control', hcontrol', hreaches.trans hreaches'⟩

end Machine

/-- A script that comes to its end has reached an idle machine. -/
theorem Script.reachable_of_run {s : Script} {report : ScriptReport} (h : s.run = some report) :
    ∃ control, control ≠ .aborted ∧ Machine.Reachable ⟨report.final, [], control⟩ := by
  simp only [Script.run, Option.bind_eq_bind, Option.bind_eq_some_iff] at h
  obtain ⟨⟨final, reports⟩, hall, heq⟩ := h
  cases heq
  have hidle : Control.returned .nothing ≠ .aborted := by simp
  obtain ⟨control, hcontrol, hreaches⟩ := Machine.reaches_of_callAll hidle hall
  exact ⟨control, hcontrol, s.configs, s.procedures, hreaches⟩

/-! ## A run with deferred readers -/

/-- A writer lets two readers wait.  They are drained together, and while the second is still on the
    run list the first does something and then submits a third one. -/
def writerAndReaders (first : List Action) : Action :=
  .submit 0 .write "writer" (.actions
    [.submit 0 .read "first" (.actions
      (first ++ [.submit 0 .read "third" (.actions []) .done true])) .done true,
     .submit 0 .read "second" (.actions []) .done true]) .done true

/-- The machine that performs this on one lock, after some steps. -/
def writerAndReadersAfter (config : Config) (first : List Action) (n : Nat) : Machine :=
  Machine.step^[n] (Machine.begin (World.initial [config] []) (writerAndReaders first))

theorem reachable_writerAndReadersAfter (config : Config) (first : List Action) (n : Nat) :
    (writerAndReadersAfter config first n).Reachable :=
  Machine.reachable_iterate _ _ _ n

end FairLock
