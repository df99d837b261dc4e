import FairLock.Machine.Step

/-!
# Running a script

A script sets up locks and then performs actions one after the other at top level.  Each action is
run until the machine halts; a panic that leaves it is stopped there and becomes its answer.
-/

namespace FairLock

/-- Locks, procedures, and what is done with them. -/
structure Script where
  configs : List Config
  procedures : Table (List Action)
  steps : List Action

/-- What one action at top level has led to. -/
structure StepReport where
  reply : Reply
  /-- What happened during it, the earliest first. -/
  log : List Event
  /-- The state and the queue length behind each handle after it. -/
  locks : List (Option (State × Nat))

/-- What a script has led to. -/
structure ScriptReport where
  /-- What happened while the locks were created, the earliest first. -/
  created : List Event
  steps : List StepReport
  final : World

namespace World

/-- Create a lock and a handle for it. -/
def create (w : World) (config : Config) : World :=
  let extended : World :=
    { w with
      locks := w.locks ++ [{ config := config }]
      handles := w.handles ++ [some w.locks.length] }
  extended.notify (.created w.locks.length)

/-- The world in which a script begins. -/
def initial (configs : List Config) (procedures : Table (List Action)) : World :=
  configs.foldl create { procedures := procedures }

/-- A number of steps that no script of practical size exceeds. -/
def stepBudget : Nat := 1099511627776

/-- Perform an action at top level: the world after it and the answer, unless the machine did not
    halt in time or was aborted. -/
def call (w : World) (a : Action) : Option (World × Reply) :=
  match (Machine.begin w a).runFor stepBudget with
  | none => none
  | some m =>
    match m.control with
    | .returned reply => some (m.world, reply)
    | .unwinding fault => some (m.world, .unwound fault.text)
    | .aborted => none

/-- What has happened since the history was `before` long, the earliest first. -/
def eventsSince (w : World) (before : Nat) : List Event :=
  (w.history.take (w.history.length - before)).reverse

/-- The state and the queue length behind each handle. -/
def overview (w : World) : List (Option (State × Nat)) :=
  w.handles.map fun handle => handle.map fun id => ((w.lock id).state, (w.lock id).pending)

/-- Perform actions one after the other. -/
def callAll (w : World) : List Action → Option (World × List StepReport)
  | [] => some (w, [])
  | a :: rest => do
    let (next, reply) ← w.call a
    let (final, reports) ← next.callAll rest
    return (final, ⟨reply, next.eventsSince w.history.length, next.overview⟩ :: reports)

end World

/-- Run a script. -/
def Script.run (s : Script) : Option ScriptReport := do
  let w := World.initial s.configs s.procedures
  let (final, reports) ← w.callAll s.steps
  return ⟨w.eventsSince 0, reports, final⟩

end FairLock
