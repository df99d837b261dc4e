/-!
# Targets of reports

Every report names the part of the program that makes the statement, by a path.
-/

namespace FairLock

/-- The parts of the program that make statements. -/
inductive Target where
  /-- Creation of locks. -/
  | lock
  /-- Submission, release and draining. -/
  | operations
  /-- Starting of entry points. -/
  | dispatch
  /-- Capabilities. -/
  | grant
  /-- Spans and the setup of reporting. -/
  | tracer
  deriving DecidableEq

namespace Target

/-- The path of a target. -/
def path : Target → String
  | lock => "ordered_rwlock::core::sync::rwlock"
  | operations => "ordered_rwlock::core::sync::rwlock::operations"
  | dispatch => "ordered_rwlock::core::sync::rwlock::dispatch"
  | grant => "ordered_rwlock::core::sync::rwlock::grant"
  | tracer => "ordered_rwlock::monitoring::tracer"

end Target

end FairLock
