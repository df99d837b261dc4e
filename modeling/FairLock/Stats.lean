/-!
# Counters of a lock

Every lock counts what happens to it.  The counters are for monitoring only: no decision of the
lock looks at them.
-/

namespace FairLock

/-- What has happened on one lock so far. -/
structure Stats where
  /-- Submissions, accepted or not. -/
  submitted : Nat := 0
  /-- Requests granted by their own submission. -/
  grantedImmediately : Nat := 0
  /-- Requests that had to wait. -/
  queued : Nat := 0
  /-- Waiting requests that have been granted. -/
  grantedFromQueue : Nat := 0
  /-- Grants that have ended. -/
  released : Nat := 0
  /-- Releases of a grant that had ended before. -/
  redundantReleases : Nat := 0
  /-- Entry points that failed and were contained. -/
  entryFailures : Nat := 0
  /-- Submissions turned away because the queue was full. -/
  rejected : Nat := 0
  /-- The largest number of requests that ever waited at once. -/
  peakPending : Nat := 0
  /-- Drains that granted two or more readers together. -/
  readBatches : Nat := 0
  deriving DecidableEq

namespace Stats

/-- Grants issued so far, immediate ones and drained ones. -/
def granted (s : Stats) : Nat :=
  s.grantedImmediately + s.grantedFromQueue

/-- The number of grants, if it fits a record counter below `limit`. -/
def granted? (s : Stats) (limit : Nat) : Option Nat :=
  if s.granted < limit then some s.granted else none

/-- A submission was granted on the spot. -/
def countGranted (s : Stats) : Stats :=
  { s with submitted := s.submitted + 1, grantedImmediately := s.grantedImmediately + 1 }

/-- A submission joined the queue, which then held `pending` requests. -/
def countQueued (s : Stats) (pending : Nat) : Stats :=
  { s with
    submitted := s.submitted + 1
    queued := s.queued + 1
    peakPending := max s.peakPending pending }

/-- A submission was turned away. -/
def countRejected (s : Stats) : Stats :=
  { s with submitted := s.submitted + 1, rejected := s.rejected + 1 }

/-- A grant ended. -/
def countReleased (s : Stats) : Stats :=
  { s with released := s.released + 1 }

/-- One drain granted `count` waiting requests, all of them readers if `reads`. -/
def countDrain (s : Stats) (count : Nat) (reads : Bool) : Stats :=
  { s with
    grantedFromQueue := s.grantedFromQueue + count
    readBatches := if reads && decide (1 < count) then s.readBatches + 1 else s.readBatches }

/-- A grant was released that had ended before. -/
def countRedundant (s : Stats) : Stats :=
  { s with redundantReleases := s.redundantReleases + 1 }

/-- An entry point failed and was contained. -/
def countFailure (s : Stats) : Stats :=
  { s with entryFailures := s.entryFailures + 1 }

end Stats

end FairLock
