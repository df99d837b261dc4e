import FairLock.Mode

/-!
# Failures that a submitter sees

Only the caller that submitted a request ever sees one of these.  A failure of an entry point that
some other caller's release has started is contained and reported, but handed to nobody.
-/

namespace FairLock

/-- Requests of one lock are numbered from one, in the order in which they are accepted; a grant
    goes by the number of its request. -/
abbrev GrantId := Nat

/-- Why a submission did not end well. -/
inductive Failure where
  /-- The request would have had to wait, and `limit` requests were waiting already. -/
  | queueFull (limit : Nat)
  /-- The entry point was started and returned an error. -/
  | entryFailed (grant : GrantId) (mode : Mode) (reason : String)
  /-- The entry point was started and panicked. -/
  | entryPanicked (grant : GrantId) (mode : Mode) (message : String)
  /-- The entry point was dropped without being started. -/
  | abandoned
  deriving DecidableEq

namespace Failure

/-- The grant that a failure is about, if any. -/
def grant? : Failure → Option GrantId
  | entryFailed grant _ _ => some grant
  | entryPanicked grant _ _ => some grant
  | _ => none

/-- Was the request turned away without touching the lock? -/
def isRejection : Failure → Bool
  | queueFull _ => true
  | _ => false

/-- The message for the submitter. -/
def message : Failure → String
  | queueFull limit => "Request queue full (" ++ toString limit ++ " pending)"
  | entryFailed grant mode reason =>
    "Entry point for " ++ mode.text ++ " grant " ++ toString grant ++ " failed: " ++ reason
  | entryPanicked grant mode message =>
    "Entry point for " ++ mode.text ++ " grant " ++ toString grant ++ " panicked: " ++ message
  | abandoned => "Request dropped before its entry point was started"

/-- The code under which a failure is listed. -/
def code : Failure → String
  | queueFull _ => "rwlock::queue_full"
  | entryFailed _ _ _ => "rwlock::entry_failed"
  | entryPanicked _ _ _ => "rwlock::entry_panicked"
  | abandoned => "rwlock::abandoned"

/-- What the submitter can do about it. -/
def help : Failure → String
  | queueFull _ =>
    "Too many requests are waiting. Release outstanding grants or raise max_pending."
  | entryFailed _ _ _ =>
    "The grant was released on the entry point's behalf; queued requests continue."
  | entryPanicked _ _ _ =>
    "The grant was released on the entry point's behalf; queued requests continue."
  | abandoned =>
    "A panic escaped while this thread was starting queued entry points; the grant was handed " ++
    "back. Retry the request."

end Failure

end FairLock
