import FairLock.Machine.World
import FairLock.Report.Filter

/-!
# Notices in words

Each notice of a lock has a level, a message, fields, and a target: the part of the program that
makes the statement.  Times are not part of a notice.
-/

namespace FairLock

/-- The value of a field of a notice. -/
inductive FieldValue where
  | text (value : String)
  | number (value : Nat)
  | flag (value : Bool)

namespace FieldValue

/-- The value as text, without quotes. -/
def written : FieldValue → String
  | text value => value
  | number value => toString value
  | flag true => "true"
  | flag false => "false"

end FieldValue

/-- The text of a bound that may be missing. -/
def boundText : Option Nat → String
  | none => "None"
  | some n => "Some(" ++ toString n ++ ")"

namespace Notice

/-- The level of a notice. -/
def level : Notice → Level
  | rejected .. => .warn
  | slow _ => .warn
  | entryFailed .. => .warn
  | redundant _ => .trace
  | _ => .debug

/-- The message of a notice. -/
def message : Notice → String
  | created _ => "rwlock created"
  | grantedImmediately .. => "granted immediately"
  | queued .. => "request queued"
  | rejected .. => "request rejected, queue full"
  | closed _ => "grant closed"
  | slow _ => "grant held past slow threshold"
  | released .. => "grant released"
  | draining .. => "draining queued requests"
  | redundant _ => "redundant release ignored"
  | entryFailed .. => "entry point failed, grant released"

/-- The part of the program that makes the statement. -/
def target : Notice → Target
  | created _ => .lock
  | closed _ => .tracer
  | slow _ => .tracer
  | redundant _ => .grant
  | entryFailed .. => .dispatch
  | _ => .operations

/-- The fields of a notice, in order.  Locks go by the names in their settings. -/
def fields (w : World) : Notice → List (String × FieldValue)
  | created lock =>
    [("lock", .text (w.lock lock).config.name),
     ("max_pending", .text (boundText (w.lock lock).config.maxPending))]
  | grantedImmediately g state =>
    [("lock", .text (w.lock g.lock).config.name), ("grant", .text (toString g.id)),
     ("mode", .text g.mode.text), ("state", .text state.text)]
  | queued g state pending =>
    [("lock", .text (w.lock g.lock).config.name), ("grant", .text (toString g.id)),
     ("mode", .text g.mode.text), ("state", .text state.text), ("pending", .number pending)]
  | rejected lock mode limit =>
    [("lock", .text (w.lock lock).config.name), ("mode", .text mode.text),
     ("limit", .number limit)]
  | closed _ => []
  | slow _ => [("slow", .flag true)]
  | released g state pending =>
    [("lock", .text (w.lock g.lock).config.name), ("grant", .text (toString g.id)),
     ("mode", .text g.mode.text), ("state", .text state.text), ("pending", .number pending)]
  | draining lock mode count pending =>
    [("lock", .text (w.lock lock).config.name), ("mode", .text mode.text),
     ("count", .number count), ("pending", .number pending)]
  | redundant g =>
    [("lock", .text (w.lock g.lock).config.name), ("grant", .text (toString g.id))]
  | entryFailed g failure =>
    [("lock", .text (w.lock g.lock).config.name), ("grant", .text (toString g.id)),
     ("mode", .text g.mode.text), ("error", .text failure.message)]

/-- The names of all fields of a notice, its message and its times included. -/
def fieldNames : Notice → List String
  | created _ => ["message", "lock", "max_pending"]
  | grantedImmediately .. => ["message", "lock", "grant", "mode", "state"]
  | queued .. => ["message", "lock", "grant", "mode", "state", "pending"]
  | rejected .. => ["message", "lock", "mode", "limit"]
  | closed _ => ["message", "held_us"]
  | slow _ => ["message", "held_ms", "slow"]
  | released .. => ["message", "lock", "grant", "mode", "state", "pending"]
  | draining .. => ["message", "lock", "mode", "count", "pending"]
  | redundant _ => ["message", "lock", "grant"]
  | entryFailed .. => ["message", "lock", "grant", "mode", "error"]

/-- What is known of a notice before it is made. -/
def site (n : Notice) : Site := ⟨n.target, n.level, some n.fieldNames⟩

end Notice

/-- The name of the span of a grant: the lock, the number and the mode. -/
def Grant.spanName (w : World) (g : Grant) : String :=
  "grant " ++ (w.lock g.lock).config.name ++ " " ++ toString g.id ++ " " ++ g.mode.text

/-- The values of the fields of the span of a grant. -/
def Grant.spanValues (w : World) (g : Grant) : SpanValues :=
  ⟨(w.lock g.lock).config.name, g.id, g.mode⟩

end FairLock
