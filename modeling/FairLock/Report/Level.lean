import FairLock.Text.Words

/-!
# Report levels

Reports have a level, from errors down to the finest traces; a reader who wants one level wants the
coarser ones too.
-/

namespace FairLock

/-- How important a report is. -/
inductive Level where
  | error
  | warn
  | info
  | debug
  | trace
  deriving DecidableEq

namespace Level

/-- The coarser a level, the smaller its rank. -/
def rank : Level → Nat
  | error => 1
  | warn => 2
  | info => 3
  | debug => 4
  | trace => 5

/-- The name of a level in log lines. -/
def name : Level → String
  | error => "ERROR"
  | warn => "WARN"
  | info => "INFO"
  | debug => "DEBUG"
  | trace => "TRACE"

/-- Does a reader who wants reports up to `wanted` see this level? -/
def isWithin (level wanted : Level) : Bool := level.rank ≤ wanted.rank

/-- Is the level among those that are wanted?  None may be. -/
def isAmong (level : Level) (wanted : Option Level) : Bool := wanted.any level.isWithin

/-- The finer of two wanted levels. -/
def finer (a b : Option Level) : Option Level :=
  if (a.map rank).getD 0 < (b.map rank).getD 0 then b else a

/-- The lower-case word for a level. -/
def ofWord? : String → Option Level
  | "error" => some error
  | "warn" => some warn
  | "info" => some info
  | "debug" => some debug
  | "trace" => some trace
  | _ => none

/-- The wanted level that has a number: none has zero. -/
def ofNumber? : Nat → Option (Option Level)
  | 0 => some none
  | 1 => some (some error)
  | 2 => some (some warn)
  | 3 => some (some info)
  | 4 => some (some debug)
  | 5 => some (some trace)
  | _ => none

/-- The level that a text wants: a number, or a word in any case; `off` wants none. -/
def wanted? (text : String) : Option (Option Level) :=
  match (Text.wordOf? text.toList).bind ofNumber? with
  | some level => some level
  | none =>
    match Text.lowerCase text with
    | "off" => some none
    | word => (ofWord? word).map some

end Level

end FairLock
