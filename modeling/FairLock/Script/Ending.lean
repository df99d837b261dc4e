import FairLock.Failure

/-!
# How an entry point ends

An entry point succeeds, returns an error or panics.  A panic carries a payload, and an error or a
payload may be a *bomb*: a value whose own destruction panics.

## Assumptions

An error is given here by the text of its chain.  So writing the text of an error neither panics nor
uses a lock, and destroying an error or a payload does nothing but panic, if it is a bomb.

## Main definitions

- `Fault`: what is in flight when something fails.
- `Ending`: how a task says it ends; `Ending.fault?` is the error that it then returns.
-/

namespace FairLock

/-- What is in flight when something fails.  The text of an error is data: putting it into words, as
    is done when the error is contained, cannot fail. -/
inductive Fault where
  /-- A returned error, with the text of its whole chain. -/
  | error (reason : String)
  /-- A returned error whose destruction panics with a message. -/
  | errorBomb (message : String)
  /-- A panic with a text. -/
  | panic (message : String)
  /-- A panic with a payload that is no text. -/
  | panicOther
  /-- A panic with a payload whose destruction panics with a message. -/
  | panicBomb (message : String)
  deriving DecidableEq

namespace Fault

/-- The message of the panic that destroying the value causes, if it does. -/
def bomb? : Fault → Option String
  | errorBomb message => some message
  | panicBomb message => some message
  | _ => none

/-- The text under which a panic is caught outside of entry points. -/
def text : Fault → String
  | error reason => reason
  | errorBomb message => message
  | panic message => message
  | panicOther => "?"
  | panicBomb message => message

/-- What the submitter is told when the fault ends the entry point of a grant. -/
def failure (grant : GrantId) (mode : Mode) : Fault → Failure
  | error reason => .entryFailed grant mode reason
  | errorBomb message => .entryFailed grant mode message
  | panic message => .entryPanicked grant mode message
  | panicOther => .entryPanicked grant mode "non-string panic payload"
  | panicBomb _ => .entryPanicked grant mode "non-string panic payload"

end Fault

/-! ## Signed numbers in words of 32 bits -/

/-- Why a text is no signed number of 32 bits. -/
inductive NumberError where
  | empty
  | invalidDigit
  | tooLarge
  | tooSmall
  deriving DecidableEq

namespace NumberError

/-- The message for a text that is no number. -/
def message : NumberError → String
  | empty => "cannot parse integer from empty string"
  | invalidDigit => "invalid digit found in string"
  | tooLarge => "number too large to fit in target type"
  | tooSmall => "number too small to fit in target type"

end NumberError

/-- Read digits up to a bound, from the left: the first character that is no digit or takes the
    number beyond the bound decides. -/
def checkDigits (bound : Nat) (overflow : NumberError) (n : Nat) : List Char → Option NumberError
  | [] => none
  | c :: rest =>
    if c.isDigit then
      if bound < 10 * n + (c.toNat - 48) then some overflow
      else checkDigits bound overflow (10 * n + (c.toNat - 48)) rest
    else some .invalidDigit

/-- Why a text is no signed number of 32 bits; `none` if it is one.  One sign may lead, but not
    stand alone. -/
def numberError? : List Char → Option NumberError
  | [] => some .empty
  | ['-'] => some .invalidDigit
  | ['+'] => some .invalidDigit
  | '-' :: digits => checkDigits 2147483648 .tooSmall 0 digits
  | '+' :: digits => checkDigits 2147483647 .tooLarge 0 digits
  | digits => checkDigits 2147483647 .tooLarge 0 digits

/-! ## Endings -/

/-- How a task ends once its actions are done. -/
inductive Ending where
  /-- It succeeds. -/
  | done
  /-- It returns an error with contexts put around it, the innermost first. -/
  | error (message : String) (contexts : List String)
  /-- It returns an input or output error. -/
  | io (message : String)
  /-- It returns what reading a number of 32 bits from a text gives. -/
  | number (text : String)
  /-- It returns an error whose parts are each caused by the next; no parts are no error. -/
  | chain (parts : List String)
  /-- It returns an error whose destruction panics. -/
  | bomb (message : String)

namespace Ending

/-- The error that the task returns, if any. -/
def fault? : Ending → Option Fault
  | done => none
  | error message contexts => some (.error (String.intercalate ": " (contexts.reverse ++ [message])))
  | io message => some (.error message)
  | number text => (numberError? text.toList).map fun e => .error e.message
  | chain [] => none
  | chain parts => some (.error (String.intercalate ": " parts))
  | bomb message => some (.errorBomb message)

end Ending

end FairLock
