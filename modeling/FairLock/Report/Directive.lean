import FairLock.Mode
import FairLock.Report.Level
import FairLock.Text.Bytes
import FairLock.Text.Classes
import FairLock.Text.Pattern.Reader
import FairLock.Text.Pattern.Search

/-!
# Directives

A directive asks for the reports of a level, and of coarser ones, under a condition.  The condition
may name how the target begins, a span around the report, and fields, whose values may be tested
too.  It is written `target[span\x7bfield=value\x7d]=level`, and every part may be missing.

## Main definitions

- `Directive`: a level and its condition.
- `FieldTest.holdsFor`: does the span of a grant pass a test of a field?
- `Directive.ofText`: a directive from its text.
-/

namespace FairLock

/-! ## Tests of fields -/

/-- What is asked of the value of a field. -/
inductive ValueTest where
  | number (n : Nat)
  /-- It is a text at whose end the pattern is found. -/
  | pattern (written : List Char) (p : Text.Pattern)
  /-- It is a truth value or a signed or fractional number, which no field of a span is. -/
  | unmet (written : List Char)
  deriving DecidableEq

/-- A field that is asked for, and what is asked of its value. -/
structure FieldTest where
  name : String
  /-- The test of its value, if there is one. -/
  value : Option ValueTest
  deriving DecidableEq

/-- The values of the fields of the span of a grant. -/
structure SpanValues where
  lock : String
  /-- The number of the grant. -/
  grant : Nat
  mode : Mode

namespace SpanValues

/-- The name of the spans of grants. -/
def spanName : String := "grant"

/-- The names of the fields.  The last one, the length of the hold, gets its value when the grant
    ends. -/
def fieldNames : List String := ["lock", "grant", "mode", "held_us"]

end SpanValues

namespace FieldTest

/-- Does the span of a grant pass the test?  The length of a hold passes no test of its value. -/
def holdsFor (t : FieldTest) (v : SpanValues) : Bool :=
  match t.value with
  | none => true
  | some (.number n) => t.name = "grant" ∧ v.grant = n
  | some (.pattern _ p) =>
    t.name = "lock" ∧ p.endsIn v.lock = true ∨ t.name = "mode" ∧ p.endsIn v.mode.text = true
  | some (.unmet _) => false

end FieldTest

/-! ## Directives -/

/-- A level that is asked for, and the condition under which it is. -/
structure Directive where
  /-- How the paths of the targets begin. -/
  target : Option (List Char) := none
  span : Option String := none
  fields : List FieldTest := []
  /-- The finest level that is asked for; there is none if nothing is. -/
  level : Option Level := some .trace

namespace Directive

/-- Does the directive speak about spans? -/
def isDynamic (d : Directive) : Bool := d.span.isSome || !d.fields.isEmpty

/-- Does the directive test a value? -/
def testsValue (d : Directive) : Bool := d.fields.any fun t => t.value.isSome

/-- Can a report be judged by the directive without looking at the spans around it?  Names of
    fields can be looked for in the report itself. -/
def isStatic (d : Directive) : Bool := d.span.isNone && !d.testsValue

/-- Do two directives have one condition? -/
def sameCondition (a b : Directive) : Bool :=
  a.target = b.target ∧ a.span = b.span ∧ a.fields = b.fields

/-- Does the path of a target begin as the directive says? -/
def isFor (d : Directive) (path : String) : Bool :=
  d.target.all fun target => target.isPrefixOf path.toList

/-- The names of the fields. -/
def fieldNames (d : Directive) : List String := d.fields.map FieldTest.name

/-- Does the directive say at least as much about a report as another one that speaks about it?
    A longer target says more, then more fields do, and then the order of their names decides. -/
def isAsSpecific (d other : Directive) : Bool :=
  if length d = length other then
    if d.fields.length = other.fields.length then !(decide (d.fieldNames < other.fieldNames))
    else other.fields.length < d.fields.length
  else length other < length d
where
  /-- The length of the target; any target says more than none. -/
  length (d : Directive) : Nat :=
    match d.target with
    | none => 0
    | some target => target.length + 1

end Directive

/-! ## Reading -/

namespace FieldTest

/-- Is the text a number, with a sign, a point or a power of ten, or a word for what is beyond all
    numbers? -/
def isReal (s : List Char) : Bool :=
  match s with
  | '-' :: s => isMagnitude s
  | '+' :: s => isMagnitude s
  | s => isMagnitude s
where
  /-- Is the text such a number without its sign? -/
  isMagnitude (s : List Char) : Bool :=
    ["inf", "infinity", "nan"].contains (Text.lowerCase (String.ofList s)) ||
      isDecimal (s.takeWhile isMantissaChar) && isPower (s.dropWhile isMantissaChar)
  /-- May the character stand before the power of ten? -/
  isMantissaChar (c : Char) : Bool := c.isDigit || c = '.'
  /-- Are these digits with one point at most? -/
  isDecimal (s : List Char) : Bool := s.any Char.isDigit && s.count '.' ≤ 1
  /-- Is this a power of ten, or nothing? -/
  isPower : List Char → Bool
    | [] => true
    | e :: '-' :: s => (e = 'e' || e = 'E') && !s.isEmpty && s.all Char.isDigit
    | e :: '+' :: s => (e = 'e' || e = 'E') && !s.isEmpty && s.all Char.isDigit
    | e :: s => (e = 'e' || e = 'E') && !s.isEmpty && s.all Char.isDigit

/-- A test of a value from its text.  What reads as no other value is a pattern. -/
def valueOf? (s : List Char) : Option ValueTest :=
  if s = ['t', 'r', 'u', 'e'] ∨ s = ['f', 'a', 'l', 's', 'e'] then some (.unmet s)
  else
    match Text.wordOf? s with
    | some n => some (.number n)
    | none => if isReal s then some (.unmet s) else (Text.Pattern.ofText? s).map (.pattern s)

/-- A test of a field from its text: a name, and a value after an equals sign.  What follows a
    second one is not looked at. -/
def ofText? (s : List Char) : Option FieldTest :=
  match Text.splitAt '=' s with
  | name :: value :: _ => (valueOf? value).map fun test => ⟨String.ofList name, some test⟩
  | _ => if s.isEmpty then none else some ⟨String.ofList s, none⟩

end FieldTest

/-- Why a text is no directive. -/
inductive Unreadable where
  /-- It is not written as a directive is. -/
  | malformed
  /-- A part of it begins or ends inside a character. -/
  | miscut (m : Text.Miscut)
  deriving DecidableEq

namespace Directive

/-- The text from one place to another.  Places are counted in bytes. -/
def cut (text : List Char) (first last : Nat) : Except Unreadable (List Char) :=
  (Text.cut text first last).mapError .miscut

/-- The text from a place on. -/
def cutFrom (text : List Char) (first : Nat) : Except Unreadable (List Char) :=
  cut text first (Text.byteLength text)

/-- The level that a word names. -/
def levelOf (word : List Char) : Except Unreadable (Option Level) :=
  match Level.wanted? (String.ofList word) with
  | some level => .ok level
  | none => .error .malformed

/-- The part of a directive in which a reader is, and the place where it began. -/
inductive Part where
  | beginning
  /-- A target, or a level that stands alone. -/
  | word (first : Nat)
  | span (first : Nat)
  | field (first : Nat)
  /-- Behind the brace that closes a field. -/
  | afterField
  /-- Behind the bracket that closes the span. -/
  | afterSpan
  | level (first : Nat)

/-- Read one character, which stands at a place.  Parts that it completes are cut from the text. -/
def read (text : List Char) (d : Directive) (place : Nat) (c : Char) :
    Part → Except Unreadable (Directive × Part)
  | .beginning =>
    if c = '[' then return (d, .span (place + 1))
    else if Text.isAlphanumeric c || c = '-' || c = ':' || c = '_' then return (d, .word place)
    else throw .malformed
  | .word first => do
    if c = '=' then return ({ d with target := ← cut text first place }, .level (place + 1))
    else if c = '[' then return ({ d with target := ← cut text first place }, .span (place + 1))
    else return (d, .word first)
  | .span first => do
    if c = ']' then
      return ({ d with span := String.ofList (← cut text first place) }, .afterSpan)
    else if c = '\x7b' then
      let name ← cut text first place
      let span := if name.isEmpty then none else some (String.ofList name)
      return ({ d with span := span }, .field (place + 1))
    else return (d, .span first)
  | .field first => do
    if c = '\x7d' then
      match FieldTest.ofText? (← cut text first place) with
      | some test => return ({ d with fields := d.fields ++ [test] }, .afterField)
      | none => throw .malformed
    else return (d, .field first)
  | .afterField => if c = ']' then return (d, .afterSpan) else throw .malformed
  | .afterSpan => if c = '=' then return (d, .level (place + 1)) else throw .malformed
  | .level first => return (d, .level first)

/-- The directive once its text is at its end.  An empty level is the finest one, and a word that is
    no level is a target. -/
def conclude (text : List Char) (d : Directive) : Part → Except Unreadable Directive
  | .word first => do
    let word ← cutFrom text first
    match Level.wanted? (String.ofList word) with
    | some level => return { d with level := level }
    | none => return { d with target := some word }
  | .level first => do
    let word ← cutFrom text first
    if word.isEmpty then return d else return { d with level := ← levelOf word }
  | .afterSpan => return d
  | _ => throw .malformed

/-- Read the rest of a directive. -/
def readFrom (text : List Char) (d : Directive) (part : Part) (place : Nat) :
    List Char → Except Unreadable Directive
  | [] => d.conclude text part
  | c :: rest => do
    let (d, part) ← d.read text place c part
    d.readFrom text part (place + c.utf8Size) rest

/-- The text without the white space around it. -/
def trim (s : List Char) : List Char :=
  ((s.dropWhile Text.isWhite).reverse.dropWhile Text.isWhite).reverse

/-- A directive from its text.  White space around it does not count when the parts are told apart,
    but it does when they are cut: places are those of the trimmed text, and the parts are cut from
    the text itself. -/
def ofText (s : List Char) : Except Unreadable Directive :=
  ({} : Directive).readFrom s .beginning 0 (trim s)

end Directive

end FairLock
