/-!
# JSON values as they are spelled

A value of type `Json` is a JSON text with its blanks taken out and its escapes resolved.  Members
keep their order and may repeat a name, and a number keeps its three parts, because readers of
records tell texts apart by them: a repeated member is refused where an unknown one is not, and
`1.0` is no natural number.

## Main definitions

- `Number`: a number by its parts; `Number.natural?` is its value if it is a plain natural number.
- `Json`: a value; string literals are `Literal`s, which may fail to name a text.
-/

namespace FairLock

/-- A number literal by its parts. -/
structure Number where
  /-- Is there a minus sign? -/
  negative : Bool := false
  /-- The digits before the point, as a number. -/
  whole : Nat
  /-- The digits after the point; none if there is no point. -/
  fraction : List Char := []
  /-- The power of ten, if one is written. -/
  exponent : Option Int := none
  deriving DecidableEq

/-- A string literal: the text that it names, or `none` if it spells half of a surrogate pair and
    so names no text. -/
abbrev Literal := Option String

/-- A JSON value. -/
inductive Json where
  | null
  | bool (value : Bool)
  | number (value : Number)
  | string (value : Literal)
  | array (items : List Json)
  | object (members : List (Literal × Json))

namespace Number

/-- The plain natural number `n`. -/
def ofNat (n : Nat) : Number := { whole := n }

/-- The value of a number that is written without sign, point and power. -/
def natural? (n : Number) : Option Nat :=
  if n.negative = false ∧ n.fraction = [] ∧ n.exponent = none then some n.whole else none

@[simp] theorem natural?_ofNat (n : Nat) : (ofNat n).natural? = some n := by
  simp [ofNat, natural?]

end Number

namespace Json

/-- The literal for a text. -/
def ofText (s : String) : Json := string (some s)

/-- The literal for a natural number. -/
def ofNat (n : Nat) : Json := number (Number.ofNat n)

/-- An object with the given members, in order. -/
def record (members : List (String × Json)) : Json :=
  object (members.map fun m => (some m.1, m.2))

end Json

end FairLock
