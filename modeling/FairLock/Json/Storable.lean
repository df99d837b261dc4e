import FairLock.Config
import FairLock.Json.Digits
import FairLock.Json.Double
import FairLock.Json.Value

/-!
# Values that can be kept

A value that has to be kept before it is known what it is good for must be sound in itself: every
literal names a text, every number is a finite double, and containers nest to a bounded depth.

A number becomes a double by its leading digits: as many as fit a word are taken as a natural
number, and the power of ten that the others leave is multiplied to it.  So a number may be kept
although its nearest double is infinite, and the other way round.
-/

namespace FairLock

namespace Json

/-- Append digits to a natural number as long as the result fits a word: the result, and the
    digits that did not fit. -/
def appendDigits (n : Nat) : List Char → Nat × List Char
  | [] => (n, [])
  | c :: rest =>
    if 10 * n + digitValue c < wordLimit then appendDigits (10 * n + digitValue c) rest
    else (n, c :: rest)

end Json

namespace Number

/-- The leading digits before the point, and those of them that did not fit. -/
def leadingWhole (n : Number) : Nat × List Char :=
  Json.appendDigits 0 (Json.digits n.whole)

/-- The leading digits, those after the point included, and those after the point that did not
    fit. -/
def leading (n : Number) : Nat × List Char :=
  Json.appendDigits n.leadingWhole.1 n.fraction

/-- The leading digits as one natural number. -/
def significand (n : Number) : Nat := n.leading.1

/-- The power of ten that belongs to `significand`. -/
def scale (n : Number) : Int :=
  n.exponent.getD 0 + n.leadingWhole.2.length - (n.fraction.length - n.leading.2.length : Nat)

/-- Does the number become a finite double? -/
def isFinite (n : Number) : Bool :=
  if n.significand = 0 then true
  -- a division makes no number infinite
  else if n.scale < 0 then true
  -- no double is a power of ten beyond this one
  else if 308 < n.scale then false
  else Json.isFiniteProduct n.significand (Nat.pow 10 n.scale.toNat)

end Number

namespace Json

mutual

/-- Can the value be kept, if `depth` more levels of containers may be opened? -/
def isStorable (depth : Nat) : Json → Bool
  | .null => true
  | .bool _ => true
  | .number n => n.isFinite
  | .string s => s.isSome
  | .array items => depth != 0 && areStorable (depth - 1) items
  | .object members => depth != 0 && areMembersStorable (depth - 1) members

/-- Can all items be kept? -/
def areStorable (depth : Nat) : List Json → Bool
  | [] => true
  | item :: rest => isStorable depth item && areStorable depth rest

/-- Can all members be kept? -/
def areMembersStorable (depth : Nat) : List (Literal × Json) → Bool
  | [] => true
  | (name, value) :: rest =>
    name.isSome && isStorable depth value && areMembersStorable depth rest

end

/-- How deep containers may nest in a value that is kept while the object around it is read. -/
def storableDepth : Nat := 126

end Json

end FairLock
