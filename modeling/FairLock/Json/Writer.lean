import FairLock.Json.Digits
import FairLock.Json.Value

/-!
# Writing JSON

The compact text of a value: no blanks, members in their order, and in strings only those escapes
that the format asks for.  A control character without a short escape is written with four
hexadecimal digits; everything from the blank on is written as it is, quote and backslash apart.
-/

namespace FairLock.Json

/-- A digit of base sixteen, in lower case. -/
def hexChar (n : Nat) : Char :=
  if n < 10 then Char.ofNat (48 + n) else Char.ofNat (87 + n)

/-- One character inside a string literal. -/
def escapeChar (c : Char) : List Char :=
  match c with
  | '"' => ['\\', '"']
  | '\\' => ['\\', '\\']
  | '\n' => ['\\', 'n']
  | '\t' => ['\\', 't']
  | '\r' => ['\\', 'r']
  | '\x08' => ['\\', 'b']
  | '\x0c' => ['\\', 'f']
  | c =>
    if c.toNat < 32 then ['\\', 'u', '0', '0', hexChar (c.toNat / 16), hexChar (c.toNat % 16)]
    else [c]

/-- A string literal with its quotes.  One that names no text is written as a lone surrogate. -/
def writeLiteral : Literal → List Char
  | some s => '"' :: s.toList.flatMap escapeChar ++ ['"']
  | none => ['"', '\\', 'u', 'd', '8', '0', '0', '"']

/-- The text of an integer. -/
def writeInt : Int → List Char
  | .ofNat n => digits n
  | .negSucc n => '-' :: digits (n + 1)

/-- The text of a number. -/
def writeNumber (n : Number) : List Char :=
  (if n.negative then ['-'] else []) ++ digits n.whole ++
    (match n.fraction with
      | [] => []
      | ds => '.' :: ds) ++
    (match n.exponent with
      | none => []
      | some e => 'e' :: writeInt e)

mutual

/-- The compact text of a value. -/
def writeChars : Json → List Char
  | .null => ['n', 'u', 'l', 'l']
  | .bool true => ['t', 'r', 'u', 'e']
  | .bool false => ['f', 'a', 'l', 's', 'e']
  | .number n => writeNumber n
  | .string s => writeLiteral s
  | .array items => '[' :: writeItems items ++ [']']
  | .object members => '\x7b' :: writeMembers members ++ ['\x7d']

/-- The items of an array, separated by commas. -/
def writeItems : List Json → List Char
  | [] => []
  | [item] => writeChars item
  | item :: rest => writeChars item ++ ',' :: writeItems rest

/-- The members of an object, separated by commas. -/
def writeMembers : List (Literal × Json) → List Char
  | [] => []
  | [(name, value)] => writeLiteral name ++ ':' :: writeChars value
  | (name, value) :: rest =>
    writeLiteral name ++ ':' :: writeChars value ++ ',' :: writeMembers rest

end

/-- The compact text of a value. -/
def write (j : Json) : String := String.ofList (writeChars j)

end FairLock.Json
