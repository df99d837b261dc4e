import FairLock.Json.Digits
import FairLock.Json.Value

/-!
# Reading JSON

The reader takes the whole of a text or nothing: blanks are allowed around a value and between its
parts, and no comma may trail.  An escape must be one of the nine that the format has; whether the
escapes of a literal pair up to a text is settled by `assemble`, so that a literal nobody asks for
may also spell half of a surrogate pair.

Each reader takes the rest of the text and gives back what it leaves.  Values nest without a
bound; the fuel of `readValue` counts calls, and `read?` gives it more than a text of that length
can use up.
-/

namespace FairLock.Json

/-- The four blanks of the format. -/
def isBlank (c : Char) : Bool :=
  c = ' ' || c = '\n' || c = '\t' || c = '\r'

/-- The text without its leading blanks. -/
def skipBlanks (s : List Char) : List Char := s.dropWhile isBlank

/-! ## String literals -/

/-- What a string literal is made of: characters, and the units that four hexadecimal digits
    stand for. -/
inductive Piece where
  | char (c : Char)
  | unit (code : Nat)

/-- The character of an escape with one letter. -/
def shortEscape? : Char → Option Char
  | '"' => some '"'
  | '\\' => some '\\'
  | '/' => some '/'
  | 'b' => some '\x08'
  | 'f' => some '\x0c'
  | 'n' => some '\n'
  | 'r' => some '\r'
  | 't' => some '\t'
  | _ => none

/-- The pieces of a string literal up to its closing quote, and what follows.  Control characters
    must be escaped. -/
def readPieces : List Char → Option (List Piece × List Char)
  | [] => none
  | '"' :: rest => some ([], rest)
  -- four hexadecimal digits are kept as a unit: what they spell depends on their neighbours
  | '\\' :: 'u' :: a :: b :: c :: d :: rest => do
    let code ← ofHex? [a, b, c, d]
    let (pieces, rest) ← readPieces rest
    return (.unit code :: pieces, rest)
  | '\\' :: e :: rest => do
    let c ← shortEscape? e
    let (pieces, rest) ← readPieces rest
    return (.char c :: pieces, rest)
  | c :: rest =>
    if c.toNat < 32 ∨ c = '\\' then none
    else do
      let (pieces, rest) ← readPieces rest
      return (.char c :: pieces, rest)

/-- The text that pieces spell: two units that form a surrogate pair make one character, and a
    surrogate without its partner spells nothing. -/
def assemble : List Piece → Option (List Char)
  | [] => some []
  | .char c :: rest => (assemble rest).map (c :: ·)
  | .unit high :: rest =>
    if 0xd800 ≤ high ∧ high < 0xdc00 then
      match rest with
      | .unit low :: rest =>
        if 0xdc00 ≤ low ∧ low < 0xe000 then
          (assemble rest).map
            (Char.ofNat (0x10000 + (high - 0xd800) * 0x400 + (low - 0xdc00)) :: ·)
        else none
      | _ => none
    else if 0xdc00 ≤ high ∧ high < 0xe000 then none
    else (assemble rest).map (Char.ofNat high :: ·)

/-- A string literal after its opening quote. -/
def readLiteral (s : List Char) : Option (Literal × List Char) := do
  let (pieces, rest) ← readPieces s
  return ((assemble pieces).map String.ofList, rest)

/-! ## Numbers -/

/-- One or more digits. -/
def readDigits (s : List Char) : Option (List Char × List Char) :=
  match s.takeWhile Char.isDigit with
  | [] => none
  | ds => some (ds, s.dropWhile Char.isDigit)

/-- The digits before the point: no zero may lead others. -/
def readWhole (s : List Char) : Option (Nat × List Char) := do
  let (ds, rest) ← readDigits s
  match ds with
  -- a zero stands alone
  | '0' :: _ :: _ => none
  | _ => return (ofDigits ds, rest)

/-- The digits after the point, if there is one. -/
def readFraction : List Char → Option (List Char × List Char)
  | '.' :: s => readDigits s
  | s => some ([], s)

/-- The digits of a power of ten, with an optional sign. -/
def readPower : List Char → Option (Int × List Char)
  | '-' :: s => do
    let (ds, rest) ← readDigits s
    return (-(ofDigits ds : Int), rest)
  | '+' :: s => do
    let (ds, rest) ← readDigits s
    return ((ofDigits ds : Int), rest)
  | s => do
    let (ds, rest) ← readDigits s
    return ((ofDigits ds : Int), rest)

/-- The power of ten, if there is one. -/
def readExponent : List Char → Option (Option Int × List Char)
  | 'e' :: s => (readPower s).map fun p => (some p.1, p.2)
  | 'E' :: s => (readPower s).map fun p => (some p.1, p.2)
  | s => some (none, s)

/-- A number after its sign. -/
def readUnsigned (negative : Bool) (s : List Char) : Option (Number × List Char) := do
  let (whole, s) ← readWhole s
  let (fraction, s) ← readFraction s
  let (exponent, s) ← readExponent s
  return (⟨negative, whole, fraction, exponent⟩, s)

/-- A number. -/
def readNumber : List Char → Option (Number × List Char)
  | '-' :: s => readUnsigned true s
  | s => readUnsigned false s

/-! ## Values -/

mutual

/-- A value, with the blanks before it. -/
def readValue : Nat → List Char → Option (Json × List Char)
  | 0, _ => none
  | fuel + 1, s =>
    match skipBlanks s with
    | 'n' :: 'u' :: 'l' :: 'l' :: rest => some (.null, rest)
    | 't' :: 'r' :: 'u' :: 'e' :: rest => some (.bool true, rest)
    | 'f' :: 'a' :: 'l' :: 's' :: 'e' :: rest => some (.bool false, rest)
    | '"' :: rest => (readLiteral rest).map fun p => (.string p.1, p.2)
    | '[' :: rest =>
      match skipBlanks rest with
      | ']' :: rest => some (.array [], rest)
      | rest => (readItems fuel rest).map fun p => (.array p.1, p.2)
    | '\x7b' :: rest =>
      match skipBlanks rest with
      | '\x7d' :: rest => some (.object [], rest)
      | rest => (readMembers fuel rest).map fun p => (.object p.1, p.2)
    | rest => (readNumber rest).map fun p => (.number p.1, p.2)

/-- One or more items and the bracket that closes the array. -/
def readItems : Nat → List Char → Option (List Json × List Char)
  | 0, _ => none
  | fuel + 1, s => do
    let (item, s) ← readValue fuel s
    match skipBlanks s with
    | ',' :: s =>
      let (items, s) ← readItems fuel s
      return (item :: items, s)
    | ']' :: s => return ([item], s)
    | _ => none

/-- One or more members and the brace that closes the object. -/
def readMembers : Nat → List Char → Option (List (Literal × Json) × List Char)
  | 0, _ => none
  | fuel + 1, s => do
    match skipBlanks s with
    | '"' :: s =>
      let (name, s) ← readLiteral s
      match skipBlanks s with
      | ':' :: s =>
        let (value, s) ← readValue fuel s
        match skipBlanks s with
        | ',' :: s =>
          let (members, s) ← readMembers fuel s
          return ((name, value) :: members, s)
        | '\x7d' :: s => return ([(name, value)], s)
        | _ => none
      | _ => none
    | _ => none

end

/-- The value that a list of characters spells, blanks around it aside. -/
def readChars? (s : List Char) : Option Json := do
  let (value, rest) ← readValue (2 * s.length + 2) s
  if (skipBlanks rest).isEmpty then return value else none

/-- The value that a text spells, blanks around it aside. -/
def read? (s : String) : Option Json := readChars? s.toList

end FairLock.Json
