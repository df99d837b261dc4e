import FairLock.Json.Digits
import FairLock.Text.Pattern
import FairLock.Text.Pattern.Modes

/-!
# Escapes in patterns

A backslash takes the meaning from the sign behind it, or gives it one: a control character, a
character by its code, a class of plain characters, or a condition on a place.

What needs to know the letters of all scripts is no part of patterns.  So classes and boundaries of
words are refused unless only plain characters are meant, and so is whatever would be matched
without regard to case.
-/

namespace FairLock.Text.Pattern

/-! ## Plain characters -/

/-- The ranges of a named class of plain characters. -/
def classRanges? : String → Option (List (Char × Char))
  | "alnum" => some [('0', '9'), ('A', 'Z'), ('a', 'z')]
  | "alpha" => some [('A', 'Z'), ('a', 'z')]
  | "ascii" => some [('\x00', '\x7f')]
  | "blank" => some [('\t', '\t'), (' ', ' ')]
  | "cntrl" => some [('\x00', '\x1f'), ('\x7f', '\x7f')]
  | "digit" => some [('0', '9')]
  | "graph" => some [('!', '~')]
  | "lower" => some [('a', 'z')]
  | "print" => some [(' ', '~')]
  | "punct" => some [('!', '/'), (':', '@'), ('[', '\x60'), ('\x7b', '~')]
  | "space" => some [('\t', '\r'), (' ', ' ')]
  | "upper" => some [('A', 'Z')]
  | "word" => some [('0', '9'), ('A', 'Z'), ('_', '_'), ('a', 'z')]
  | "xdigit" => some [('0', '9'), ('A', 'F'), ('a', 'f')]
  | _ => none

/-- A named class of plain characters. -/
def class? (name : String) : Option CharSet :=
  (classRanges? name).map fun ranges =>
    .ofRanges (ranges.map fun r => (r.1.toNat, r.2.toNat))

namespace Modes

/-- May characters be named under these modes?  Without regard to case only plain ones may. -/
def namesCharacters (m : Modes) : Bool := !(m.allScripts && m.anyCase)

/-- The pattern of one character. -/
def literal? (m : Modes) (c : Char) : Option Pattern :=
  if !m.namesCharacters then none
  else if m.anyCase ∧ c.isAlpha then some (ofSet true (CharSet.single c).inBothCases)
  else some (literal [c])

/-- A set as it is meant in the end: in both cases, and with all others in its place if it is
    negated.  The others are never plain. -/
def finish? (m : Modes) (negated : Bool) (s : CharSet) : Option CharSet :=
  let s := if m.anyCase && !m.allScripts then s.inBothCases else s
  if negated then if m.allScripts then some s.compl else none else some s

end Modes

/-! ## Escapes -/

/-- What an escape stands for. -/
inductive Escaped where
  | char (c : Char)
  | set (s : CharSet)
  | anchor (a : Anchor)

/-- The character of an escape with one letter. -/
def shortEscape? : Char → Option Char
  | 'n' => some '\n'
  | 't' => some '\t'
  | 'r' => some '\r'
  | 'f' => some '\x0c'
  | 'v' => some '\x0b'
  | 'a' => some '\x07'
  | _ => none

/-- May a backslash before the character give it its plain meaning? -/
def isSign (c : Char) : Bool :=
  c.toNat < 128 && !c.isAlphanum && c != '<' && c != '>'

/-- The character with a code point, which is given by digits of base sixteen. -/
def ofCode? (digits : List Char) : Option Char := do
  let code ← Json.ofHex? digits
  if code.isValidChar then return Char.ofNat code else none

/-- So many signs, with what means nothing in front of each of them left out. -/
def takeSigns (m : Modes) : Nat → List Char → Option (List Char × List Char)
  | 0, s => some ([], s)
  | n + 1, s =>
    match m.skip s with
    | [] => none
    | c :: rest => (takeSigns m n rest).map fun p => (c :: p.1, p.2)

/-- A character by its code, which has so many digits. -/
def readCode (m : Modes) (digits : Nat) (s : List Char) : Option (Char × List Char) := do
  let (ds, rest) ← takeSigns m digits s
  let c ← ofCode? ds
  return (c, rest)

/-- The class that a letter stands for where only plain characters are meant. -/
def letterClass? : Char → Option CharSet
  | 'd' => class? "digit"
  | 's' => class? "space"
  | 'w' => class? "word"
  | _ => none

/-- The condition that a sign stands for. -/
def anchor? (m : Modes) : Char → Option Anchor
  | 'A' => some .start
  | 'z' => some .finish
  | 'b' => if m.allScripts then none else some .boundary
  | 'B' => if m.allScripts then none else some .noBoundary
  | '<' => if m.allScripts then none else some .wordStart
  | '>' => if m.allScripts then none else some .wordFinish
  | _ => none

/-- What an escape stands for, after its backslash.  A code of two digits that is not plain is
    refused where only plain characters are meant, since it would stand for a part of a
    character. -/
def readEscape (m : Modes) : List Char → Option (Escaped × List Char)
  | [] => none
  | 'x' :: s => do
    let (c, rest) ← readCode m 2 s
    if m.allScripts ∨ c.toNat < 128 then return (.char c, rest) else none
  | 'u' :: s => (readCode m 4 s).map fun p => (.char p.1, p.2)
  | 'U' :: s => (readCode m 8 s).map fun p => (.char p.1, p.2)
  | e :: rest =>
    if isSign e then some (.char e, rest)
    else
      match letterClass? e, shortEscape? e with
      | some s, _ => if m.allScripts then none else some (.set s, rest)
      | none, some c => some (.char c, rest)
      | none, none => (anchor? m e).map fun a => (.anchor a, rest)

end FairLock.Text.Pattern
