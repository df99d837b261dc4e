import FairLock.Text.Quoted

/-!
# Places counted in bytes

A text can be cut at places that are counted in bytes.  A place inside a character is no place to
cut at: there the text is miscut, and the message says which character is in the way.

Main definition: `cut`, the text from one place to another.
-/

namespace FairLock.Text

/-- The number of bytes of a text. -/
def byteLength : List Char → Nat
  | [] => 0
  | c :: rest => c.utf8Size + byteLength rest

/-- A cut at a place inside a character. -/
structure Miscut where
  /-- Is it the place to which the cut goes, and not the one from which? -/
  isEnd : Bool
  place : Nat
  char : Char
  /-- The place where the character begins. -/
  first : Nat
  deriving DecidableEq

namespace Miscut

/-- What is said about a cut inside a character. -/
def text (m : Miscut) : String :=
  (if m.isEnd then "end" else "start") ++ " byte index " ++ toString m.place ++
    " is not a char boundary; it is inside '" ++ String.ofList (quoteChar m.char) ++ "' (bytes " ++
    toString m.first ++ ".." ++ toString (m.first + m.char.utf8Size) ++ " of string)"

end Miscut

/-- The character around a place and the place where it begins, unless a character begins or the
    text ends there.  The text itself begins at the place `first`. -/
def around (place first : Nat) : List Char → Option (Char × Nat)
  | [] => none
  | c :: rest =>
    if place ≤ first then none
    else if place < first + c.utf8Size then some (c, first)
    else around place (first + c.utf8Size) rest

/-- The text without so many bytes at its beginning. -/
def dropBytes (n : Nat) : List Char → List Char
  | [] => []
  | c :: rest => if n = 0 then c :: rest else dropBytes (n - c.utf8Size) rest

/-- So many bytes at the beginning of the text. -/
def takeBytes (n : Nat) : List Char → List Char
  | [] => []
  | c :: rest => if c.utf8Size ≤ n then c :: takeBytes (n - c.utf8Size) rest else []

/-- The text from one place to another. -/
def cut (text : List Char) (first last : Nat) : Except Miscut (List Char) :=
  match around first 0 text, around last 0 text with
  | some (c, begun), _ => .error ⟨false, first, c, begun⟩
  | none, some (c, begun) => .error ⟨true, last, c, begun⟩
  | none, none => .ok (takeBytes (last - first) (dropBytes first text))

end FairLock.Text
