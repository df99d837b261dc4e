import FairLock.Text.Classes

/-!
# Modes of reading patterns

Letters behind `(?` switch modes on and off, from there to the end of the group around them or for
one group alone.  In one of the modes white space and comments between the signs mean nothing.

## Main definitions

- `Modes`: the modes.
- `Modes.read`: switch modes as the letters say.
- `Modes.skip`: the text without what means nothing at its beginning.
-/

namespace FairLock.Text.Pattern

/-- How a pattern is read. -/
structure Modes where
  /-- Do letters match without regard to case? -/
  anyCase : Bool := false
  /-- Do the signs for the beginning and the end of the text hold for lines too? -/
  lines : Bool := false
  /-- Does a dot stand for the ends of lines too? -/
  dotAll : Bool := false
  /-- Are repetitions reluctant just where they are not without this mode? -/
  swapped : Bool := false
  /-- Are characters of all scripts meant, and not plain ones alone? -/
  allScripts : Bool := true
  /-- Do carriage returns end lines too? -/
  returns : Bool := false
  /-- Do white space and comments mean nothing? -/
  spaced : Bool := false
  deriving DecidableEq

namespace Modes

/-! ## Switching -/

/-- Switch the mode of a letter. -/
def switch (m : Modes) (on : Bool) : Char → Option Modes
  | 'i' => some { m with anyCase := on }
  | 'm' => some { m with lines := on }
  | 's' => some { m with dotAll := on }
  | 'U' => some { m with swapped := on }
  | 'u' => some { m with allScripts := on }
  | 'R' => some { m with returns := on }
  | 'x' => some { m with spaced := on }
  | _ => none

/-- Switch modes by the letters up to a colon or a closing bracket.  Letters behind a hyphen are
    switched off.  No sign comes twice, and a hyphen is not the last one.  The result tells the
    signs that were used, the latest first, and the text from the colon or the bracket on. -/
def read (m : Modes) (used : List Char) : List Char → Option (Modes × List Char × List Char)
  | [] => none
  | c :: rest =>
    if c = ':' ∨ c = ')' then
      if used.head? = some '-' then none else some (m, used, c :: rest)
    else if used.contains c then none
    else if c = '-' then m.read (c :: used) rest
    else (m.switch (!used.contains '-') c).bind fun m => m.read (c :: used) rest

/-! ## White space -/

/-- The text from the first sign on that is not white space and in no comment. -/
def skipBlanks (inComment : Bool) : List Char → List Char
  | [] => []
  | c :: rest =>
    if inComment then skipBlanks (c ≠ '\n') rest
    else if isWhite c then skipBlanks false rest
    else if c = '#' then skipBlanks true rest
    else c :: rest

/-- The text without what means nothing at its beginning. -/
def skip (m : Modes) (s : List Char) : List Char :=
  if m.spaced then skipBlanks false s else s

/-- The first sign that is not white space.  One number sign is passed over, but the comment behind
    it is not. -/
def firstSign (passed : Bool) : List Char → Option Char
  | [] => none
  | c :: rest =>
    if isWhite c then firstSign passed rest
    else if c = '#' ∧ !passed then firstSign true rest
    else some c

/-- The sign that a hyphen between two characters is judged by. -/
def ahead (m : Modes) (s : List Char) : Option Char :=
  if m.spaced then firstSign false s else s.head?

end Modes

end FairLock.Text.Pattern
