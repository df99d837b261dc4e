import FairLock.Text.Pattern.Bracket

/-!
# Reading patterns

A pattern is written with the usual signs: `.`, `^`, `$`, `|`, `*`, `+`, `?`, round brackets around a
group and square brackets around a set, and a backslash before a sign that means itself.  A group
may have a name, modes of its own, or neither.  Braces do not count repetitions here, so an opening
one is refused outside of a set.

Patterns may be nested up to a certain depth.  Groups, sets, repetitions, rows and alternatives
count for it.
-/

namespace FairLock.Text.Pattern

/-! ## Pieces -/

/-- A piece of a pattern as it is written. -/
structure Piece where
  pattern : Pattern
  /-- How deeply its parts are nested. -/
  depth : Nat := 0
  /-- May it be repeated?  A piece that only switches modes may not. -/
  isRepeatable : Bool := true

namespace Piece

/-- The depth of what some pieces make up. -/
def depthAround (pieces : List Piece) : Nat := (pieces.map depth).foldl max 0 + 1

/-- Pieces one after the other. -/
def row : List Piece → Piece
  | [] => { pattern := .empty }
  | [p] => p
  | ps => { pattern := concat (ps.map pattern), depth := depthAround ps }

/-- Pieces of which one is meant. -/
def choice : List Piece → Piece
  | [] => { pattern := .empty }
  | [p] => p
  | ps => { pattern := Pattern.choice (ps.map pattern), depth := depthAround ps }

/-- A piece in round brackets. -/
def grouped (number : Option Nat) (p : Piece) : Piece :=
  { pattern := number.elim p.pattern fun n => .group n p.pattern, depth := p.depth + 1 }

/-- A piece that is repeated. -/
def repeated (times : Times) (reluctant : Bool) (p : Piece) : Piece :=
  { pattern := Pattern.repeated times reluctant p.pattern, depth := p.depth + 1 }

end Piece

/-- What is left to be read, and what is known from what was read. -/
structure Source where
  /-- The signs that are left. -/
  rest : List Char
  modes : Modes := {}
  /-- How many counted groups have begun. -/
  groups : Nat := 0
  /-- Their names. -/
  names : List String := []

namespace Source

/-- The source without what means nothing at its beginning. -/
def skip (s : Source) : Source := { s with rest := s.modes.skip s.rest }

end Source

/-! ## Single signs -/

/-- All characters that a dot stands for. -/
def dotSet (m : Modes) : CharSet :=
  if m.dotAll then .all
  else if m.returns then ((CharSet.single '\n').union (.single '\x0d')).compl
  else (CharSet.single '\n').compl

/-- The pattern of one sign, which is no bracket and no sign of repetition. -/
def readSign (m : Modes) : List Char → Option (Pattern × List Char)
  | [] => none
  | '.' :: rest => if m.allScripts then some (ofSet false (dotSet m), rest) else none
  | '^' :: rest => some (.anchor (if m.lines then .lineStart m.returns else .start), rest)
  | '$' :: rest => some (.anchor (if m.lines then .lineFinish m.returns else .finish), rest)
  | '\\' :: s => do
    match ← readEscape m s with
    | (.char c, rest) => return (← m.literal? c, rest)
    | (.set s, rest) => return (ofSet true s, rest)
    | (.anchor a, rest) => return (.anchor a, rest)
  | c :: rest => (m.literal? c).map fun p => (p, rest)

/-- The sign of a repetition. -/
def times? : Char → Option Times
  | '?' => some .atMostOnce
  | '*' => some .anyTimes
  | '+' => some .atLeastOnce
  | _ => none

/-- Repeat the latest piece.  A question mark behind the sign makes the repetition reluctant. -/
def readTimes (m : Modes) (times : Times) (rest : List Char) :
    List Piece → Option (List Piece × List Char)
  | [] => none
  | p :: pieces =>
    if !p.isRepeatable then none
    else
      match rest with
      | '?' :: rest => some (p.repeated times (!m.swapped) :: pieces, rest)
      | rest => some (p.repeated times m.swapped :: pieces, rest)

/-! ## Names of groups -/

/-- The name of a group and what comes behind its closing bracket.  It begins with a letter or an
    underscore and goes on with these, numbers, points and square brackets. -/
def readName (s : List Char) : Option (String × List Char) :=
  match s.span (· ≠ '>') with
  | (c :: cs, '>' :: rest) =>
    if (c = '_' || isAlphabetic c) && cs.all isNameChar then
      some (String.ofList (c :: cs), rest)
    else none
  | _ => none
where
  /-- May the character stand inside a name? -/
  isNameChar (c : Char) : Bool :=
    isAlphanumeric c || c = '_' || c = '.' || c = '[' || c = ']'

/-- How a group begins. -/
inductive Opening where
  /-- It is counted. -/
  | counted
  /-- It has these modes. -/
  | moded (m : Modes)
  /-- It has no content and switches the modes of what comes. -/
  | switch (m : Modes)

/-- The beginning of a group after its bracket.  A group that looks around is refused, and so is a
    name that another group has. -/
def readOpeningOf (s : Source) : Option (Opening × Source) :=
  match s.skip.rest with
  | '?' :: 'P' :: '<' :: rest => named rest
  | '?' :: '<' :: rest => named rest
  | '?' :: rest => do
    match ← s.modes.read [] rest with
    | (m, _, ':' :: rest) => return (.moded m, { s with rest := rest })
    | (m, used, ')' :: rest) =>
      if used.isEmpty then none else return (.switch m, { s with rest := rest })
    | _ => none
  | rest => some (.counted, { s with rest := rest, groups := s.groups + 1 })
where
  /-- A group with a name. -/
  named (rest : List Char) : Option (Opening × Source) := do
    let (name, rest) ← readName rest
    if s.names.contains name then none
    return (.counted,
      { s with rest := rest, groups := s.groups + 1, names := name :: s.names })

/-! ## Patterns -/

mutual

/-- Alternatives, up to the end of the text or a closing bracket.  The earlier ones are given, the
    latest first. -/
def readChoice : Nat → List Piece → Source → Option (Piece × Source)
  | 0, _, _ => none
  | fuel + 1, earlier, s => do
    let (piece, s) ← readRow fuel [] s
    match s.rest with
    | '|' :: rest => readChoice fuel (piece :: earlier) { s with rest := rest }
    | _ => return (Piece.choice (piece :: earlier).reverse, s)

/-- Pieces one after the other, up to a sign that ends them.  The earlier ones are given, the latest
    first. -/
def readRow : Nat → List Piece → Source → Option (Piece × Source)
  | 0, _, _ => none
  | fuel + 1, earlier, s =>
    let s := s.skip
    match s.rest with
    | [] => some (Piece.row earlier.reverse, s)
    | '|' :: _ => some (Piece.row earlier.reverse, s)
    | ')' :: _ => some (Piece.row earlier.reverse, s)
    | '\x7b' :: _ => none
    | '[' :: rest => do
      let (chars, depth, rest) ← readBracket s.modes rest
      let piece := { pattern := ofSet (!s.modes.allScripts) chars, depth := depth }
      readRow fuel (piece :: earlier) { s with rest := rest }
    | '(' :: rest => do
      let (opening, inner) ← readOpeningOf { s with rest := rest }
      match opening with
      | .switch m =>
        let piece := { pattern := .empty, isRepeatable := false }
        readRow fuel (piece :: earlier) { inner with modes := m }
      | .moded m =>
        let (piece, inner) ← readGroup fuel { inner with modes := m }
        readRow fuel (piece.grouped none :: earlier) { inner with modes := s.modes }
      | .counted =>
        let (piece, inner') ← readGroup fuel inner
        readRow fuel (piece.grouped (some inner.groups) :: earlier)
          { inner' with modes := s.modes }
    | c :: rest =>
      match times? c with
      | some times => do
        let (pieces, rest) ← readTimes s.modes times rest earlier
        readRow fuel pieces { s with rest := rest }
      | none => do
        let (pattern, rest) ← readSign s.modes (c :: rest)
        readRow fuel ({ pattern := pattern } :: earlier) { s with rest := rest }

/-- What is inside a group, up to its closing bracket. -/
def readGroup : Nat → Source → Option (Piece × Source)
  | 0, _ => none
  | fuel + 1, s => do
    let (piece, s) ← readChoice fuel [] s
    match s.rest with
    | ')' :: rest => return (piece, { s with rest := rest })
    | _ => none

end

/-- How deeply a pattern may be nested. -/
def depthLimit : Nat := 250

/-- The pattern that a text writes down.  Every sign takes four calls at most. -/
def ofText? (text : List Char) : Option Pattern := do
  let (piece, s) ← readChoice (4 * text.length + 4) [] { rest := text }
  if s.rest.isEmpty ∧ piece.depth ≤ depthLimit then return piece.pattern else none

end FairLock.Text.Pattern
