import FairLock.Text.CharSet

/-!
# Patterns

A pattern describes texts.  Patterns are put together by functions that bring them into one form:
characters one after the other make up one literal, a row of patterns is not nested, and what all
alternatives begin with is taken out of them.  Which match is preferred depends on that form, since
every way to match the common beginning is then tried with every alternative before the next way.

## Main definitions

- `Anchor`: conditions on a place in a text.
- `Pattern`: the patterns.
- `Pattern.concat`, `Pattern.choice`, `Pattern.repeated` and `Pattern.ofSet`: how they are put
  together.
-/

namespace FairLock.Text

/-! ## Anchors -/

/-- A condition on a place in a text. -/
inductive Anchor where
  /-- The text begins here. -/
  | start
  /-- The text ends here. -/
  | finish
  /-- A line begins here.  A carriage return may end lines too. -/
  | lineStart (returns : Bool)
  /-- A line ends here.  A carriage return may end lines too. -/
  | lineFinish (returns : Bool)
  /-- A word begins or ends here. -/
  | boundary
  /-- No word begins or ends here. -/
  | noBoundary
  /-- A word begins here. -/
  | wordStart
  /-- A word ends here. -/
  | wordFinish
  deriving DecidableEq

/-- Is the character part of a word?  Words consist of plain letters, digits and underscores. -/
def isWordChar (c : Char) : Bool := c.isAlphanum || c = '_'

namespace Anchor

/-- Does the condition hold between two characters, one of which is missing at either end of the
    text?  A carriage return and the line feed behind it end a line together. -/
def holds (before behind : Option Char) : Anchor → Bool
  | start => before = none
  | finish => behind = none
  | lineStart false => before = none ∨ before = some '\n'
  | lineStart true =>
    before = none ∨ before = some '\n' ∨ before = some '\r' ∧ behind ≠ some '\n'
  | lineFinish false => behind = none ∨ behind = some '\n'
  | lineFinish true =>
    behind = none ∨ behind = some '\r' ∨ behind = some '\n' ∧ before ≠ some '\r'
  | boundary => before.any isWordChar != behind.any isWordChar
  | noBoundary => before.any isWordChar == behind.any isWordChar
  | wordStart => !before.any isWordChar && behind.any isWordChar
  | wordFinish => before.any isWordChar && !behind.any isWordChar

end Anchor

/-! ## Patterns -/

/-- How often something is repeated. -/
inductive Times where
  | atMostOnce
  | anyTimes
  | atLeastOnce
  deriving DecidableEq

/-- A pattern. -/
inductive Pattern where
  | empty
  | literal (cs : List Char)
  /-- One character of a set.  Sets of plain characters are told apart from the others. -/
  | set (plain : Bool) (s : CharSet)
  /-- The empty text, where a condition holds. -/
  | anchor (a : Anchor)
  /-- Repetitions, as few as possible if they are reluctant. -/
  | repeats (times : Times) (reluctant : Bool) (p : Pattern)
  /-- A group that is counted. -/
  | group (number : Nat) (p : Pattern)
  /-- One pattern after the other. -/
  | seq (first second : Pattern)
  /-- One of two patterns, of which the first is preferred. -/
  | either (first second : Pattern)
  deriving DecidableEq

namespace Pattern

/-! ## Rows -/

/-- The patterns of a row. -/
def parts : Pattern → List Pattern
  | empty => []
  | seq first rest => first :: rest.parts
  | p => [p]

/-- The row of some patterns. -/
def ofParts : List Pattern → Pattern
  | [] => empty
  | [p] => p
  | p :: rest => seq p (ofParts rest)

/-- Put a pattern in front of a row.  Two literals become one. -/
def glue (p : Pattern) (row : List Pattern) : List Pattern :=
  match p, row with
  | literal cs, literal ds :: rest => literal (cs ++ ds) :: rest
  | p, row => p :: row

/-- One pattern after the other. -/
def concat (ps : List Pattern) : Pattern :=
  ofParts ((ps.flatMap parts).foldr glue [])

/-! ## Sets -/

/-- One character of a set.  The set of a single character is a literal. -/
def ofSet (plain : Bool) (s : CharSet) : Pattern :=
  match s.only? with
  | some c => literal [c]
  | none => if s = .empty then set true s else set plain s

/-! ## Repetitions -/

/-- Can the pattern match the empty text alone? -/
def isEmptyOnly : Pattern → Bool
  | empty => true
  | literal _ => false
  | set _ _ => false
  | anchor _ => true
  | repeats times _ p => times = .atMostOnce && p.isEmptyOnly
  | group _ p => p.isEmptyOnly
  | seq a b => a.isEmptyOnly && b.isEmptyOnly
  | either a b => a.isEmptyOnly && b.isEmptyOnly

/-- Repetitions of a pattern.  What is always empty is repeated once at most. -/
def repeated (times : Times) (reluctant : Bool) (p : Pattern) : Pattern :=
  if p.isEmptyOnly then
    match times with
    | .atLeastOnce => p
    | _ => repeats .atMostOnce reluctant p
  else repeats times reluctant p

/-! ## Alternatives -/

/-- The alternatives of a pattern. -/
def branches : Pattern → List Pattern
  | either first rest => first :: rest.branches
  | p => [p]

/-- The pattern that has some alternatives. -/
def ofBranches : List Pattern → Pattern
  | [] => set true .empty
  | [p] => p
  | p :: rest => either p (ofBranches rest)

/-- The set that a pattern stands for if it is a literal of one character. -/
def letter? : Pattern → Option CharSet
  | literal [c] => some (.single c)
  | _ => none

/-- The set that a pattern stands for if it is written as a set. -/
def set? : Pattern → Option CharSet
  | set _ s => some s
  | _ => none

/-- What two rows begin with. -/
def commonPart : List Pattern → List Pattern → List Pattern
  | p :: ps, q :: qs => if p = q then p :: commonPart ps qs else []
  | _, _ => []

/-- What all alternatives begin with.  Only rows of several patterns have something in common. -/
def commonStart : List Pattern → List Pattern
  | [] => []
  | first :: rest =>
    if (first :: rest).all fun p => 1 < p.parts.length then
      rest.foldl (fun start p => commonPart start p.parts) first.parts
    else []

/-- How many patterns there are in a pattern. -/
def size : Pattern → Nat
  | repeats _ _ p => p.size + 1
  | group _ p => p.size + 1
  | seq a b => a.size + b.size + 1
  | either a b => a.size + b.size + 1
  | _ => 1

/-- One of some patterns, the preferred ones first.  The fuel counts how often a common beginning
    may be taken out. -/
def choiceWithin : Nat → List Pattern → Pattern
  | 0, ps => ofBranches ps
  | fuel + 1, ps =>
    match ps.flatMap branches with
    | [] => ofBranches []
    | [p] => p
    | all =>
      match all.mapM letter?, all.mapM set? with
      | some sets, _ => ofSet false (sets.foldl CharSet.union .empty)
      | none, some sets => ofSet false (sets.foldl CharSet.union .empty)
      | none, none =>
        match commonStart all with
        | [] => ofBranches all
        | start =>
          let rests := all.map fun p => concat (p.parts.drop start.length)
          concat (start ++ [choiceWithin fuel rests])

/-- One of some patterns, the preferred ones first. -/
def choice (ps : List Pattern) : Pattern :=
  choiceWithin (ps.foldr (fun p n => p.size + n) 1) ps

end Pattern

end FairLock.Text
