import FairLock.Text.Pattern.Escape

/-!
# Sets in brackets

Square brackets hold characters, ranges of them, named classes and sets in brackets.  A caret in
front means all other characters.  Between two sets `&&` means what is in both, `--` what is in the
first alone and `~~` what is in just one of them; a row of such signs is read from the left.

A set is read together with its depth, which counts how its parts are nested.
-/

namespace FairLock.Text.Pattern

/-! ## Sets as far as they are read -/

/-- Members of a set that stand side by side. -/
structure Members where
  set : CharSet := .empty
  /-- How many members there are. -/
  count : Nat := 0
  /-- The depth of the deepest of them. -/
  inner : Nat := 0

namespace Members

/-- One more member. -/
def add (ms : Members) (s : CharSet) (depth : Nat) : Members :=
  ⟨ms.set.union s, ms.count + 1, max ms.inner depth⟩

/-- The depth of the members.  Several of them are nested in their row. -/
def depth (ms : Members) : Nat := if ms.count ≤ 1 then ms.inner else ms.inner + 1

end Members

/-- A way to combine two sets. -/
inductive Combination where
  | both
  | firstAlone
  | justOne

namespace Combination

/-- Combine two sets. -/
def apply : Combination → CharSet → CharSet → CharSet
  | both => .inter
  | firstAlone => .diff
  | justOne => .symmDiff

end Combination

/-- A set whose bracket is still open. -/
structure OpenSet where
  /-- Does it stand for all other characters? -/
  negated : Bool
  /-- The set that waits to be combined, its depth, and how it is combined. -/
  waiting : Option (CharSet × Nat × Combination) := none
  /-- The members behind that. -/
  members : Members := {}

namespace OpenSet

/-- One more member. -/
def add (o : OpenSet) (s : CharSet) (depth : Nat) : OpenSet :=
  { o with members := o.members.add s depth }

/-- The set so far, and its depth. -/
def combined (m : Modes) (o : OpenSet) : CharSet × Nat :=
  match o.waiting with
  | none => (o.members.set, o.members.depth)
  | some (first, depth, how) =>
    (how.apply (bothCases first) (bothCases o.members.set), max depth o.members.depth + 1)
where
  /-- The set in both cases if they do not matter. -/
  bothCases (s : CharSet) : CharSet := if m.anyCase then s.inBothCases else s

/-- What is read so far waits to be combined with what comes. -/
def await (m : Modes) (o : OpenSet) (how : Combination) : OpenSet :=
  let (chars, depth) := o.combined m
  { negated := o.negated, waiting := some (chars, depth, how) }

end OpenSet

/-! ## Reading -/

/-- A named class after its opening bracket.  It may be negated by a caret. -/
def readClass (s : List Char) : Option (String × Bool × List Char) :=
  match s with
  | ':' :: '^' :: s => readName true s
  | ':' :: s => readName false s
  | _ => none
where
  /-- The name up to a colon and a closing bracket. -/
  readName (negated : Bool) (s : List Char) : Option (String × Bool × List Char) :=
    match s.dropWhile (· ≠ ':') with
    | ':' :: ']' :: rest => some (String.ofList (s.takeWhile (· ≠ ':')), negated, rest)
    | _ => none

/-- One character of a set, or a class. -/
def readMember (m : Modes) : List Char → Option (Escaped × List Char)
  | '\\' :: s => readEscape m s
  | c :: rest => some (.char c, rest)
  | [] => none

/-- May the character be a member under these modes? -/
def isMember (m : Modes) (c : Char) : Bool :=
  m.namesCharacters && (m.allScripts || c.toNat < 128)

/-- One character of a set, a class, or a range.  A hyphen in front of a closing bracket or another
    hyphen makes no range. -/
def readRange (m : Modes) (s : List Char) : Option (CharSet × List Char) := do
  let (first, rest) ← readMember m s
  match m.skip rest with
  | '-' :: rest' =>
    if m.ahead rest' = some ']' ∨ m.ahead rest' = some '-' then alone first ('-' :: rest')
    else
      let (last, rest) ← readMember m (m.skip rest')
      match first, last with
      | .char a, .char b =>
        if a ≤ b ∧ isMember m a ∧ isMember m b then return (.between a b, rest) else none
      | _, _ => none
  | rest => alone first rest
where
  /-- What stands for itself. -/
  alone (e : Escaped) (rest : List Char) : Option (CharSet × List Char) :=
    match e with
    | .char c => if isMember m c then some (.single c, rest) else none
    | .set s => some (s, rest)
    | .anchor _ => none

/-- How many hyphens come first, and what comes behind them. -/
def countHyphens (m : Modes) (inComment : Bool) : List Char → Nat × List Char
  | [] => (0, [])
  | c :: rest =>
    if inComment then countHyphens m (c ≠ '\n') rest
    else if m.spaced ∧ isWhite c then countHyphens m false rest
    else if m.spaced ∧ c = '#' then countHyphens m true rest
    else if c = '-' then
      let (n, rest) := countHyphens m false rest
      (n + 1, rest)
    else (0, c :: rest)

/-- The beginning of a set after its bracket.  Hyphens at the beginning mean themselves, and so does
    a closing bracket that comes first. -/
def readOpening (m : Modes) (s : List Char) : Option (OpenSet × List Char) :=
  match m.skip s with
  | '^' :: rest => readFirst true rest
  | rest => readFirst false rest
where
  /-- What comes behind the caret, if there is one. -/
  readFirst (negated : Bool) (s : List Char) : Option (OpenSet × List Char) :=
    match countHyphens m false s with
    | (0, ']' :: rest) => start negated 1 ']' rest
    | (n, rest) => start negated n '-' rest
  /-- A set that begins with so many times the same character. -/
  start (negated : Bool) (n : Nat) (c : Char) (rest : List Char) : Option (OpenSet × List Char) :=
    if n = 0 then some ({ negated := negated }, rest)
    else if isMember m c then
      some ({ negated := negated, members := ⟨.single c, n, 0⟩ }, rest)
    else none

mutual

/-- A set in brackets, after the opening one, with its depth. -/
def readSet : Nat → Modes → List Char → Option (CharSet × Nat × List Char)
  | 0, _, _ => none
  | fuel + 1, m, s => do
    let (o, rest) ← readOpening m s
    readMembers fuel m o rest

/-- The rest of a set up to its closing bracket. -/
def readMembers : Nat → Modes → OpenSet → List Char → Option (CharSet × Nat × List Char)
  | 0, _, _, _ => none
  | fuel + 1, m, o, s =>
    match m.skip s with
    | [] => none
    | ']' :: rest => do
      let (chars, depth) := o.combined m
      let chars ← m.finish? o.negated chars
      return (chars, depth + 1, rest)
    | '&' :: '&' :: rest => readMembers fuel m (o.await m .both) rest
    | '-' :: '-' :: rest => readMembers fuel m (o.await m .firstAlone) rest
    | '~' :: '~' :: rest => readMembers fuel m (o.await m .justOne) rest
    | '[' :: rest =>
      let named := do
        let (name, negated, rest) ← readClass rest
        let chars ← class? name
        return (chars, negated, rest)
      match named with
      | some (chars, negated, rest) => do
        if !m.namesCharacters then none
        let chars ← m.finish? negated chars
        readMembers fuel m (o.add chars 0) rest
      | none => do
        let (chars, depth, rest) ← readSet fuel m rest
        readMembers fuel m (o.add chars depth) rest
    | s => do
      let (chars, rest) ← readRange m s
      readMembers fuel m (o.add chars 0) rest

end

/-- A set in brackets, after the opening one, with its depth.  Every sign takes two calls at
    most. -/
def readBracket (m : Modes) (s : List Char) : Option (CharSet × Nat × List Char) :=
  readSet (2 * s.length + 2) m s

end FairLock.Text.Pattern
