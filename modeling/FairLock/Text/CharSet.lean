/-!
# Sets of characters

A set of characters is kept as closed ranges of code points, in increasing order and with something
left out between any two of them.  Two sets that were put together in different ways are then equal
as soon as their ranges are.

## Main definitions

- `CharSet`: the sets.
- `CharSet.ofRanges`: a set from ranges in any order.
- `union`, `inter`, `diff`, `symmDiff` and `compl`: the usual combinations.
-/

namespace FairLock.Text

/-- A set of characters, by closed ranges of code points. -/
structure CharSet where
  ranges : List (Nat × Nat)
  deriving DecidableEq

namespace CharSet

/-- Is the character in the set? -/
def contains (s : CharSet) (c : Char) : Bool :=
  s.ranges.any fun r => r.1 ≤ c.toNat ∧ c.toNat ≤ r.2

/-! ## Small sets -/

/-- The set without characters. -/
def empty : CharSet := ⟨[]⟩

/-- The set of one character. -/
def single (c : Char) : CharSet := ⟨[(c.toNat, c.toNat)]⟩

/-- The characters from one to another. -/
def between (first last : Char) : CharSet := ⟨[(first.toNat, last.toNat)]⟩

/-- The last code point. -/
def lastCode : Nat := 0x10ffff

/-- All characters. -/
def all : CharSet := ⟨[(0, lastCode)]⟩

/-- The only character of a set that has no other. -/
def only? (s : CharSet) : Option Char :=
  match s.ranges with
  | [(first, last)] => if first = last then some (Char.ofNat first) else none
  | _ => none

/-- Has the set plain characters alone? -/
def isPlain (s : CharSet) : Bool := s.ranges.all fun r => r.2 < 128

/-! ## Combinations -/

/-- Ranges in increasing order behind a first one, with those that touch each other joined. -/
def joinOnto (r : Nat × Nat) : List (Nat × Nat) → List (Nat × Nat)
  | [] => [r]
  | next :: rest =>
    if next.1 ≤ r.2 + 1 then joinOnto (r.1, max r.2 next.2) rest else r :: joinOnto next rest

/-- The set that some ranges make up, whatever their order. -/
def ofRanges (ranges : List (Nat × Nat)) : CharSet :=
  match ranges.mergeSort fun a b => a.1 < b.1 ∨ a.1 = b.1 ∧ a.2 ≤ b.2 with
  | [] => empty
  | first :: rest => ⟨joinOnto first rest⟩

/-- The characters of either set. -/
def union (a b : CharSet) : CharSet := ofRanges (a.ranges ++ b.ranges)

/-- The characters of both sets. -/
def inter (a b : CharSet) : CharSet :=
  ⟨a.ranges.flatMap fun r => b.ranges.filterMap fun t =>
    if max r.1 t.1 ≤ min r.2 t.2 then some (max r.1 t.1, min r.2 t.2) else none⟩

/-- The code point before another one.  No character has the code points from 0xd800 to 0xdfff. -/
def before (code : Nat) : Nat := if code = 0xe000 then 0xd7ff else code - 1

/-- The code point behind another one. -/
def behind (code : Nat) : Nat := if code = 0xd7ff then 0xe000 else code + 1

/-- What is left of one range without another one. -/
def without (t r : Nat × Nat) : List (Nat × Nat) :=
  if r.2 < t.1 ∨ t.2 < r.1 then [r]
  else
    (if r.1 < t.1 then [(r.1, before t.1)] else []) ++
      if t.2 < r.2 then [(behind t.2, r.2)] else []

/-- The characters of the first set that are not in the second one. -/
def diff (a b : CharSet) : CharSet :=
  ⟨b.ranges.foldl (fun ranges t => ranges.flatMap (without t)) a.ranges⟩

/-- The characters of one set that are not in the other one. -/
def symmDiff (a b : CharSet) : CharSet := (a.union b).diff (a.inter b)

/-- What is left out behind the end of a range: between this range and the next one, and so on. -/
def gapsBehind (last : Nat) : List (Nat × Nat) → List (Nat × Nat)
  | [] => if last < lastCode then [(behind last, lastCode)] else []
  | next :: rest => ordered (behind last) (before next.1) :: gapsBehind next.2 rest
where
  /-- A range by its two ends, the smaller one first. -/
  ordered (a b : Nat) : Nat × Nat := (min a b, max a b)

/-- The characters that are not in the set. -/
def compl (s : CharSet) : CharSet :=
  match s.ranges with
  | [] => all
  | first :: rest =>
    ⟨(if 0 < first.1 then [(0, before first.1)] else []) ++ gapsBehind first.2 rest⟩

/-- The set with the other case of its plain letters. -/
def inBothCases (s : CharSet) : CharSet :=
  ofRanges (s.ranges ++ shifted 'a' 'z' 'A' ++ shifted 'A' 'Z' 'a')
where
  /-- The letters from `first` to `last` in the set, moved to where `target` begins. -/
  shifted (first last target : Char) : List (Nat × Nat) :=
    (s.inter (between first last)).ranges.map fun r =>
      (r.1 - first.toNat + target.toNat, r.2 - first.toNat + target.toNat)

end CharSet

end FairLock.Text
