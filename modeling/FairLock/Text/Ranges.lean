/-!
# Tables of code points

A set of code points is given by the closed ranges that it consists of, in increasing order.
-/

namespace FairLock.Text

/-- Closed ranges of code points, in increasing order. -/
abbrev Ranges := Array (Nat × Nat)

namespace Ranges

/-- Does the part of a table from `low` on and before `high` hold a range with `code` in it?
    The table is in increasing order, so the middle range tells which half can. -/
def coversWithin (table : Ranges) (code low high : Nat) : Bool :=
  if low < high then
    match table[(low + high) / 2]? with
    | some (first, last) =>
      if code < first then coversWithin table code low ((low + high) / 2)
      else if last < code then coversWithin table code ((low + high) / 2 + 1) high
      else true
    | none => false
  else
    false
termination_by high - low

/-- Is the code point in one of the ranges? -/
def covers (table : Ranges) (code : Nat) : Bool := table.coversWithin code 0 table.size

end Ranges

end FairLock.Text
