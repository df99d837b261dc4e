/-!
# Natural numbers as doubles

A double holds 53 binary digits.  A natural number that has more is rounded to a neighbour that
has no more, and of two neighbours that are equally near the even one is taken.

## Main definitions

- `roundDouble`: the double next to a natural number.
- `isFiniteProduct`: does a product stay finite?
-/

namespace FairLock.Json

/-- How many binary digits a number has beyond the 53 that a double holds. -/
def excessDigits (n : Nat) : Nat := n.log2 - 52

/-- The nearest multiple of a unit; of two that are equally near the one with the even quotient. -/
def roundTo (unit n : Nat) : Nat :=
  if 2 * (n % unit) < unit ∨ 2 * (n % unit) = unit ∧ n / unit % 2 = 0 then n / unit * unit
  else (n / unit + 1) * unit

/-- The double next to a natural number, the bound on its size aside. -/
def roundDouble (n : Nat) : Nat := roundTo (Nat.pow 2 (excessDigits n)) n

/-- The first number that is rounded beyond the largest double: half a step above it. -/
def overflowBound : Nat := Nat.pow 2 1024 - Nat.pow 2 970

/-- Does the product of two natural numbers stay finite, if factors and product are doubles? -/
def isFiniteProduct (a b : Nat) : Bool := roundDouble a * roundDouble b < overflowBound

end FairLock.Json
