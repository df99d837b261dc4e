import FairLock.Text.Quoted

/-!
# Structured displays

A structured display names a thing and lists its fields.  It is laid out on one line, or as a block
with one field a line; both show the same fields in the same order.
-/

namespace FairLock.Text

/-- The shown value of a field. -/
inductive Shown where
  /-- A value that is its own text. -/
  | plain (text : String)
  /-- A value inside a named wrapper. -/
  | wrapped (name text : String)

/-- A name and its fields. -/
structure Display where
  name : String
  fields : List (String × Shown)

namespace Shown

/-- The value on one line. -/
def line : Shown → String
  | plain text => text
  | wrapped name text => name ++ "(" ++ text ++ ")"

/-- The value as part of a block; a wrapped value takes lines of its own. -/
def block : Shown → String
  | plain text => text
  | wrapped name text => name ++ "(\n        " ++ text ++ ",\n    )"

end Shown

namespace Display

/-- The display on one line. -/
def line (d : Display) : String :=
  d.name ++ " \x7b " ++ String.intercalate ", " (d.fields.map fun f => f.1 ++ ": " ++ f.2.line) ++
    " \x7d"

/-- The display as a block. -/
def block (d : Display) : String :=
  d.name ++ " \x7b\n" ++ String.join (d.fields.map fun f => "    " ++ f.1 ++ ": " ++ f.2.block ++ ",\n") ++
    "\x7d"

end Display

end FairLock.Text
