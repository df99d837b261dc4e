import FairLock.Json.Record
import FairLock.Mode

/-!
# Modes as JSON

A mode is one of two words.
-/

namespace FairLock.Mode

/-- The words for the two modes. -/
def words : List (String × Mode) := [("read", read), ("write", write)]

/-- A mode from its JSON form.  In a value that was kept an empty object counts as no content,
    like null does everywhere. -/
def ofJson? (j : Json) (kept : Bool) : Option Mode :=
  j.alternative? words fun value => value.isNull || (kept && value.isEmptyObject)

/-- The JSON form of a mode. -/
def toJson (m : Mode) : Json := Json.ofText m.text

@[simp] theorem ofJson?_toJson (m : Mode) (kept : Bool) : ofJson? m.toJson kept = some m := by
  cases m <;> rfl

end FairLock.Mode
