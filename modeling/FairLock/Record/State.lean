import FairLock.Json.Record
import FairLock.State

/-!
# Lock states as JSON

A state is a tag, and for a reading lock the number of readers beside it.
-/

namespace FairLock.State

/-- The alternatives of the tag, each given by how it is completed by a content. -/
def tags : List (String × (Option Json → Option State)) :=
  [("free", bare free),
   ("reading", fun content => content.bind fun j => j.word?.map reading),
   ("writing", bare writing)]
where
  /-- A state without content: none is given, or null. -/
  bare (s : State) : Option Json → Option State
    | none => some s
    | some j => if j.isNull then some s else none

/-- A state from its JSON form. -/
def ofJson? (j : Json) : Option State := do
  let t ← j.tagged? "state" "readers"
  let complete ← t.tag.alternative? tags Json.isNull
  complete t.content

/-- The JSON form of a state. -/
def toJson : State → Json
  | free => Json.record [("state", Json.ofText "free")]
  | reading n => Json.record [("state", Json.ofText "reading"), ("readers", Json.ofNat n)]
  | writing => Json.record [("state", Json.ofText "writing")]

end FairLock.State
