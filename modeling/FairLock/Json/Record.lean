import FairLock.Config
import FairLock.Json.Storable

/-!
# Reading records

A record is written as an object, whose members may come in any order and may be joined by unknown
ones, or as an array of its fields.  `slots?` brings both to one row with a place for each field.
A choice between alternatives is written as a word (`alternative?`), or as a tag with a content
beside it (`tagged?`).

A content that comes before its tag is kept until the tag is known.  To be kept, a value has to be
sound in itself: `isStorable`.  A content that follows its tag is looked at only where it is used.
-/

namespace FairLock.Json

/-! ## Plain values -/

/-- A natural number below `limit`. -/
def naturalBelow? (limit : Nat) : Json → Option Nat
  | .number n => n.natural?.filter fun n => n < limit
  | _ => none

/-- A natural number that fits a record counter. -/
def word? (j : Json) : Option Nat := j.naturalBelow? wordLimit

/-- A text. -/
def text? : Json → Option String
  | .string s => s
  | _ => none

/-- A truth value. -/
def flag? : Json → Option Bool
  | .bool b => some b
  | _ => none

theorem word?_ofNat {n : Nat} (h : n < wordLimit) : (ofNat n).word? = some n := by
  simp [word?, ofNat, naturalBelow?, h]

@[simp] theorem text?_ofText (s : String) : (ofText s).text? = some s := rfl

/-- Is this the null value? -/
def isNull : Json → Bool
  | .null => true
  | _ => false

/-- Either null, or a value that `read` understands. -/
def optional? {β : Type} (read : Json → Option β) : Json → Option (Option β)
  | .null => some none
  | j => (read j).map some

/-! ## Fields -/

/-- The values of all members with the given name, in order. -/
def valuesOf (name : String) (members : List (Literal × Json)) : List Json :=
  members.filterMap fun m => if m.1 = some name then some m.2 else none

/-- The place of one field among the members of an object: empty if the field is missing, and no
    place at all if it is repeated. -/
def slot? (members : List (Literal × Json)) (name : String) : Option (Option Json) :=
  match valuesOf name members with
  | [] => some none
  | [value] => some (some value)
  | _ => none

/-- The places of the fields of an object.  Every name of a member must name a text, also an
    unknown one. -/
def memberSlots? (names : List String) (members : List (Literal × Json)) :
    Option (List (Option Json)) :=
  if members.all fun m => m.1.isSome then names.mapM (slot? members) else none

/-- The places of the fields of a record, given as an object or as an array of leading fields. -/
def slots? (names : List String) : Json → Option (List (Option Json))
  | .object members => memberSlots? names members
  | .array values =>
    if values.length ≤ names.length then
      some (values.map some ++ List.replicate (names.length - values.length) none)
    else none
  | _ => none

/-- The value of a field: the default if its place is empty, else what `read` makes of it. -/
def fieldOr? {β : Type} (default : β) (read : Json → Option β) : Option Json → Option β
  | none => some default
  | some j => read j

/-! ## Alternatives -/

/-- Is this the empty object? -/
def isEmptyObject : Json → Bool
  | .object [] => true
  | _ => false

/-- One of several alternatives without content, by its word: the word alone, or an object with the
    word as its only name and a value that counts as no content. -/
def alternative? {β : Type} (words : List (String × β)) (isUnit : Json → Bool) : Json → Option β
  | .string (some s) => words.lookup s
  | .object [(some s, value)] => if isUnit value then words.lookup s else none
  | _ => none

/-! ## Tags with contents -/

/-- What an object with a tag says: the tag, the content if there is one, and whether the content
    had to be kept because it came first. -/
structure Tagged where
  tag : Json
  content : Option Json
  /-- Did the content come before the tag? -/
  kept : Bool

/-- The tag and the content of a value: an object that has the tag once and the content at most
    once, in either order and among unknown members, or an array of both, whose tag is a word. -/
def tagged? (tagName contentName : String) : Json → Option Tagged
  | .array [.string tag, content] => some ⟨.string tag, some content, false⟩
  | .object members =>
    if members.all fun m => m.1.isSome then
      match members.filter fun m => m.1 = some tagName ∨ m.1 = some contentName with
      | [(name, tag)] => if name = some tagName then some ⟨tag, none, false⟩ else none
      | [(first, a), (second, b)] =>
        if first = some tagName ∧ second = some contentName then some ⟨a, some b, false⟩
        else if first = some contentName ∧ second = some tagName ∧ a.isStorable storableDepth then
          some ⟨b, some a, true⟩
        else none
      | _ => none
    else none
  | _ => none

end FairLock.Json
