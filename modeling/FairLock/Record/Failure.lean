import FairLock.Failure
import FairLock.Record.Mode

/-!
# Failures as JSON

A failure is a tag with its details beside it.  Details are always an object; members that they do
not ask for are skipped.
-/

namespace FairLock.Failure

/-- The places of named details. -/
def detailSlots? (names : List String) : Option Json → Option (List (Option Json))
  | some (.object members) => Json.memberSlots? names members
  | _ => none

/-- The details of a failed entry point, whose last field goes by the given name. -/
def entryDetails? (build : GrantId → Mode → String → Failure) (textName : String)
    (content : Option Json) (kept : Bool) : Option Failure := do
  match ← detailSlots? ["grant", "mode", textName] content with
  | [some grant, some mode, some text] =>
    let grant ← grant.word?
    let mode ← Mode.ofJson? mode kept
    let text ← text.text?
    return build grant mode text
  | _ => none

/-- The details of a full queue. -/
def limitDetails? (content : Option Json) : Option Failure := do
  match ← detailSlots? ["limit"] content with
  | [some limit] => limit.word?.map queueFull
  | _ => none

/-- The alternatives of the tag, each given by how it is completed by a content, which may have
    been kept. -/
def tags : List (String × (Option Json → Bool → Option Failure)) :=
  [("queue_full", fun content _ => limitDetails? content),
   ("entry_failed", entryDetails? entryFailed "reason"),
   ("entry_panicked", entryDetails? entryPanicked "message"),
   ("abandoned", fun content _ =>
     if content.all Json.isNull then some abandoned else none)]

/-- A failure from its JSON form. -/
def ofJson? (j : Json) : Option Failure := do
  let t ← j.tagged? "error_type" "details"
  let complete ← t.tag.alternative? tags Json.isNull
  complete t.content t.kept

/-- The JSON form of a failure. -/
def toJson : Failure → Json
  | queueFull limit =>
    Json.record
      [("error_type", Json.ofText "queue_full"),
       ("details", Json.record [("limit", Json.ofNat limit)])]
  | entryFailed grant mode reason =>
    Json.record
      [("error_type", Json.ofText "entry_failed"),
       ("details", Json.record
         [("grant", Json.ofNat grant), ("mode", mode.toJson), ("reason", Json.ofText reason)])]
  | entryPanicked grant mode message =>
    Json.record
      [("error_type", Json.ofText "entry_panicked"),
       ("details", Json.record
         [("grant", Json.ofNat grant), ("mode", mode.toJson), ("message", Json.ofText message)])]
  | abandoned => Json.record [("error_type", Json.ofText "abandoned")]

end FairLock.Failure
