import FairLock.Config
import FairLock.Json.Record

/-!
# Settings as JSON

Every setting that is missing has its default.  A span of time is a record of two fields that has
no other members.
-/

namespace FairLock

namespace Duration

/-- Nanoseconds are read as a number below this one. -/
def nanosLimit : Nat := 4294967296

/-- A span from the JSON forms of its parts. -/
def ofPartsJson? (secs nanos : Json) : Option Duration := do
  let secs ← secs.word?
  let nanos ← nanos.naturalBelow? nanosLimit
  ofParts? secs nanos

/-- A span of time from its JSON form. -/
def ofJson? : Json → Option Duration
  | .array [secs, nanos] => ofPartsJson? secs nanos
  | .object [(some "secs", secs), (some "nanos", nanos)] => ofPartsJson? secs nanos
  | .object [(some "nanos", nanos), (some "secs", secs)] => ofPartsJson? secs nanos
  | _ => none

/-- The JSON form of a span of time. -/
def toJson (d : Duration) : Json :=
  Json.record [("secs", Json.ofNat d.secs), ("nanos", Json.ofNat d.nanos)]

end Duration

namespace Config

/-- The names of the settings, in order. -/
def fieldNames : List String := ["name", "max_pending", "log_failures", "slow_hold"]

/-- The settings from the places of the four fields. -/
def ofSlots? : List (Option Json) → Option Config
  | [name, maxPending, logFailures, slowHold] => do
    let name ← Json.fieldOr? ({} : Config).name Json.text? name
    let maxPending ← Json.fieldOr? ({} : Config).maxPending (Json.optional? Json.word?) maxPending
    let logFailures ← Json.fieldOr? ({} : Config).logFailures Json.flag? logFailures
    let slowHold ← Json.fieldOr? ({} : Config).slowHold Duration.ofJson? slowHold
    return ⟨name, maxPending, logFailures, slowHold⟩
  | _ => none

/-- Settings from their JSON form. -/
def ofJson? (j : Json) : Option Config :=
  (j.slots? fieldNames).bind ofSlots?

/-- The JSON form of settings. -/
def toJson (c : Config) : Json :=
  Json.record
    [("name", Json.ofText c.name),
     ("max_pending", c.maxPending.elim Json.null Json.ofNat),
     ("log_failures", Json.bool c.logFailures),
     ("slow_hold", c.slowHold.toJson)]

end Config

end FairLock
