import FairLock.Json.Record
import FairLock.Stats

/-!
# Counters as JSON

All ten counters are written, and all ten are asked for.
-/

namespace FairLock.Stats

/-- The names of the counters, in order. -/
def fieldNames : List String :=
  ["submitted", "granted_immediately", "queued", "granted_from_queue", "released",
   "redundant_releases", "entry_failures", "rejected", "peak_pending", "read_batches"]

/-- The values of the counters, in order. -/
def toList (s : Stats) : List Nat :=
  [s.submitted, s.grantedImmediately, s.queued, s.grantedFromQueue, s.released,
   s.redundantReleases, s.entryFailures, s.rejected, s.peakPending, s.readBatches]

/-- The counters with the given values, if there are ten. -/
def ofList? : List Nat → Option Stats
  | [submitted, grantedImmediately, queued, grantedFromQueue, released, redundantReleases,
      entryFailures, rejected, peakPending, readBatches] =>
    some ⟨submitted, grantedImmediately, queued, grantedFromQueue, released, redundantReleases,
      entryFailures, rejected, peakPending, readBatches⟩
  | _ => none

@[simp] theorem ofList?_toList (s : Stats) : ofList? s.toList = some s := rfl

/-- Counters from their JSON form. -/
def ofJson? (j : Json) : Option Stats := do
  let slots ← j.slots? fieldNames
  let values ← slots.mapM fun slot => slot.bind Json.word?
  ofList? values

/-- The JSON form of counters. -/
def toJson (s : Stats) : Json :=
  Json.record (fieldNames.zip (s.toList.map Json.ofNat))

end FairLock.Stats
