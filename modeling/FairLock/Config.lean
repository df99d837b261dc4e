/-!
# Lock settings

A lock is set up with a name for its reports, an optional bound on the number of waiting requests,
a switch for failure warnings, and the time after which a hold counts as slow.

## Main definitions

- `Duration`: whole seconds and nanoseconds, with the nanoseconds below one second.
- `Config`: the settings; `Config.Change` lists the ways to arrive at one step by step.
- `Config.reachedLimit`: the bound, once a queue of the given length has reached it.
-/

namespace FairLock

/-- Numbers up to this one, excluded, fit the counters of a record. -/
def wordLimit : Nat := 18446744073709551616

/-- Nanoseconds in one second. -/
def nanosPerSecond : Nat := 1000000000

/-- A span of time.  The seconds fit a record counter and the nanoseconds stay below one second,
    so every span is written in one way only. -/
structure Duration where
  /-- Whole seconds. -/
  secs : Nat
  /-- Nanoseconds beyond the whole seconds. -/
  nanos : Nat
  /-- The seconds fit a record counter. -/
  secs_lt : secs < wordLimit := by decide
  /-- The nanoseconds are less than one second. -/
  nanos_lt : nanos < nanosPerSecond := by decide
  deriving DecidableEq

namespace Duration

/-- No time at all. -/
def zero : Duration := ⟨0, 0, by decide, by decide⟩

/-- One second. -/
def second : Duration := ⟨1, 0, by decide, by decide⟩

/-- The span of so many seconds and nanoseconds.  Full seconds among the nanoseconds are carried;
    there is no such span when the seconds then no longer fit. -/
def ofParts? (secs nanos : Nat) : Option Duration :=
  if h : secs + nanos / nanosPerSecond < wordLimit then
    some ⟨secs + nanos / nanosPerSecond, nanos % nanosPerSecond, h, Nat.mod_lt _ (by decide)⟩
  else
    none

/-- The length of the span in nanoseconds. -/
def totalNanos (d : Duration) : Nat :=
  d.secs * nanosPerSecond + d.nanos

/-- Parts that are already in normal form are taken as they are. -/
@[simp] theorem ofParts?_self (d : Duration) : ofParts? d.secs d.nanos = some d := by
  have hn := d.nanos_lt
  have hs := d.secs_lt
  unfold ofParts?
  simp [Nat.div_eq_of_lt hn, Nat.mod_eq_of_lt hn, hs]

theorem totalNanos_ofParts? {s n : Nat} {d : Duration} (h : ofParts? s n = some d) :
    d.totalNanos = s * nanosPerSecond + n := by
  unfold ofParts? at h
  split at h
  · cases h
    have := Nat.div_add_mod n nanosPerSecond
    simp only [totalNanos, nanosPerSecond] at *
    omega
  · cases h

theorem ofParts?_isSome_iff {s n : Nat} :
    (ofParts? s n).isSome = true ↔ s + n / nanosPerSecond < wordLimit := by
  unfold ofParts?
  split <;> simp_all

end Duration

/-- The settings of one lock. -/
structure Config where
  /-- The name under which the lock reports. -/
  name : String := "rwlock"
  /-- How many requests may wait; `none` leaves their number open. -/
  maxPending : Option Nat := none
  /-- Is a contained failure of an entry point reported as a warning? -/
  logFailures : Bool := true
  /-- A grant held for longer than this is reported as slow. -/
  slowHold : Duration := Duration.second
  deriving DecidableEq

namespace Config

/-- The name of a lock that was given none. -/
def defaultName : String := "rwlock"

/-- Default settings under a name of one's own. -/
def named (name : String) : Config := { name := name }

/-- Default settings with a bound on the queue. -/
def bounded (limit : Nat) : Config := { maxPending := some limit }

/-- The bound, if there is one and `pending` waiting requests have reached it: one more would be
    too many. -/
def reachedLimit (c : Config) (pending : Nat) : Option Nat :=
  c.maxPending.filter fun limit => limit ≤ pending

/-- One step in putting settings together.  The first three start afresh, the others replace one
    setting. -/
inductive Change where
  | default
  | named (name : String)
  | bounded (limit : Nat)
  | withName (name : String)
  | withMaxPending (limit : Option Nat)
  | withLogFailures (on : Bool)
  | withSlowHold (slow : Duration)

/-- The settings after one step. -/
def apply (c : Config) : Change → Config
  | .default => {}
  | .named name => Config.named name
  | .bounded limit => Config.bounded limit
  | .withName name => { c with name := name }
  | .withMaxPending limit => { c with maxPending := limit }
  | .withLogFailures on => { c with logFailures := on }
  | .withSlowHold slow => { c with slowHold := slow }

/-- The settings after each of a row of steps. -/
def build (c : Config) : List Change → List Config
  | [] => []
  | change :: rest => c.apply change :: (c.apply change).build rest

theorem reachedLimit_eq_some_iff {c : Config} {pending limit : Nat} :
    c.reachedLimit pending = some limit ↔ c.maxPending = some limit ∧ limit ≤ pending := by
  simp [reachedLimit]

theorem reachedLimit_eq_none_iff {c : Config} {pending : Nat} :
    c.reachedLimit pending = none ↔ ∀ limit, c.maxPending = some limit → pending < limit := by
  cases h : c.maxPending <;> simp [reachedLimit, h, Option.filter]

end Config

end FairLock
