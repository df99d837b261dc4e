import FairLock.Proofs.Json.ReadBack
import FairLock.Record.Config
import FairLock.Record.Failure
import FairLock.Record.State
import FairLock.Record.Stats

/-!
# Records survive their texts

Six kinds of values are kept as JSON texts: modes, grant ids, lock states, counters, settings and
failures.  One record has many texts, since a reader lets members come in any order, joins them
with unknown ones, takes an array for an object, and carries nanoseconds into seconds; the writer
picks one of them.  Here both are put together: a value is found again in its text, and so the text
of an accepted value, however that value was spelled, is a fixed point of reading and writing.

A reader takes numbers below `wordLimit` only.  `Format.Fits` says of a value that its numbers are
such; whatever a reader accepts, fits.

## Main definitions

- `Format`: a way to keep the values of a type, by its reader, its writer and its bounds.
- `Format.Lawful`: what is asked of the JSON forms of a format.
- `Format.RoundTrips`: what follows for its texts.

## Main statements

- `records_round_trip`: the formats of all six kinds round-trip.
-/

namespace FairLock

/-! ## Formats -/

/-- A way to keep the values of a type as JSON. -/
structure Format (α : Type) where
  /-- The value that a JSON form stands for. -/
  ofJson? : Json → Option α
  /-- The JSON form that is written for a value. -/
  toJson : α → Json
  /-- The numbers of the value fit their counters. -/
  Fits : α → Prop

namespace Format

variable {α : Type} (f : Format α)

/-- The value that a text stands for. -/
def read? (text : String) : Option α := (Json.read? text).bind f.ofJson?

/-- The text that is written for a value. -/
def write (v : α) : String := (f.toJson v).write

/-- Texts of the format are found again: those that were written, and those that were accepted in
    whatever spelling. -/
structure RoundTrips : Prop where
  /-- Reading what was written for a value gives the value. -/
  read_write : ∀ v, f.Fits v → f.read? (f.write v) = some v
  /-- A value that was read fits, so that what is written for it is read as the same value. -/
  read_again : ∀ text v, f.read? text = some v → f.Fits v ∧ f.read? (f.write v) = some v
  /-- Writing again what was read from the text of an accepted value gives that text. -/
  write_again : ∀ text v, f.read? text = some v →
    (f.read? (f.write v)).map f.write = some (f.write v)

/-- The reader of JSON forms takes back what the writer makes, and accepts nothing that would not
    fit. -/
structure Lawful : Prop where
  proper : ∀ v, (f.toJson v).Proper
  ofJson?_toJson : ∀ v, f.Fits v → f.ofJson? (f.toJson v) = some v
  fits : ∀ j v, f.ofJson? j = some v → f.Fits v

variable {f}

theorem Lawful.read?_write (h : f.Lawful) {v : α} (fits : f.Fits v) :
    f.read? (f.write v) = some v := by
  rw [read?, write, (h.proper v).read?_write, Option.bind_some]
  exact h.ofJson?_toJson v fits

theorem Lawful.fits_of_read? (h : f.Lawful) {text : String} {v : α} (read : f.read? text = some v) :
    f.Fits v := by
  obtain ⟨j, -, accepted⟩ := Option.bind_eq_some_iff.1 read
  exact h.fits j v accepted

theorem Lawful.roundTrips (h : f.Lawful) : f.RoundTrips where
  read_write _ fits := h.read?_write fits
  read_again _ _ read := ⟨h.fits_of_read? read, h.read?_write (h.fits_of_read? read)⟩
  write_again _ _ read := by rw [h.read?_write (h.fits_of_read? read), Option.map_some]

end Format

/-! ## Parts of records -/

namespace Json

theorem Proper.ofNat (n : Nat) : Proper (Json.ofNat n) :=
  Proper.number fun _ hc => absurd hc List.not_mem_nil

theorem Proper.ofText (s : String) : Proper (Json.ofText s) := Proper.string (some s)

/-- A record is proper if its fields are. -/
theorem Proper.record {members : List (String × Json)} (each : ∀ m ∈ members, Proper m.2) :
    Proper (Json.record members) := by
  refine Proper.object fun m hm => ?_
  obtain ⟨member, mem, rfl⟩ := List.mem_map.1 hm
  exact each member mem

theorem naturalBelow?_ofNat {limit n : Nat} (h : n < limit) :
    (Json.ofNat n).naturalBelow? limit = some n := by
  simp [Json.ofNat, naturalBelow?, h]

theorem word?_lt {j : Json} {n : Nat} (h : j.word? = some n) : n < wordLimit := by
  unfold word? naturalBelow? at h
  split at h
  · simpa using (Option.filter_eq_some_iff.1 h).2
  · cases h

/-- An alternative that was picked is one of those given. -/
theorem alternative?_mem {β : Type} {words : List (String × β)} {isUnit : Json → Bool} {j : Json}
    {b : β} (h : j.alternative? words isUnit = some b) : ∃ word, (word, b) ∈ words := by
  -- written bare or as the key of its content, the word stands in the list
  have found (word : String) (hit : words.lookup word = some b) : ∃ word, (word, b) ∈ words := by
    obtain ⟨before, after, rfl, -⟩ := List.lookup_eq_some_iff.1 hit
    exact ⟨word, by simp⟩
  unfold alternative? at h
  split at h
  · exact found _ h
  · split at h
    · exact found _ h
    · cases h
  · cases h

end Json

/-! ## The six formats -/

/-- Modes, each by its word. -/
def Mode.format : Format Mode := ⟨fun j => Mode.ofJson? j false, Mode.toJson, fun _ => True⟩

theorem Mode.format_lawful : Mode.format.Lawful where
  proper m := Json.Proper.ofText m.text
  ofJson?_toJson m _ := Mode.ofJson?_toJson m false
  fits _ _ _ := trivial

/-- Grant ids, each by its number. -/
def GrantId.format : Format GrantId := ⟨Json.word?, Json.ofNat, fun id => id < wordLimit⟩

theorem GrantId.format_lawful : GrantId.format.Lawful where
  proper := Json.Proper.ofNat
  ofJson?_toJson _ fits := Json.word?_ofNat fits
  fits _ _ read := Json.word?_lt read

/-- Lock states. -/
def State.format : Format State := ⟨State.ofJson?, State.toJson, fun s => s.holders < wordLimit⟩

theorem State.ofJson?_toJson {s : State} (fits : s.holders < wordLimit) :
    State.ofJson? s.toJson = some s := by
  cases s with
  | free => rfl
  | writing => rfl
  | reading n =>
    have small : n < wordLimit := fits
    change (Json.ofNat n).word?.map State.reading = _
    rw [Json.word?_ofNat small, Option.map_some]

/-- Whatever completes a tag, the number of readers in the state has been read as a word. -/
theorem State.holders_lt_of_ofJson? {j : Json} {s : State} (h : State.ofJson? j = some s) :
    s.holders < wordLimit := by
  obtain ⟨t, -, completed⟩ := Option.bind_eq_some_iff.1 h
  obtain ⟨complete, picked, read⟩ := Option.bind_eq_some_iff.1 completed
  obtain ⟨word, mem⟩ := Json.alternative?_mem picked
  -- a tag without content completes to its own state
  have bare {b : State} (small : b.holders < wordLimit)
      (read : State.tags.bare b t.content = some s) : s.holders < wordLimit := by
    unfold State.tags.bare at read
    split at read
    · exact Option.some.inj read ▸ small
    · split at read
      · exact Option.some.inj read ▸ small
      · cases read
  simp only [State.tags, List.mem_cons, Prod.mk.injEq, List.not_mem_nil, or_false] at mem
  -- the three tags, of which only the second one reads a number
  rcases mem with ⟨-, rfl⟩ | ⟨-, rfl⟩ | ⟨-, rfl⟩
  · exact bare (by decide) read
  · obtain ⟨content, -, counted⟩ := Option.bind_eq_some_iff.1 read
    obtain ⟨n, count, rfl⟩ := Option.map_eq_some_iff.1 counted
    exact Json.word?_lt count
  · exact bare (by decide) read

theorem State.format_lawful : State.format.Lawful where
  proper s := by
    cases s <;> refine Json.Proper.record ?_ <;> simp [Json.Proper.ofText, Json.Proper.ofNat]
  ofJson?_toJson _ fits := State.ofJson?_toJson fits
  fits _ _ read := State.holders_lt_of_ofJson? read

/-- Counters. -/
def Stats.format : Format Stats :=
  ⟨Stats.ofJson?, Stats.toJson, fun s => ∀ n ∈ s.toList, n < wordLimit⟩

theorem Stats.toList_of_ofList? {ns : List Nat} {s : Stats} (h : Stats.ofList? ns = some s) :
    s.toList = ns := by
  unfold Stats.ofList? at h
  split at h
  · cases h
    rfl
  · cases h

/-- Numbers that fit are read back from their places. -/
theorem Json.words_ofNat {ns : List Nat} (fits : ∀ n ∈ ns, n < wordLimit) :
    (ns.map fun n => some (Json.ofNat n)).mapM (fun slot => slot.bind Json.word?) = some ns := by
  induction ns with
  | nil => rfl
  | cons n ns ih =>
    have first : n < wordLimit := fits n List.mem_cons_self
    have later := ih fun k hk => fits k (List.mem_cons_of_mem n hk)
    rw [List.map_cons, List.mapM_cons, later]
    simp [Json.word?_ofNat first]

/-- Numbers that were read from their places fit. -/
theorem Json.words_lt {slots : List (Option Json)} {ns : List Nat}
    (h : slots.mapM (fun slot => slot.bind Json.word?) = some ns) : ∀ n ∈ ns, n < wordLimit := by
  -- place by place; each number was read as a word
  induction slots generalizing ns with
  | nil =>
    cases h
    exact fun n hn => absurd hn List.not_mem_nil
  | cons slot slots ih =>
    rw [List.mapM_cons] at h
    obtain ⟨n, first, h⟩ := Option.bind_eq_some_iff.1 h
    obtain ⟨rest, later, h⟩ := Option.bind_eq_some_iff.1 h
    cases h
    obtain ⟨j, -, read⟩ := Option.bind_eq_some_iff.1 first
    intro k hk
    rcases List.mem_cons.1 hk with rfl | hk
    · exact Json.word?_lt read
    · exact ih later k hk

theorem Stats.ofJson?_toJson {s : Stats} (fits : ∀ n ∈ s.toList, n < wordLimit) :
    Stats.ofJson? s.toJson = some s := by
  have places :
      s.toJson.slots? Stats.fieldNames = some (s.toList.map fun n => some (Json.ofNat n)) := rfl
  rw [Stats.ofJson?, places]
  simp only [Option.bind_eq_bind, Option.bind_some, Json.words_ofNat fits, Stats.ofList?_toList]

theorem Stats.fits_of_ofJson? {j : Json} {s : Stats} (h : Stats.ofJson? j = some s) :
    ∀ n ∈ s.toList, n < wordLimit := by
  obtain ⟨slots, -, h⟩ := Option.bind_eq_some_iff.1 h
  obtain ⟨values, words, h⟩ := Option.bind_eq_some_iff.1 h
  rw [Stats.toList_of_ofList? h]
  exact Json.words_lt words

theorem Stats.format_lawful : Stats.format.Lawful where
  proper s := by
    refine Json.Proper.record fun m hm => ?_
    obtain ⟨n, -, value⟩ := List.mem_map.1 (List.of_mem_zip hm).2
    exact value ▸ Json.Proper.ofNat n
  ofJson?_toJson _ fits := Stats.ofJson?_toJson fits
  fits _ _ read := Stats.fits_of_ofJson? read

/-- Settings. -/
def Config.format : Format Config :=
  ⟨Config.ofJson?, Config.toJson, fun c => ∀ limit, c.maxPending = some limit → limit < wordLimit⟩

theorem Duration.ofJson?_toJson (d : Duration) : Duration.ofJson? d.toJson = some d := by
  have nanos : d.nanos < Duration.nanosLimit := Nat.lt_trans d.nanos_lt (by decide)
  change Duration.ofPartsJson? (Json.ofNat d.secs) (Json.ofNat d.nanos) = some d
  simp [Duration.ofPartsJson?, Json.word?_ofNat d.secs_lt, Json.naturalBelow?_ofNat nanos]

theorem Config.optionalWord?_written {limit : Option Nat}
    (fits : ∀ n, limit = some n → n < wordLimit) :
    Json.optional? Json.word? (limit.elim Json.null Json.ofNat) = some limit := by
  cases limit with
  | none => rfl
  | some n =>
    change (Json.ofNat n).word?.map some = _
    rw [Json.word?_ofNat (fits n rfl), Option.map_some]

theorem Config.ofJson?_toJson {c : Config}
    (fits : ∀ limit, c.maxPending = some limit → limit < wordLimit) :
    Config.ofJson? c.toJson = some c := by
  have places : c.toJson.slots? Config.fieldNames =
      some [some (Json.ofText c.name), some (c.maxPending.elim Json.null Json.ofNat),
        some (Json.bool c.logFailures), some c.slowHold.toJson] := rfl
  rw [Config.ofJson?, places, Option.bind_some, Config.ofSlots?]
  simp [Json.fieldOr?, Config.optionalWord?_written fits, Json.flag?, Duration.ofJson?_toJson]

theorem Config.fits_of_ofJson? {j : Json} {c : Config} (h : Config.ofJson? j = some c) :
    ∀ limit, c.maxPending = some limit → limit < wordLimit := by
  obtain ⟨slots, -, h⟩ := Option.bind_eq_some_iff.1 h
  -- four places for the four settings, of which only the second holds a number
  unfold Config.ofSlots? at h
  split at h
  · obtain ⟨name, -, h⟩ := Option.bind_eq_some_iff.1 h
    obtain ⟨maxPending, read, h⟩ := Option.bind_eq_some_iff.1 h
    obtain ⟨logFailures, -, h⟩ := Option.bind_eq_some_iff.1 h
    obtain ⟨slowHold, -, h⟩ := Option.bind_eq_some_iff.1 h
    cases h
    rintro limit rfl
    unfold Json.fieldOr? at read
    split at read
    · cases read
    -- without a bound there is nothing to fit
    · unfold Json.optional? at read
      split at read
      · cases read
      · obtain ⟨n, word, same⟩ := Option.map_eq_some_iff.1 read
        cases same
        exact Json.word?_lt word
  · cases h

theorem Config.format_lawful : Config.format.Lawful where
  proper c := by
    refine Json.Proper.record ?_
    have limit : (c.maxPending.elim Json.null Json.ofNat).Proper := by
      cases c.maxPending with
      | none => exact Json.Proper.null
      | some n => exact Json.Proper.ofNat n
    have slow : c.slowHold.toJson.Proper := Json.Proper.record (by simp [Json.Proper.ofNat])
    simp [Json.Proper.ofText, Json.Proper.bool, limit, slow]
  ofJson?_toJson _ fits := Config.ofJson?_toJson fits
  fits _ _ read := Config.fits_of_ofJson? read

/-- The numbers in a failure fit their counters. -/
def Failure.Fits : Failure → Prop
  | .queueFull limit => limit < wordLimit
  | .entryFailed grant _ _ => grant < wordLimit
  | .entryPanicked grant _ _ => grant < wordLimit
  | .abandoned => True

/-- Failures. -/
def Failure.format : Format Failure := ⟨Failure.ofJson?, Failure.toJson, Failure.Fits⟩

/-- The details of a failed entry point are read back under either name of the last field. -/
theorem Failure.entryDetails?_written (build : GrantId → Mode → String → Failure)
    (textName : String) (grant : textName ≠ "grant") (mode : textName ≠ "mode") {id : GrantId}
    (small : id < wordLimit) (m : Mode) (text : String) (kept : Bool) :
    Failure.entryDetails? build textName
      (some (Json.record
        [("grant", Json.ofNat id), ("mode", m.toJson), (textName, Json.ofText text)])) kept =
      some (build id m text) := by
  -- each detail is found in its place, as the three names differ
  have places : Failure.detailSlots? ["grant", "mode", textName]
      (some (Json.record
        [("grant", Json.ofNat id), ("mode", m.toJson), (textName, Json.ofText text)])) =
      some [some (Json.ofNat id), some m.toJson, some (Json.ofText text)] := by
    simp [Failure.detailSlots?, Json.record, Json.memberSlots?, Json.slot?, Json.valuesOf, grant,
      mode, Ne.symm grant, Ne.symm mode]
  rw [Failure.entryDetails?, places]
  simp [Json.word?_ofNat small]

theorem Failure.ofJson?_toJson {f : Failure} (fits : f.Fits) :
    Failure.ofJson? f.toJson = some f := by
  cases f with
  -- the bound and the number of the grant are the only numbers, and they fit
  | queueFull limit =>
    have small : limit < wordLimit := fits
    change (Json.ofNat limit).word?.map Failure.queueFull = _
    rw [Json.word?_ofNat small, Option.map_some]
  | entryFailed id mode reason =>
    exact Failure.entryDetails?_written entryFailed "reason" (by decide) (by decide) fits mode
      reason false
  | entryPanicked id mode message =>
    exact Failure.entryDetails?_written entryPanicked "message" (by decide) (by decide) fits mode
      message false
  | abandoned => rfl

/-- The grant in the details of a failed entry point has been read as a word. -/
theorem Failure.entryDetails?_eq_some {build : GrantId → Mode → String → Failure}
    {textName : String} {content : Option Json} {kept : Bool} {f : Failure}
    (h : Failure.entryDetails? build textName content kept = some f) :
    ∃ id m text, f = build id m text ∧ id < wordLimit := by
  obtain ⟨places, -, h⟩ := Option.bind_eq_some_iff.1 h
  -- the three places of the details, the first of them with the number
  split at h
  · obtain ⟨id, word, h⟩ := Option.bind_eq_some_iff.1 h
    obtain ⟨m, -, h⟩ := Option.bind_eq_some_iff.1 h
    obtain ⟨text, -, h⟩ := Option.bind_eq_some_iff.1 h
    cases h
    exact ⟨id, m, text, rfl, Json.word?_lt word⟩
  · cases h

theorem Failure.limitDetails?_eq_some {content : Option Json} {f : Failure}
    (h : Failure.limitDetails? content = some f) :
    ∃ limit, f = queueFull limit ∧ limit < wordLimit := by
  obtain ⟨places, -, h⟩ := Option.bind_eq_some_iff.1 h
  split at h
  · obtain ⟨limit, word, rfl⟩ := Option.map_eq_some_iff.1 h
    exact ⟨limit, rfl, Json.word?_lt word⟩
  · cases h

theorem Failure.fits_of_ofJson? {j : Json} {f : Failure} (h : Failure.ofJson? j = some f) :
    f.Fits := by
  obtain ⟨t, -, completed⟩ := Option.bind_eq_some_iff.1 h
  obtain ⟨complete, picked, read⟩ := Option.bind_eq_some_iff.1 completed
  obtain ⟨word, mem⟩ := Json.alternative?_mem picked
  simp only [Failure.tags, List.mem_cons, Prod.mk.injEq, List.not_mem_nil, or_false] at mem
  -- tag by tag; an abandoned request has no details
  rcases mem with ⟨-, rfl⟩ | ⟨-, rfl⟩ | ⟨-, rfl⟩ | ⟨-, rfl⟩
  · obtain ⟨limit, rfl, small⟩ := Failure.limitDetails?_eq_some read
    exact small
  · obtain ⟨id, m, text, rfl, small⟩ := Failure.entryDetails?_eq_some read
    exact small
  · obtain ⟨id, m, text, rfl, small⟩ := Failure.entryDetails?_eq_some read
    exact small
  · simp only at read
    split at read
    · exact Option.some.inj read ▸ trivial
    · cases read

theorem Failure.proper_toJson (f : Failure) : f.toJson.Proper := by
  -- a tag with an object of details beside it
  have tagged {tag : String} {details : List (String × Json)}
      (each : ∀ m ∈ details, m.2.Proper) :
      (Json.record
        [("error_type", Json.ofText tag), ("details", Json.record details)]).Proper := by
    have := Json.Proper.record each
    exact Json.Proper.record (by simp [Json.Proper.ofText, this])
  have mode (m : Mode) : m.toJson.Proper := Json.Proper.ofText m.text
  cases f with
  | queueFull limit => exact tagged (by simp [Json.Proper.ofNat])
  | entryFailed id m reason =>
    exact tagged (by simp [Json.Proper.ofText, Json.Proper.ofNat, mode])
  | entryPanicked id m message =>
    exact tagged (by simp [Json.Proper.ofText, Json.Proper.ofNat, mode])
  | abandoned => exact Json.Proper.record (by simp [Json.Proper.ofText])

theorem Failure.format_lawful : Failure.format.Lawful where
  proper := Failure.proper_toJson
  ofJson?_toJson _ fits := Failure.ofJson?_toJson fits
  fits _ _ read := Failure.fits_of_ofJson? read

/-! ## All six -/

/-- Modes, grant ids, lock states, counters, settings and failures are all found again in their
    texts. -/
theorem records_round_trip :
    Mode.format.RoundTrips ∧ GrantId.format.RoundTrips ∧ State.format.RoundTrips ∧
      Stats.format.RoundTrips ∧ Config.format.RoundTrips ∧ Failure.format.RoundTrips :=
  ⟨Mode.format_lawful.roundTrips, GrantId.format_lawful.roundTrips,
    State.format_lawful.roundTrips, Stats.format_lawful.roundTrips,
    Config.format_lawful.roundTrips, Failure.format_lawful.roundTrips⟩

/-- A failure with the largest grant id, whose reason has a quote, a backslash, control characters
    and characters beyond the plain ones, is found again. -/
theorem records_round_trip_failureAtBounds :
    Failure.format.Fits (.entryFailed (wordLimit - 1) .write "\"\\\n\x00\x1fé𝄞") ∧
      Failure.format.read?
          (Failure.format.write (.entryFailed (wordLimit - 1) .write "\"\\\n\x00\x1fé𝄞")) =
        some (.entryFailed (wordLimit - 1) .write "\"\\\n\x00\x1fé𝄞") := by
  have fits : Failure.format.Fits
      (.entryFailed (wordLimit - 1) .write "\"\\\n\x00\x1fé𝄞") := by
    change wordLimit - 1 < wordLimit
    decide
  exact ⟨fits, records_round_trip.2.2.2.2.2.read_write _ fits⟩

/-- Settings spelled as an array, with blanks and with nanoseconds beyond a second. -/
example :
    Config.format.read? " [\"x\", null, false, [1, 1500000000]] " =
      some ⟨"x", none, false, ⟨2, 500000000, by decide, by decide⟩⟩ := by
  decide +kernel

end FairLock
