import FairLock.Proofs.RoundTrip

/-!
# Partial settings

Settings are given as an object with any of the four fields, in any order and among members that are
no settings.  What is missing has its default, so the result is the default with one change for each
field that is there.  A field that is there twice or has a value of the wrong kind spoils the whole.

A reader collects the four places first and fills them one by one; here the members are gone through
from the left, each changing the settings at hand.  Both come to the same because no setting is
changed twice.

## Main definitions

- `Duration.Form`: the forms of a span of time.
- `Config.Sets`: a name and a value that change one setting.
- `Config.Row`: the members of an object whose settings are all sound, and what they change.

## Main statements

- `Config.ofJson?_object_iff`: an object stands for settings if its members are such a row.
- `partial_settings`: the same for texts, also for arrays, spans of time and what is refused.
-/

namespace FairLock

/-! ## Spans of time -/

namespace Duration

/-- The forms of a span of so many seconds and nanoseconds. -/
inductive Form (secs nanos : Nat) : Json → Prop where
  | secsFirst :
    Form secs nanos (Json.record [("secs", Json.ofNat secs), ("nanos", Json.ofNat nanos)])
  | nanosFirst :
    Form secs nanos (Json.record [("nanos", Json.ofNat nanos), ("secs", Json.ofNat secs)])
  | array : Form secs nanos (.array [Json.ofNat secs, Json.ofNat nanos])

/-- A form is the form of one span only. -/
theorem Form.unique {secs nanos secs' nanos' : Nat} {j : Json} (h : Form secs nanos j)
    (h' : Form secs' nanos' j) : secs = secs' ∧ nanos = nanos' := by
  generalize same : j = j' at h'
  cases h <;> cases h' <;> simp_all [Json.record, Json.ofNat, Number.ofNat]

/-- Parts make a span exactly if the span is as long as they are together. -/
theorem ofParts?_eq_some_iff {secs nanos : Nat} {d : Duration} :
    ofParts? secs nanos = some d ↔ d.totalNanos = secs * nanosPerSecond + nanos := by
  refine ⟨totalNanos_ofParts?, fun same => ?_⟩
  -- the parts of a span are below a second and a whole number of seconds, so they are determined
  obtain ⟨s, n, hs, hn⟩ := d
  have hsecs : secs + nanos / nanosPerSecond = s := by
    simp only [totalNanos, nanosPerSecond] at same hn ⊢
    omega
  have hnanos : nanos % nanosPerSecond = n := by
    simp only [totalNanos, nanosPerSecond] at same hn ⊢
    omega
  subst hsecs hnanos
  exact dif_pos hs

end Duration

namespace Json

theorem natural?_eq_some_iff {n : Number} {k : Nat} : n.natural? = some k ↔ n = Number.ofNat k := by
  obtain ⟨negative, whole, fraction, exponent⟩ := n
  simp only [Number.natural?, Number.ofNat, Number.mk.injEq]
  -- a natural number is one without a sign, a fraction or an exponent
  constructor
  · intro h
    split at h
    · rename_i plain
      cases h
      exact ⟨plain.1, rfl, plain.2.1, plain.2.2⟩
    · cases h
  · rintro ⟨rfl, rfl, rfl, rfl⟩
    rfl

/-- A natural number is read if it is written as one and small enough. -/
theorem naturalBelow?_eq_some_iff {limit n : Nat} {j : Json} :
    j.naturalBelow? limit = some n ↔ j = ofNat n ∧ n < limit := by
  constructor
  · intro h
    cases j with
    | number number =>
      obtain ⟨hnatural, hn⟩ := Option.filter_eq_some_iff.1 h
      exact ⟨congrArg Json.number (natural?_eq_some_iff.1 hnatural), by simpa using hn⟩
    | _ => cases h
  · rintro ⟨rfl, hn⟩
    exact naturalBelow?_ofNat hn

theorem text?_eq_some_iff {j : Json} {s : String} : j.text? = some s ↔ j = ofText s := by
  cases j <;> simp [text?, ofText]

theorem flag?_eq_some_iff {j : Json} {b : Bool} : j.flag? = some b ↔ j = bool b := by
  cases j <;> simp [flag?]

theorem optionalWord?_eq_some_iff {j : Json} {limit : Option Nat} :
    j.optional? word? = some limit ↔
      j = null ∧ limit = none ∨ ∃ n, j = ofNat n ∧ n < wordLimit ∧ limit = some n := by
  -- where a value may be missing, nothing but null stands for that
  have other (h : j ≠ null) : j.optional? word? = j.word?.map some := by
    cases j with
    | null => exact absurd rfl h
    | _ => rfl
  by_cases h : j = null
  · subst h
    simp [optional?, ofNat, eq_comm]
  · rw [other h, Option.map_eq_some_iff]
    simp only [word?, naturalBelow?_eq_some_iff, h, false_and, false_or, and_assoc,
      eq_comm (a := some _)]

end Json

namespace Duration

theorem ofPartsJson?_eq_some_iff {secs nanos : Json} {d : Duration} :
    ofPartsJson? secs nanos = some d ↔ ∃ s n, secs = Json.ofNat s ∧ nanos = Json.ofNat n ∧
      n < nanosLimit ∧ d.totalNanos = s * nanosPerSecond + n := by
  constructor
  · intro h
    -- read one after the other, both parts are numbers within their bounds
    obtain ⟨s, hs, later⟩ := Option.bind_eq_some_iff.1 h
    obtain ⟨n, hn, made⟩ := Option.bind_eq_some_iff.1 later
    obtain ⟨same, -⟩ := Json.naturalBelow?_eq_some_iff.1 hs
    obtain ⟨same', small⟩ := Json.naturalBelow?_eq_some_iff.1 hn
    exact ⟨s, n, same, same', small, ofParts?_eq_some_iff.1 made⟩
  · rintro ⟨s, n, rfl, rfl, small, same⟩
    have parts := ofParts?_eq_some_iff.2 same
    -- if the sum of the parts is in range, so is the first of them
    have carried : s + n / nanosPerSecond < wordLimit :=
      ofParts?_isSome_iff.1 (Option.isSome_of_mem parts)
    have fits : s < wordLimit := Nat.lt_of_le_of_lt (Nat.le_add_right _ _) carried
    simp [ofPartsJson?, Json.word?_ofNat fits, Json.naturalBelow?_ofNat small, parts]

/-- A span is read off its forms, and it is as long as its parts together. -/
theorem ofJson?_eq_some_iff {j : Json} {d : Duration} :
    ofJson? j = some d ↔ ∃ secs nanos, Form secs nanos j ∧ nanos < nanosLimit ∧
      d.totalNanos = secs * nanosPerSecond + nanos := by
  constructor
  · intro h
    unfold ofJson? at h
    -- the three forms, in the order in which the reader tries them
    split at h
    · obtain ⟨s, n, rfl, rfl, rest⟩ := ofPartsJson?_eq_some_iff.1 h
      exact ⟨s, n, .array, rest⟩
    · obtain ⟨s, n, rfl, rfl, rest⟩ := ofPartsJson?_eq_some_iff.1 h
      exact ⟨s, n, .secsFirst, rest⟩
    · obtain ⟨s, n, rfl, rfl, rest⟩ := ofPartsJson?_eq_some_iff.1 h
      exact ⟨s, n, .nanosFirst, rest⟩
    · cases h
  · rintro ⟨s, n, form, rest⟩
    -- whichever form it is, the same two parts are read off it
    have parts := ofPartsJson?_eq_some_iff.2 ⟨s, n, rfl, rfl, rest⟩
    cases form <;> exact parts

/-- Every form stands for the span of its parts. -/
theorem Form.ofJson?_eq {secs nanos : Nat} {j : Json} (form : Form secs nanos j)
    (small : nanos < nanosLimit) : ofJson? j = ofParts? secs nanos := by
  refine Option.ext fun d => ?_
  rw [ofJson?_eq_some_iff, ofParts?_eq_some_iff]
  constructor
  · rintro ⟨_, _, same, -, length⟩
    obtain ⟨rfl, rfl⟩ := form.unique same
    exact length
  · exact fun length => ⟨secs, nanos, form, small, length⟩

end Duration

/-! ## Fields of an object -/

namespace Json

/-- No member has the name. -/
def Absent (name : String) (members : List (Literal × Json)) : Prop :=
  ∀ m ∈ members, m.1 ≠ some name

/-- What the members of an object say about one field. -/
def fieldIn? {β : Type} (default : β) (read : Json → Option β) (name : String)
    (members : List (Literal × Json)) : Option β :=
  (slot? members name).bind (fieldOr? default read)

theorem valuesOf_eq_nil_iff {name : String} {members : List (Literal × Json)} :
    valuesOf name members = [] ↔ Absent name members := by
  simp [valuesOf, Absent]

theorem valuesOf_insert_self (name : String) (value : Json) (before after : List (Literal × Json)) :
    valuesOf name (before ++ (some name, value) :: after) =
      valuesOf name before ++ value :: valuesOf name after := by
  simp [valuesOf]

theorem valuesOf_insert_of_ne {name : String} {m : Literal × Json} (other : m.1 ≠ some name)
    (before after : List (Literal × Json)) :
    valuesOf name (before ++ m :: after) = valuesOf name (before ++ after) := by
  simp [valuesOf, other]

theorem slot?_of_absent {name : String} {members : List (Literal × Json)}
    (absent : Absent name members) : slot? members name = some none := by
  rw [slot?, valuesOf_eq_nil_iff.2 absent]

theorem slot?_insert_self {name : String} {value : Json} {before after : List (Literal × Json)}
    (absent : Absent name (before ++ after)) :
    slot? (before ++ (some name, value) :: after) name = some (some value) := by
  obtain ⟨first, last⟩ := List.forall_mem_append.1 absent
  rw [slot?, valuesOf_insert_self, valuesOf_eq_nil_iff.2 first, valuesOf_eq_nil_iff.2 last]
  rfl

section Fields

variable {β : Type} {default b : β} {read : Json → Option β} {name : String} {value : Json}
  {members : List (Literal × Json)}

/-- A field that is missing has its default. -/
theorem fieldIn?_of_absent (absent : Absent name members) :
    fieldIn? default read name members = some default := by
  rw [fieldIn?, slot?_of_absent absent]
  rfl

/-- A member with another name is passed over. -/
theorem fieldIn?_insert_of_ne {m : Literal × Json} (other : m.1 ≠ some name)
    (before after : List (Literal × Json)) :
    fieldIn? default read name (before ++ m :: after) =
      fieldIn? default read name (before ++ after) := by
  simp only [fieldIn?, slot?, valuesOf_insert_of_ne other]

theorem fieldIn?_cons_of_ne {m : Literal × Json} (other : m.1 ≠ some name) :
    fieldIn? default read name (m :: members) = fieldIn? default read name members :=
  fieldIn?_insert_of_ne other [] members

/-- A field that is there is read from there, and it has to be there once. -/
theorem fieldIn?_insert_self_eq_some_iff (before after : List (Literal × Json)) :
    fieldIn? default read name (before ++ (some name, value) :: after) = some b ↔
      Absent name (before ++ after) ∧ read value = some b := by
  have absent : Absent name (before ++ after) ↔
      valuesOf name before = [] ∧ valuesOf name after = [] := by
    rw [Absent, List.forall_mem_append, valuesOf_eq_nil_iff, valuesOf_eq_nil_iff]
    rfl
  rw [absent, fieldIn?, slot?, valuesOf_insert_self]
  cases valuesOf name before with
  | nil => cases valuesOf name after <;> simp [fieldOr?]
  | cons v vs => cases vs <;> simp

theorem fieldIn?_cons_self_eq_some_iff :
    fieldIn? default read name ((some name, value) :: members) = some b ↔
      Absent name members ∧ read value = some b :=
  fieldIn?_insert_self_eq_some_iff [] members

/-- A field may as well be passed over once it is taken for the default. -/
theorem fieldIn?_cons_taken (absent : Absent name members) (taken : read value = some b) :
    fieldIn? default read name ((some name, value) :: members) =
      fieldIn? b read name members := by
  rw [fieldIn?_of_absent absent]
  exact fieldIn?_cons_self_eq_some_iff.2 ⟨absent, taken⟩

end Fields

end Json

/-! ## Settings one by one -/

namespace Config

/-- The settings are what the members of an object say, with the fields of `c` for those that are
    missing. -/
@[mk_iff] structure Fills (c : Config) (members : List (Literal × Json)) (r : Config) : Prop where
  name : Json.fieldIn? c.name Json.text? "name" members = some r.name
  maxPending :
    Json.fieldIn? c.maxPending (Json.optional? Json.word?) "max_pending" members = some r.maxPending
  logFailures : Json.fieldIn? c.logFailures Json.flag? "log_failures" members = some r.logFailures
  slowHold : Json.fieldIn? c.slowHold Duration.ofJson? "slow_hold" members = some r.slowHold

theorem ofSlots?_eq_some_iff {name maxPending logFailures slowHold : Option Json} {r : Config} :
    ofSlots? [name, maxPending, logFailures, slowHold] = some r ↔
      Json.fieldOr? ({} : Config).name Json.text? name = some r.name ∧
        Json.fieldOr? ({} : Config).maxPending (Json.optional? Json.word?) maxPending =
          some r.maxPending ∧
        Json.fieldOr? ({} : Config).logFailures Json.flag? logFailures = some r.logFailures ∧
        Json.fieldOr? ({} : Config).slowHold Duration.ofJson? slowHold = some r.slowHold := by
  constructor
  -- the four fields are read one after the other, and all of them have to succeed
  · intro h
    obtain ⟨_, hname, h⟩ := Option.bind_eq_some_iff.1 h
    obtain ⟨_, hmaxPending, h⟩ := Option.bind_eq_some_iff.1 h
    obtain ⟨_, hlogFailures, h⟩ := Option.bind_eq_some_iff.1 h
    obtain ⟨_, hslowHold, h⟩ := Option.bind_eq_some_iff.1 h
    cases h
    exact ⟨hname, hmaxPending, hlogFailures, hslowHold⟩
  · rintro ⟨hname, hmaxPending, hlogFailures, hslowHold⟩
    simp [ofSlots?, hname, hmaxPending, hlogFailures, hslowHold]

/-- An object stands for settings if all its names are texts and the members fill the defaults. -/
theorem ofJson?_object_iff_fills {members : List (Literal × Json)} {r : Config} :
    ofJson? (.object members) = some r ↔
      (∀ m ∈ members, m.1.isSome = true) ∧ Fills {} members r := by
  rw [ofJson?, Json.slots?, Json.memberSlots?, ← List.all_eq_true, fills_iff]
  split
  · rename_i named
    simp only [named, true_and, fieldNames, List.mapM_cons, List.mapM_nil, Json.fieldIn?]
    -- a repeated field has no place, and then both sides fail
    cases Json.slot? members "name" with
    | none => simp
    | some name =>
      cases Json.slot? members "max_pending" with
      | none => simp
      | some maxPending =>
        cases Json.slot? members "log_failures" with
        | none => simp
        | some logFailures =>
          cases Json.slot? members "slow_hold" with
          | none => simp
          | some slowHold =>
            simpa using ofSlots?_eq_some_iff
  · rename_i unnamed
    simp [unnamed]

/-- A member that changes one setting: its name, its value and the change. -/
inductive Sets : String → Json → Change → Prop where
  | name (name : String) : Sets "name" (Json.ofText name) (.withName name)
  /-- Null leaves the number of requests open. -/
  | unbounded : Sets "max_pending" .null (.withMaxPending none)
  | bounded {limit : Nat} (small : limit < wordLimit) :
    Sets "max_pending" (Json.ofNat limit) (.withMaxPending (some limit))
  | logFailures (on : Bool) : Sets "log_failures" (.bool on) (.withLogFailures on)
  /-- The span is as long as its parts together. -/
  | slowHold {secs nanos : Nat} {j : Json} {slow : Duration} (form : Duration.Form secs nanos j)
    (small : nanos < Duration.nanosLimit)
    (same : slow.totalNanos = secs * nanosPerSecond + nanos) :
    Sets "slow_hold" j (.withSlowHold slow)

variable {c r : Config} {name : String} {value : Json} {change : Change}
  {members : List (Literal × Json)}

/-- The change may be made before the other members are looked at. -/
theorem Sets.fills_cons_iff (h : Sets name value change) (once : Json.Absent name members) :
    Fills c ((some name, value) :: members) r ↔ Fills (c.apply change) members r := by
  -- one field takes the value for its default, the other three pass the member over
  cases h with
  | name s =>
    have taken := Json.text?_ofText s
    simp [fills_iff, Json.fieldIn?_cons_taken once taken, Json.fieldIn?_cons_of_ne, apply]
  | unbounded =>
    have taken : Json.optional? Json.word? .null = some none := rfl
    simp [fills_iff, Json.fieldIn?_cons_taken once taken, Json.fieldIn?_cons_of_ne, apply]
  | bounded small =>
    have taken := Json.optionalWord?_eq_some_iff.2 (.inr ⟨_, rfl, small, rfl⟩)
    simp [fills_iff, Json.fieldIn?_cons_taken once taken, Json.fieldIn?_cons_of_ne, apply]
  | logFailures on =>
    have taken : Json.flag? (.bool on) = some on := rfl
    simp [fills_iff, Json.fieldIn?_cons_taken once taken, Json.fieldIn?_cons_of_ne, apply]
  | slowHold form small same =>
    have taken := Duration.ofJson?_eq_some_iff.2 ⟨_, _, form, small, same⟩
    simp [fills_iff, Json.fieldIn?_cons_taken once taken, Json.fieldIn?_cons_of_ne, apply]

theorem fills_cons_iff_of_unknown (unknown : name ∉ fieldNames) :
    Fills c ((some name, value) :: members) r ↔ Fills c members r := by
  have ne {known : String} (h : known ∈ fieldNames) : some name ≠ some known := by
    rintro ⟨⟩
    exact unknown h
  rw [fills_iff, fills_iff, Json.fieldIn?_cons_of_ne (ne (by decide)),
    Json.fieldIn?_cons_of_ne (ne (by decide)), Json.fieldIn?_cons_of_ne (ne (by decide)),
    Json.fieldIn?_cons_of_ne (ne (by decide))]

/-- A member with the name of a setting is the only one, and it changes the setting. -/
theorem Fills.exists_sets (h : Fills c ((some name, value) :: members) r)
    (known : name ∈ fieldNames) :
    Json.Absent name members ∧ ∃ change, Sets name value change := by
  simp only [fieldNames, List.mem_cons, List.not_mem_nil, or_false] at known
  rcases known with rfl | rfl | rfl | rfl
  -- the reader of each setting takes its own kind of value
  · obtain ⟨once, taken⟩ := Json.fieldIn?_cons_self_eq_some_iff.1 h.name
    obtain rfl := Json.text?_eq_some_iff.1 taken
    exact ⟨once, _, .name _⟩
  · obtain ⟨once, taken⟩ := Json.fieldIn?_cons_self_eq_some_iff.1 h.maxPending
    rcases Json.optionalWord?_eq_some_iff.1 taken with ⟨rfl, -⟩ | ⟨limit, rfl, small, -⟩
    · exact ⟨once, _, .unbounded⟩
    · exact ⟨once, _, .bounded small⟩
  · obtain ⟨once, taken⟩ := Json.fieldIn?_cons_self_eq_some_iff.1 h.logFailures
    obtain rfl := Json.flag?_eq_some_iff.1 taken
    exact ⟨once, _, .logFailures _⟩
  · obtain ⟨once, taken⟩ := Json.fieldIn?_cons_self_eq_some_iff.1 h.slowHold
    obtain ⟨secs, nanos, form, small, same⟩ := Duration.ofJson?_eq_some_iff.1 taken
    exact ⟨once, _, .slowHold form small same⟩

/-- The members of an object with sound settings, each there once at most, and what they change. -/
inductive Row : List (Literal × Json) → List Change → Prop where
  | nil : Row [] []
  | setting {name : String} {value : Json} {change : Change} {members : List (Literal × Json)}
    {changes : List Change} (sets : Sets name value change) (once : Json.Absent name members)
    (later : Row members changes) : Row ((some name, value) :: members) (change :: changes)
  /-- A member that is no setting may have any value and any number of namesakes. -/
  | other {name : String} {value : Json} {members : List (Literal × Json)} {changes : List Change}
    (unknown : name ∉ fieldNames) (later : Row members changes) :
    Row ((some name, value) :: members) changes

theorem Row.named {changes : List Change} (h : Row members changes) :
    ∀ m ∈ members, m.1.isSome = true := by
  induction h with
  | nil => exact fun m hm => absurd hm List.not_mem_nil
  | setting _ _ _ ih => exact List.forall_mem_cons.2 ⟨rfl, ih⟩
  | other _ _ ih => exact List.forall_mem_cons.2 ⟨rfl, ih⟩

/-- The members fill the settings with all the changes made. -/
theorem Row.fills {changes : List Change} (h : Row members changes) (c : Config) :
    Fills c members (changes.foldl apply c) := by
  induction h generalizing c with
  | nil =>
    have absent {name : String} : Json.Absent name [] := fun _ hm => absurd hm List.not_mem_nil
    exact ⟨Json.fieldIn?_of_absent absent, Json.fieldIn?_of_absent absent,
      Json.fieldIn?_of_absent absent, Json.fieldIn?_of_absent absent⟩
  | setting sets once _ ih => exact (sets.fills_cons_iff once).2 (ih _)
  | other unknown _ ih => exact (fills_cons_iff_of_unknown unknown).2 (ih c)

/-- Members that fill the settings are a row of settings and others. -/
theorem Fills.exists_row (h : Fills c members r) (named : ∀ m ∈ members, m.1.isSome = true) :
    ∃ changes, Row members changes := by
  -- member by member: a setting is changed once, and any other member is passed over
  induction members generalizing c with
  | nil => exact ⟨[], .nil⟩
  | cons m members ih =>
    obtain ⟨literal, value⟩ := m
    obtain ⟨first, rest⟩ := List.forall_mem_cons.1 named
    obtain ⟨name, rfl⟩ := Option.isSome_iff_exists.1 first
    by_cases known : name ∈ fieldNames
    · obtain ⟨once, change, sets⟩ := h.exists_sets known
      obtain ⟨changes, row⟩ := ih ((sets.fills_cons_iff once).1 h) rest
      exact ⟨change :: changes, .setting sets once row⟩
    · obtain ⟨changes, row⟩ := ih ((fills_cons_iff_of_unknown known).1 h) rest
      exact ⟨changes, .other known row⟩

theorem Fills.unique {r' : Config} (h : Fills c members r) (h' : Fills c members r') : r = r' := by
  obtain ⟨name, maxPending, logFailures, slowHold⟩ := r
  cases Option.some.inj (h.name.symm.trans h'.name)
  cases Option.some.inj (h.maxPending.symm.trans h'.maxPending)
  cases Option.some.inj (h.logFailures.symm.trans h'.logFailures)
  cases Option.some.inj (h.slowHold.symm.trans h'.slowHold)
  rfl

/-- An object stands for settings exactly if its members are such a row; then they are the default
    ones with all the changes made. -/
theorem ofJson?_object_iff :
    ofJson? (.object members) = some r ↔
      ∃ changes, Row members changes ∧ r = changes.foldl apply {} := by
  rw [ofJson?_object_iff_fills]
  constructor
  · rintro ⟨named, fills⟩
    obtain ⟨changes, row⟩ := fills.exists_row named
    exact ⟨changes, row, fills.unique (row.fills {})⟩
  · rintro ⟨changes, row, rfl⟩
    exact ⟨row.named, row.fills {}⟩

/-- A setting is there once at most. -/
theorem Row.count_le {changes : List Change} (h : Row members changes) (known : name ∈ fieldNames) :
    (members.map Prod.fst).count (some name) ≤ 1 := by
  induction h with
  | nil => exact Nat.zero_le 1
  | @setting other _ _ members _ _ once _ ih =>
    rw [List.map_cons, List.count_cons]
    by_cases same : other = name
    · subst same
      -- the member that sets it is the only one of that name
      have absent : (members.map Prod.fst).count (some other) = 0 :=
        List.count_eq_zero.2 fun mem => by
          obtain ⟨m, hm, hname⟩ := List.mem_map.1 mem
          exact once m hm hname
      simp [absent]
    · simpa [same] using ih
  | @other other _ _ _ unknown _ ih =>
    -- a member that is no setting has another name
    have ne : other ≠ name := fun same => unknown (same ▸ known)
    simpa [List.count_cons, ne] using ih

/-- A setting that is there is changed by its value. -/
theorem Row.exists_sets {changes : List Change} (h : Row members changes)
    (known : name ∈ fieldNames) (mem : (some name, value) ∈ members) :
    ∃ change, Sets name value change := by
  induction h with
  | nil => cases mem
  -- the member itself, or one behind it
  | setting sets _ _ ih =>
    rcases List.mem_cons.1 mem with same | mem
    · cases same
      exact ⟨_, sets⟩
    · exact ih mem
  | other unknown _ ih =>
    rcases List.mem_cons.1 mem with same | mem
    · cases same
      exact absurd known unknown
    · exact ih mem

/-- A span of time joins the other settings wherever it stands. -/
theorem Fills.insert_slowHold {before after : List (Literal × Json)} {j : Json} {slow : Duration}
    (h : Fills c (before ++ after) r) (absent : Json.Absent "slow_hold" (before ++ after))
    (taken : Duration.ofJson? j = some slow) :
    Fills c (before ++ (some "slow_hold", j) :: after) (r.apply (.withSlowHold slow)) where
  name := (Json.fieldIn?_insert_of_ne (by simp) before after).trans h.name
  maxPending := (Json.fieldIn?_insert_of_ne (by simp) before after).trans h.maxPending
  logFailures := (Json.fieldIn?_insert_of_ne (by simp) before after).trans h.logFailures
  slowHold := (Json.fieldIn?_insert_self_eq_some_iff before after).2 ⟨absent, taken⟩

/-- Settings with a span of time stand or fall with the span. -/
theorem Row.ofJson?_insert_slowHold {before after : List (Literal × Json)} {changes : List Change}
    (h : Row (before ++ after) changes) (absent : Json.Absent "slow_hold" (before ++ after))
    (j : Json) :
    ofJson? (.object (before ++ (some "slow_hold", j) :: after)) =
      (Duration.ofJson? j).map fun slow => (changes.foldl apply {}).apply (.withSlowHold slow) := by
  refine Option.ext fun r => ?_
  -- with the span in its place the rest fills the settings as before
  have filled {slow : Duration} (taken : Duration.ofJson? j = some slow) :=
    (h.fills {}).insert_slowHold absent taken
  rw [ofJson?_object_iff_fills, Option.map_eq_some_iff]
  constructor
  -- read as a whole, the span has been read too
  · rintro ⟨-, fills⟩
    have taken := ((Json.fieldIn?_insert_self_eq_some_iff before after).1 fills.slowHold).2
    exact ⟨_, taken, (filled taken).unique fills⟩
  -- the span read, the rest was a row already
  · rintro ⟨slow, taken, rfl⟩
    obtain ⟨first, last⟩ := List.forall_mem_append.1 h.named
    exact ⟨List.forall_mem_append.2 ⟨first, List.forall_mem_cons.2 ⟨rfl, last⟩⟩, filled taken⟩

end Config

/-! ## Arrays -/

namespace Json

/-- Each value is found under its name, and the places of the names beyond them are empty. -/
theorem mapM_slot?_zip {names : List String} (distinct : names.Nodup) (values : List Json)
    (short : values.length ≤ names.length) (before : List (Literal × Json))
    (apart : ∀ name ∈ names, Absent name before) :
    names.mapM (slot? (before ++ (names.zip values).map fun m => (some m.1, m.2))) =
      some (values.map some ++ List.replicate (names.length - values.length) none) := by
  -- what has been gone through is kept in `before`: the other names do not look there
  induction names generalizing before values with
  | nil =>
    obtain rfl := List.length_eq_zero_iff.1 (Nat.le_zero.1 short)
    rfl
  | cons name names ih =>
    obtain ⟨fresh, distinct⟩ := List.nodup_cons.1 distinct
    obtain ⟨first, apart⟩ := List.forall_mem_cons.1 apart
    cases values with
    | nil =>
      have later := ih distinct [] (Nat.zero_le _) before apart
      simp only [List.zip_nil_right, List.map_nil, List.append_nil, List.nil_append,
        List.length_nil, Nat.sub_zero] at later ⊢
      rw [List.mapM_cons, slot?_of_absent first, later]
      rfl
    | cons value values =>
      have absent : Absent name (before ++ (names.zip values).map fun m => (some m.1, m.2)) := by
        refine List.forall_mem_append.2 ⟨first, fun m hm same => ?_⟩
        obtain ⟨member, mem, rfl⟩ := List.mem_map.1 hm
        exact fresh (Option.some.inj same ▸ (List.of_mem_zip mem).1)
      have apart : ∀ n ∈ names, Absent n (before ++ [(some name, value)]) := by
        refine fun n hn => List.forall_mem_append.2 ⟨apart n hn, List.forall_mem_singleton.2 ?_⟩
        rintro ⟨⟩
        exact fresh hn
      have later := ih distinct values (Nat.le_of_succ_le_succ short) _ apart
      rw [List.append_assoc, List.singleton_append] at later
      rw [List.mapM_cons, List.zip_cons_cons, List.map_cons, slot?_insert_self absent, later]
      simp

/-- Leading fields go to the same places under their names as they do in an array. -/
theorem slots?_record_zip {names : List String} (distinct : names.Nodup) {values : List Json}
    (short : values.length ≤ names.length) :
    (record (names.zip values)).slots? names = (array values).slots? names := by
  have named : ((names.zip values).map fun m => ((some m.1 : Literal), m.2)).all
      (fun m => m.1.isSome) = true := by simp
  rw [record, slots?, memberSlots?, if_pos named, slots?, if_pos short]
  exact mapM_slot?_zip distinct values short [] fun _ _ _ hm => absurd hm List.not_mem_nil

end Json

/-! ## Texts -/

namespace Config

/-- What becomes of a text that gives some of the settings only. -/
structure ReadsPartly : Prop where
  /-- The settings that an object gives, in any order and among other members, replace their
      defaults, and nothing else is replaced. -/
  given : ∀ {members changes text}, Row members changes → Json.SpelledBy (.object members) text →
    format.read? text = some (changes.foldl apply {})
  /-- An array of leading settings is read as the object that gives them by their names. -/
  leading : ∀ {values text text'}, values.length ≤ fieldNames.length →
    Json.SpelledBy (.array values) text →
    Json.SpelledBy (Json.record (fieldNames.zip values)) text' →
    format.read? text = format.read? text'
  /-- Among sound settings, a span of time with nanoseconds in the range of the format is accepted
      in each of its forms exactly if its seconds and the full seconds among its nanoseconds fit a
      record counter together. -/
  span : ∀ {before after changes secs nanos j text}, Row (before ++ after) changes →
    Json.Absent "slow_hold" (before ++ after) →
    Duration.Form secs nanos j → nanos < Duration.nanosLimit →
    Json.SpelledBy (.object (before ++ (some "slow_hold", j) :: after)) text →
    ((format.read? text).isSome = true ↔ secs + nanos / nanosPerSecond < wordLimit)
  /-- A span of time that was accepted keeps its length, and its nanoseconds are below a second. -/
  length : ∀ {before after changes secs nanos j text c}, Row (before ++ after) changes →
    Json.Absent "slow_hold" (before ++ after) →
    Duration.Form secs nanos j →
    Json.SpelledBy (.object (before ++ (some "slow_hold", j) :: after)) text →
    format.read? text = some c →
    c = { changes.foldl apply {} with slowHold := c.slowHold } ∧
      c.slowHold.totalNanos = secs * nanosPerSecond + nanos ∧ c.slowHold.nanos < nanosPerSecond
  /-- A setting that is given twice spoils the whole. -/
  repeated : ∀ {members name text}, name ∈ fieldNames →
    1 < (members.map Prod.fst).count (some name) → Json.SpelledBy (.object members) text →
    format.read? text = none
  /-- So does a setting with a value that is none for it. -/
  unsound : ∀ {members name value text}, name ∈ fieldNames → (some name, value) ∈ members →
    (∀ change, ¬ Sets name value change) → Json.SpelledBy (.object members) text →
    format.read? text = none

theorem read?_of_spelledBy {j : Json} {text : String} (h : Json.SpelledBy j text) :
    format.read? text = ofJson? j := by
  rw [Format.read?, h.read?]
  rfl

end Config

/-- Settings may be given in part: those that are there replace their defaults, and one that is
    there twice or has no sound value spoils the whole. -/
theorem partial_settings : Config.ReadsPartly where
  given row spelled := by
    -- what is spelled is read as one value, so the rest is about values
    rw [Config.read?_of_spelledBy spelled]
    exact Config.ofJson?_object_iff.2 ⟨_, row, rfl⟩
  leading short array record := by
    rw [Config.read?_of_spelledBy array, Config.read?_of_spelledBy record, Config.ofJson?,
      Config.ofJson?, Json.slots?_record_zip (by decide) short]
  span row absent form small spelled := by
    rw [Config.read?_of_spelledBy spelled, row.ofJson?_insert_slowHold absent, Option.isSome_map,
      form.ofJson?_eq small, Duration.ofParts?_isSome_iff]
  length row absent form spelled read := by
    rw [Config.read?_of_spelledBy spelled, row.ofJson?_insert_slowHold absent] at read
    obtain ⟨slow, taken, rfl⟩ := Option.map_eq_some_iff.1 read
    -- the length is that of the parts of the one form that the value has
    obtain ⟨_, _, same, -, length⟩ := Duration.ofJson?_eq_some_iff.1 taken
    obtain ⟨rfl, rfl⟩ := form.unique same
    exact ⟨rfl, length, slow.nanos_lt⟩
  repeated known twice spelled := by
    rw [Config.read?_of_spelledBy spelled, Option.eq_none_iff_forall_ne_some]
    intro c read
    -- settings that were read come of a row, in which each of them is there once
    obtain ⟨_, row, -⟩ := Config.ofJson?_object_iff.1 read
    exact absurd (row.count_le known) (Nat.not_le.2 twice)
  unsound known mem unsound spelled := by
    rw [Config.read?_of_spelledBy spelled, Option.eq_none_iff_forall_ne_some]
    intro c read
    obtain ⟨_, row, -⟩ := Config.ofJson?_object_iff.1 read
    -- in a row the value would have changed the setting, so it would be sound
    obtain ⟨change, sets⟩ := row.exists_sets known mem
    exact unsound change sets

/-- A name and a span of time, with an unknown member between them and nanoseconds to carry; and a
    name that is given twice. -/
theorem partial_settings_nameAndSpan :
    Config.format.read?
        "\x7b\"slow_hold\":[2,1500000000],\"x\":[null],\"name\":\"index\"\x7d" =
      some { name := "index", slowHold := ⟨3, 500000000, by decide, by decide⟩ } ∧
    Config.format.read? "\x7b\"name\":\"a\",\"x\":[null],\"name\":\"b\"\x7d" = none := by
  have array {items : List Json} (each : ∀ j ∈ items, j.Proper) : (Json.array items).Proper :=
    .array each
  constructor
  · have row : Config.Row [(some "slow_hold", .array [Json.ofNat 2, Json.ofNat 1500000000]),
        (some "x", .array [.null]), (some "name", Json.ofText "index")]
        -- the unknown member is passed over, and the span carries its nanoseconds
        [.withSlowHold ⟨3, 500000000, by decide, by decide⟩, .withName "index"] :=
      .setting (.slowHold .array (by decide) rfl) (by simp [Json.Absent])
        (.other (by decide) (.setting (.name "index") (by simp [Json.Absent]) .nil))
    have proper : (Json.record [("slow_hold", .array [Json.ofNat 2, Json.ofNat 1500000000]),
        ("x", .array [.null]), ("name", Json.ofText "index")]).Proper :=
      Json.Proper.record (by simp [Json.Proper.ofText, Json.Proper.ofNat, Json.Proper.null, array])
    have written : (Json.record [("slow_hold", .array [Json.ofNat 2, Json.ofNat 1500000000]),
        ("x", .array [.null]), ("name", Json.ofText "index")]).write =
        "\x7b\"slow_hold\":[2,1500000000],\"x\":[null],\"name\":\"index\"\x7d" := by
      -- the text is computed from the value, since reading is known only for what was written
      decide +kernel
    exact partial_settings.given row (written ▸ proper.spelledBy)
  · have known : "name" ∈ Config.fieldNames := by decide
    have proper : (Json.record [("name", Json.ofText "a"), ("x", .array [.null]),
        ("name", Json.ofText "b")]).Proper :=
      Json.Proper.record (by simp [Json.Proper.ofText, Json.Proper.null, array])
    have written : (Json.record [("name", Json.ofText "a"), ("x", .array [.null]),
        ("name", Json.ofText "b")]).write =
        "\x7b\"name\":\"a\",\"x\":[null],\"name\":\"b\"\x7d" := by
      decide +kernel
    exact partial_settings.repeated known (by decide) (written ▸ proper.spelledBy)

end FairLock
