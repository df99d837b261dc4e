import FairLock.Json.Reader
import Mathlib.Data.List.DropRight

/-!
# Spellings

One JSON value has many texts: blanks stand anywhere between its parts, a character of a literal may
be escaped in several ways, a power of ten has a small or a capital letter and an optional sign.
`Spells` is the grammar of these texts, and it knows nothing of how they are read.  The reader takes
every one of them, whatever the value nests.

What follows a value matters to the reader in one place only: a number goes on as long as it can.
`EndsNumber` is what may follow.

## Main definitions

- `Piece.Spells`, `SpellsLiteral`, `SpellsNumber`: the texts of the parts of a value.
- `Item`, `Member`: a part of an array or an object as it is spelled, with the blanks around it.
- `Spells`: the texts of a value; `SpelledBy` allows blanks around it.
- `Reads`: the reader takes the value out of the text, whatever follows.

## Main statements

- `Spells.reads`: every spelling is read.
- `SpelledBy.read?`: reading a whole text that spells a value gives the value.
-/

namespace FairLock.Json

/-! ## Blanks -/

/-- There is nothing but blanks. -/
def Blanks (s : List Char) : Prop := ∀ c ∈ s, isBlank c = true

theorem Blanks.nil : Blanks [] := by simp [Blanks]

theorem skipBlanks_cons {c : Char} (h : isBlank c = false) (s : List Char) :
    skipBlanks (c :: s) = c :: s := by
  simp [skipBlanks, h]

theorem skipBlanks_append {b : List Char} (h : Blanks b) (s : List Char) :
    skipBlanks (b ++ s) = skipBlanks s :=
  List.dropWhile_append_of_pos h

theorem skipBlanks_skipBlanks (s : List Char) : skipBlanks (skipBlanks s) = skipBlanks s :=
  List.dropWhile_idempotent isBlank s

/-- Nothing in front of a visible character is left of the blanks before it. -/
theorem skipBlanks_append_cons {b : List Char} (h : Blanks b) {c : Char} (hc : isBlank c = false)
    (s : List Char) : skipBlanks (b ++ c :: s) = c :: s := by
  rw [skipBlanks_append h, skipBlanks_cons hc]

/-- A character that ends every value before it. -/
def Closes (c : Char) : Prop := c = ',' ∨ c = ']' ∨ c = '\x7d'

theorem Closes.visible {c : Char} (h : Closes c) : isBlank c = false := by
  rcases h with rfl | rfl | rfl <;> rfl

/-- No character that a number could go on with stands at the front. -/
def EndsNumber (rest : List Char) : Prop :=
  ∀ c ∈ rest.head?, c.isDigit = false ∧ c ≠ '.' ∧ c ≠ 'e' ∧ c ≠ 'E'

theorem EndsNumber.of_blanks {b : List Char} (h : Blanks b) : EndsNumber b := by
  intro c hc
  have blank := h c (List.mem_of_mem_head? hc)
  simp only [isBlank, Bool.or_eq_true, decide_eq_true_eq] at blank
  rcases blank with ((rfl | rfl) | rfl) | rfl <;> decide

/-- Blanks end a number, and so does what closes the value. -/
theorem EndsNumber.of_closes {b : List Char} (h : Blanks b) {c : Char} (hc : Closes c)
    (s : List Char) : EndsNumber (b ++ c :: s) := by
  cases b with
  | cons d b => exact fun x hx => EndsNumber.of_blanks h x hx
  | nil =>
    intro x hx
    cases hx
    rcases hc with rfl | rfl | rfl <;> decide

/-! ## String literals -/

/-- The texts of a piece of a literal. -/
inductive Piece.Spells : Piece → List Char → Prop where
  | plain {c : Char} (large : ¬ c.toNat < 32) (quote : c ≠ '"') (backslash : c ≠ '\\') :
    Spells (.char c) [c]
  /-- An escape with one letter. -/
  | short {e c : Char} (h : shortEscape? e = some c) : Spells (.char c) ['\\', e]
  /-- An escape with four digits of base sixteen. -/
  | unit {a b c d : Char} {code : Nat} (h : ofHex? [a, b, c, d] = some code) :
    Spells (.unit code) ['\\', 'u', a, b, c, d]

/-- The texts of a row of pieces. -/
inductive SpellsPieces : List Piece → List Char → Prop where
  | nil : SpellsPieces [] []
  | cons {piece : Piece} {s : List Char} {pieces : List Piece} {more : List Char}
    (h : piece.Spells s) (later : SpellsPieces pieces more) :
    SpellsPieces (piece :: pieces) (s ++ more)

/-- The texts of a literal, without its quotes.  Units have to pair up for it to name a text. -/
def SpellsLiteral (l : Literal) (s : List Char) : Prop :=
  ∃ pieces, SpellsPieces pieces s ∧ (assemble pieces).map String.ofList = l

theorem Piece.Spells.read {piece : Piece} {s : List Char} (h : piece.Spells s)
    (rest : List Char) :
    readPieces (s ++ rest) = (readPieces rest).map fun p => (piece :: p.1, p.2) := by
  cases h with
  -- a plain character ends neither the text nor begins an escape
  | @plain c large quote backslash =>
    rw [List.singleton_append, readPieces, if_neg (not_or.2 ⟨large, backslash⟩)]
    · cases readPieces rest <;> rfl
    · exact quote
    all_goals
      intros
      contradiction
  | @short e c h =>
    -- the letter of a short escape is not the one that announces a number
    have other : e ≠ 'u' := by
      rintro rfl
      cases h
    change readPieces ('\\' :: e :: rest) = _
    rw [readPieces, h]
    · cases readPieces rest <;> rfl
    · intro _ _ _ _ _ same
      exact absurd same other
  | @unit a b c d code h =>
    change readPieces ('\\' :: 'u' :: a :: b :: c :: d :: rest) = _
    rw [readPieces, h]
    cases readPieces rest <;> rfl

theorem SpellsPieces.read {pieces : List Piece} {s : List Char} (h : SpellsPieces pieces s)
    (rest : List Char) : readPieces (s ++ '"' :: rest) = some (pieces, rest) := by
  induction h with
  | nil => rw [List.nil_append, readPieces]
  | cons h _ ih =>
    rw [List.append_assoc, h.read, ih]
    rfl

theorem SpellsLiteral.read {l : Literal} {s : List Char} (h : SpellsLiteral l s)
    (rest : List Char) : readLiteral (s ++ '"' :: rest) = some (l, rest) := by
  obtain ⟨pieces, spelled, rfl⟩ := h
  rw [readLiteral, spelled.read]
  rfl

/-! ## Numbers -/

/-- One or more digits. -/
structure IsNumeral (ds : List Char) : Prop where
  nonempty : ds ≠ []
  digits : ∀ c ∈ ds, c.isDigit = true

theorem IsNumeral.head {ds : List Char} (h : IsNumeral ds) :
    ∃ d more, ds = d :: more ∧ d.isDigit = true := by
  obtain ⟨d, more, rfl⟩ := List.exists_cons_of_ne_nil h.nonempty
  exact ⟨d, more, rfl, h.digits d List.mem_cons_self⟩

/-- The texts of the digits after the point. -/
inductive SpellsFraction : List Char → List Char → Prop where
  | none : SpellsFraction [] []
  | point {ds : List Char} (h : IsNumeral ds) : SpellsFraction ds ('.' :: ds)

/-- The texts of a power of ten. -/
inductive SpellsExponent : Option Int → List Char → Prop where
  | none : SpellsExponent none []
  | unsigned {e : Char} (he : e = 'e' ∨ e = 'E') {ds : List Char} (h : IsNumeral ds) :
    SpellsExponent (some (ofDigits ds)) (e :: ds)
  | plus {e : Char} (he : e = 'e' ∨ e = 'E') {ds : List Char} (h : IsNumeral ds) :
    SpellsExponent (some (ofDigits ds)) (e :: '+' :: ds)
  | minus {e : Char} (he : e = 'e' ∨ e = 'E') {ds : List Char} (h : IsNumeral ds) :
    SpellsExponent (some (-(ofDigits ds : Int))) (e :: '-' :: ds)

/-- The texts of a number without its sign. -/
inductive SpellsUnsigned (negative : Bool) : Number → List Char → Prop where
  /-- No zero may lead other digits before the point. -/
  | mk {ds fraction point power : List Char} {exponent : Option Int} (whole : IsNumeral ds)
    (noZero : ∀ d more, ds ≠ '0' :: d :: more) (hpoint : SpellsFraction fraction point)
    (hpower : SpellsExponent exponent power) :
    SpellsUnsigned negative ⟨negative, ofDigits ds, fraction, exponent⟩ (ds ++ (point ++ power))

/-- The texts of a number. -/
inductive SpellsNumber : Number → List Char → Prop where
  | minus {n : Number} {s : List Char} (h : SpellsUnsigned true n s) : SpellsNumber n ('-' :: s)
  | plain {n : Number} {s : List Char} (h : SpellsUnsigned false n s) : SpellsNumber n s

theorem IsNumeral.read {ds : List Char} (h : IsNumeral ds) {rest : List Char}
    (stop : ∀ c ∈ rest.head?, c.isDigit = false) : readDigits (ds ++ rest) = some (ds, rest) := by
  have after : rest.takeWhile Char.isDigit = [] ∧ rest.dropWhile Char.isDigit = rest := by
    cases rest with
    | nil => exact ⟨rfl, rfl⟩
    | cons c rest => simp [stop c (by simp)]
  unfold readDigits
  rw [List.takeWhile_append_of_pos h.digits, List.dropWhile_append_of_pos h.digits, after.1,
    after.2, List.append_nil]
  obtain ⟨d, more, rfl, -⟩ := h.head
  rfl

theorem IsNumeral.readWhole {ds : List Char} (h : IsNumeral ds)
    (noZero : ∀ d more, ds ≠ '0' :: d :: more) {rest : List Char}
    (stop : ∀ c ∈ rest.head?, c.isDigit = false) :
    readWhole (ds ++ rest) = some (ofDigits ds, rest) := by
  unfold Json.readWhole
  rw [h.read stop]
  simp only [Option.bind_eq_bind, Option.bind_some]
  rfl

theorem SpellsFraction.read {ds point : List Char} (h : SpellsFraction ds point)
    {rest : List Char} (stop : ∀ c ∈ rest.head?, c.isDigit = false ∧ c ≠ '.') :
    readFraction (point ++ rest) = some (ds, rest) := by
  cases h with
  | point h => exact h.read fun c hc => (stop c hc).1
  | none =>
    rw [List.nil_append]
    unfold readFraction
    split
    · exact absurd rfl (stop _ (by simp)).2
    · rfl

/-- After the point comes no digit before the first one. -/
theorem SpellsFraction.head {ds point : List Char} (h : SpellsFraction ds point)
    {rest : List Char} (stop : ∀ c ∈ rest.head?, c.isDigit = false ∧ c ≠ '.') :
    ∀ c ∈ (point ++ rest).head?, c.isDigit = false := by
  cases h with
  | point h =>
    intro c hc
    cases hc
    decide
  | none => exact fun c hc => (stop c hc).1

/-- Digits without a sign are read as a power of ten. -/
theorem IsNumeral.readPower {ds : List Char} (h : IsNumeral ds) {rest : List Char}
    (stop : ∀ c ∈ rest.head?, c.isDigit = false) :
    readPower (ds ++ rest) = some ((ofDigits ds : Int), rest) := by
  have read := h.read stop
  obtain ⟨d, more, rfl, isDigit⟩ := h.head
  rw [List.cons_append] at read ⊢
  -- a digit is no sign
  rw [Json.readPower, read]
  · rfl
  all_goals
    intro _ same
    obtain ⟨rfl, -⟩ := List.cons.inj same
    cases isDigit

theorem readExponent_letter {e : Char} (he : e = 'e' ∨ e = 'E') (s : List Char) :
    readExponent (e :: s) = (readPower s).map fun p => (some p.1, p.2) := by
  rcases he with rfl | rfl <;> rfl

theorem SpellsExponent.read {exponent : Option Int} {power : List Char}
    (h : SpellsExponent exponent power) {rest : List Char} (stop : EndsNumber rest) :
    readExponent (power ++ rest) = some (exponent, rest) := by
  -- what ends a number is no digit, so the reading of digits stops there
  have digit : ∀ c ∈ rest.head?, c.isDigit = false := fun c hc => (stop c hc).1
  cases h with
  | none =>
    rw [List.nil_append]
    unfold readExponent
    -- without an exponent the next character would have to be its letter, which ends no number
    split
    · exact absurd rfl (stop _ (by simp)).2.2.1
    · exact absurd rfl (stop _ (by simp)).2.2.2
    · rfl
  | unsigned he h =>
    rw [List.cons_append, readExponent_letter he, h.readPower digit]
    rfl
  | plus he h =>
    rw [List.cons_append, List.cons_append, readExponent_letter he, readPower, h.read digit]
    rfl
  | minus he h =>
    rw [List.cons_append, List.cons_append, readExponent_letter he, readPower, h.read digit]
    rfl

/-- Neither a digit nor a point stands in front of what follows the point. -/
theorem SpellsExponent.head {exponent : Option Int} {power : List Char}
    (h : SpellsExponent exponent power) {rest : List Char} (stop : EndsNumber rest) :
    ∀ c ∈ (power ++ rest).head?, c.isDigit = false ∧ c ≠ '.' := by
  -- an exponent begins with its letter, which is neither
  have letter : ∀ {e : Char} {s : List Char}, e = 'e' ∨ e = 'E' →
      ∀ c ∈ (e :: s).head?, c.isDigit = false ∧ c ≠ '.' := by
    intro e s he c hc
    cases hc
    rcases he with rfl | rfl <;> decide
  cases h with
  | none => exact fun c hc => ⟨(stop c hc).1, (stop c hc).2.1⟩
  | unsigned he h => exact letter he
  | plus he h => exact letter he
  | minus he h => exact letter he

theorem SpellsUnsigned.read {negative : Bool} {n : Number} {s : List Char}
    (h : SpellsUnsigned negative n s) {rest : List Char} (stop : EndsNumber rest) :
    readUnsigned negative (s ++ rest) = some (n, rest) := by
  obtain ⟨whole, noZero, hpoint, hpower⟩ := h
  have after := hpower.head stop
  rw [List.append_assoc, List.append_assoc, readUnsigned,
    whole.readWhole noZero (hpoint.head after)]
  simp only [Option.bind_eq_bind, Option.bind_some, hpoint.read after, hpower.read stop]
  rfl

theorem SpellsUnsigned.head {negative : Bool} {n : Number} {s : List Char}
    (h : SpellsUnsigned negative n s) : ∃ d more, s = d :: more ∧ d.isDigit = true := by
  obtain ⟨whole, -, -, -⟩ := h
  obtain ⟨d, more, rfl, isDigit⟩ := whole.head
  exact ⟨d, _, rfl, isDigit⟩

/-- A number begins with a sign or a digit. -/
theorem SpellsNumber.head {n : Number} {s : List Char} (h : SpellsNumber n s) :
    ∃ c more, s = c :: more ∧ (c = '-' ∨ c.isDigit = true) := by
  cases h with
  | minus h => exact ⟨_, _, rfl, .inl rfl⟩
  | plain h =>
    obtain ⟨d, more, rfl, isDigit⟩ := h.head
    exact ⟨d, more, rfl, .inr isDigit⟩

/-- A number is read if it ends where its text does. -/
theorem SpellsNumber.read {n : Number} {s : List Char} (h : SpellsNumber n s) {rest : List Char}
    (stop : EndsNumber rest) : readNumber (s ++ rest) = some (n, rest) := by
  cases h with
  | minus h => exact h.read stop
  | plain h =>
    have read := h.read stop
    obtain ⟨d, more, rfl, isDigit⟩ := h.head
    rw [List.cons_append] at read ⊢
    -- a digit is no sign
    rw [readNumber]
    · exact read
    · intro _ same
      obtain ⟨rfl, -⟩ := List.cons.inj same
      cases isDigit

/-! ## Values -/

/-- A value inside an array or an object, as it is spelled. -/
structure Item where
  value : Json
  before : List Char
  text : List Char
  after : List Char
  blanks : Blanks before ∧ Blanks after

namespace Item

/-- The text of an item. -/
def spelled (i : Item) : List Char := i.before ++ (i.text ++ i.after)

end Item

/-- A member of an object as it is spelled. -/
structure Member where
  name : Literal
  before : List Char
  text : List Char
  between : List Char
  item : Item
  named : SpellsLiteral name text
  blanks : Blanks before ∧ Blanks between

namespace Member

/-- The text of a member. -/
def spelled (m : Member) : List Char :=
  m.before ++ '"' :: (m.text ++ '"' :: (m.between ++ ':' :: m.item.spelled))

/-- The member without its spelling. -/
def member (m : Member) : Literal × Json := (m.name, m.item.value)

end Member

/-- Texts with commas between them. -/
def commas : List (List Char) → List Char
  | [] => []
  | [s] => s
  | s :: more => s ++ ',' :: commas more

/-- The texts of a value. -/
inductive Spells : Json → List Char → Prop where
  | null : Spells .null ['n', 'u', 'l', 'l']
  | true : Spells (.bool true) ['t', 'r', 'u', 'e']
  | false : Spells (.bool false) ['f', 'a', 'l', 's', 'e']
  | number {n : Number} {s : List Char} (h : SpellsNumber n s) : Spells (.number n) s
  | string {l : Literal} {s : List Char} (h : SpellsLiteral l s) :
    Spells (.string l) ('"' :: (s ++ ['"']))
  | noItems {b : List Char} (h : Blanks b) : Spells (.array []) ('[' :: (b ++ [']']))
  | array {items : List Item} (nonempty : items ≠ [])
    (each : ∀ i ∈ items, Spells i.value i.text) :
    Spells (.array (items.map Item.value)) ('[' :: (commas (items.map Item.spelled) ++ [']']))
  | noMembers {b : List Char} (h : Blanks b) : Spells (.object []) ('\x7b' :: (b ++ ['\x7d']))
  | object {members : List Member} (nonempty : members ≠ [])
    (each : ∀ m ∈ members, Spells m.item.value m.item.text) :
    Spells (.object (members.map Member.member))
      ('\x7b' :: (commas (members.map Member.spelled) ++ ['\x7d']))

/-- A row of spelled items between brackets, empty or not, spells an array. -/
theorem Spells.of_items (items : List Item) (each : ∀ i ∈ items, Spells i.value i.text) :
    Spells (.array (items.map Item.value))
      ('[' :: (commas (items.map Item.spelled) ++ [']'])) := by
  cases items with
  | nil => exact .noItems .nil
  | cons i items => exact .array (List.cons_ne_nil i items) each

/-- A row of spelled members between braces spells an object. -/
theorem Spells.of_members (members : List Member)
    (each : ∀ m ∈ members, Spells m.item.value m.item.text) :
    Spells (.object (members.map Member.member))
      ('\x7b' :: (commas (members.map Member.spelled) ++ ['\x7d'])) := by
  cases members with
  | nil => exact .noMembers .nil
  | cons m members => exact .object (List.cons_ne_nil m members) each

/-- The value is what the whole text spells, blanks around it aside. -/
def SpelledBy (j : Json) (text : String) : Prop :=
  ∃ before s after, Blanks before ∧ Spells j s ∧ Blanks after ∧
    text.toList = before ++ (s ++ after)

/-! ### Reading values -/

/-- The reader takes the value out of the text and leaves what follows.  It needs two calls for a
    character at most. -/
def Reads (j : Json) (s : List Char) : Prop :=
  ∀ fuel rest, 2 * s.length ≤ fuel → EndsNumber rest → readValue fuel (s ++ rest) = some (j, rest)

/-- A text that is not empty leaves fuel for a first call. -/
theorem Reads.of_succ {j : Json} {s : List Char} (nonempty : s ≠ [])
    (h : ∀ fuel rest, 2 * s.length ≤ fuel + 1 → EndsNumber rest →
      readValue (fuel + 1) (s ++ rest) = some (j, rest)) : Reads j s := by
  intro fuel rest enough stop
  have positive := List.length_pos_iff.2 nonempty
  obtain ⟨fuel, rfl⟩ : ∃ k, fuel = k + 1 := ⟨fuel - 1, by omega⟩
  exact h fuel rest enough stop

/-- A character with which the text of a value can begin. -/
def Begins (c : Char) : Prop := isBlank c = false ∧ c ≠ ']'

theorem begins_of_isDigit {c : Char} (h : c.isDigit = true) : Begins c := by
  refine ⟨?_, ?_⟩
  · unfold isBlank
    refine Bool.eq_false_iff.2 fun blank => ?_
    simp only [Bool.or_eq_true, decide_eq_true_eq] at blank
    rcases blank with ((rfl | rfl) | rfl) | rfl <;> cases h
  · rintro rfl
    cases h

/-- The text of a value is not empty, and tells at once that a value begins. -/
theorem Spells.head {j : Json} {s : List Char} (h : Spells j s) :
    ∃ c more, s = c :: more ∧ Begins c := by
  cases h with
  | number h =>
    obtain ⟨c, more, rfl, rfl | isDigit⟩ := h.head
    · exact ⟨_, _, rfl, by decide, by decide⟩
    · exact ⟨_, _, rfl, begins_of_isDigit isDigit⟩
  | _ => exact ⟨_, _, rfl, by decide, by decide⟩

/-- Blanks before a value are nothing to the reader. -/
theorem readValue_skipBlanks (fuel : Nat) (s : List Char) :
    readValue fuel (skipBlanks s) = readValue fuel s := by
  cases fuel with
  | zero => rfl
  | succ fuel => rw [readValue, readValue, skipBlanks_skipBlanks]

theorem readItems_skipBlanks (fuel : Nat) (s : List Char) :
    readItems fuel (skipBlanks s) = readItems fuel s := by
  cases fuel with
  | zero => rfl
  | succ fuel => rw [readItems, readItems, readValue_skipBlanks]

theorem readMembers_skipBlanks (fuel : Nat) (s : List Char) :
    readMembers fuel (skipBlanks s) = readMembers fuel s := by
  cases fuel with
  | zero => rfl
  | succ fuel => rw [readMembers, readMembers, skipBlanks_skipBlanks]

theorem readValue_quote (fuel : Nat) (s : List Char) :
    readValue (fuel + 1) ('"' :: s) = (readLiteral s).map fun p => (.string p.1, p.2) := by
  rw [readValue, skipBlanks_cons rfl]
  rfl

/-- A bracket opens an array, empty or not. -/
theorem readValue_bracket (fuel : Nat) (s : List Char) :
    (∀ rest, skipBlanks s = ']' :: rest →
        readValue (fuel + 1) ('[' :: s) = some (.array [], rest)) ∧
      ((∀ rest, skipBlanks s ≠ ']' :: rest) →
        readValue (fuel + 1) ('[' :: s) =
          (readItems fuel s).map fun p => (.array p.1, p.2)) := by
  -- the bracket alone closes the array, and anything else is its first item
  constructor
  · intro rest h
    rw [readValue, skipBlanks_cons rfl]
    simp only [h]
  · intro h
    rw [readValue, skipBlanks_cons rfl, ← readItems_skipBlanks]
    simp only

/-- A brace opens an object, empty or not. -/
theorem readValue_brace (fuel : Nat) (s : List Char) :
    (∀ rest, skipBlanks s = '}' :: rest →
        readValue (fuel + 1) ('{' :: s) = some (.object [], rest)) ∧
      ((∀ rest, skipBlanks s ≠ '}' :: rest) →
        readValue (fuel + 1) ('{' :: s) =
          (readMembers fuel s).map fun p => (.object p.1, p.2)) := by
  -- the same with braces and members
  constructor
  · intro rest h
    rw [readValue, skipBlanks_cons rfl]
    simp only [h]
  · intro h
    rw [readValue, skipBlanks_cons rfl, ← readMembers_skipBlanks]
    simp only

/-- A sign or a digit takes up a number. -/
theorem readValue_sign (fuel : Nat) {c : Char} (h : c = '-' ∨ c.isDigit = true) (s : List Char) :
    readValue (fuel + 1) (c :: s) = (readNumber (c :: s)).map fun p => (.number p.1, p.2) := by
  -- neither a sign nor a digit is passed over as a blank
  have visible : isBlank c = false := by
    rcases h with rfl | isDigit
    · decide
    · exact (begins_of_isDigit isDigit).1
  rw [readValue, skipBlanks_cons visible]
  split
  case h_7 => rfl
  -- the other characters that begin a value are neither a sign nor a digit
  all_goals
    rename_i same
    obtain ⟨rfl, -⟩ := List.cons.inj same
    exact absurd h (by decide)

/-- An item is read up to what closes it, and so are the blanks around it. -/
theorem Item.read {i : Item} (h : Reads i.value i.text) (fuel : Nat)
    (enough : 2 * i.spelled.length ≤ fuel) {c : Char} (hc : Closes c) (rest : List Char) :
    ∃ after, readValue fuel (i.spelled ++ c :: rest) = some (i.value, after) ∧
      skipBlanks after = c :: rest := by
  refine ⟨i.after ++ c :: rest, ?_, skipBlanks_append_cons i.blanks.2 hc.visible rest⟩
  rw [Item.spelled, List.length_append, List.length_append] at enough
  have read := h fuel _ (by omega) (EndsNumber.of_closes i.blanks.2 hc rest)
  rw [Item.spelled, List.append_assoc, List.append_assoc, ← readValue_skipBlanks,
    skipBlanks_append i.blanks.1, readValue_skipBlanks]
  exact read

theorem commas_cons_cons (s t : List Char) (more : List (List Char)) :
    commas (s :: t :: more) = s ++ ',' :: commas (t :: more) := rfl

/-- One or more items are read, up to the bracket that closes the array. -/
theorem readItems_commas {items : List Item} (nonempty : items ≠ [])
    (each : ∀ i ∈ items, Reads i.value i.text) (fuel : Nat) (rest : List Char)
    (enough : 2 * (commas (items.map Item.spelled)).length < fuel) :
    readItems fuel (commas (items.map Item.spelled) ++ ']' :: rest) =
      some (items.map Item.value, rest) := by
  induction items generalizing fuel with
  | nil => exact absurd rfl nonempty
  | cons i items ih =>
    -- the fuel is more than the length, so there is some
    obtain ⟨fuel, rfl⟩ : ∃ k, fuel = k + 1 := ⟨fuel - 1, by omega⟩
    have first := each i List.mem_cons_self
    cases items with
    | nil =>
      simp only [List.map_cons, List.map_nil, commas] at enough ⊢
      obtain ⟨after, read, skip⟩ := i.read first fuel (by omega) (.inr (.inl rfl)) rest
      rw [readItems, read]
      simp only [Option.bind_eq_bind, Option.bind_some, skip]
      rfl
    -- a comma follows: one item less, and shorter by more than what one step burns
    | cons next items =>
      simp only [List.map_cons, commas_cons_cons, List.length_append, List.length_cons] at enough
      have later := ih (List.cons_ne_nil next items)
        (fun x hx => each x (List.mem_cons_of_mem i hx)) fuel
        (by simp only [List.map_cons]; omega)
      simp only [List.map_cons, commas_cons_cons] at later ⊢
      obtain ⟨after, read, skip⟩ := i.read first fuel (by omega) (.inl rfl)
        (commas (next.spelled :: items.map Item.spelled) ++ ']' :: rest)
      rw [List.append_assoc, List.cons_append, readItems, read]
      simp only [Option.bind_eq_bind, Option.bind_some, skip, later]
      rfl

/-- The quote before its name is the first that is visible of a member. -/
theorem Member.skipBlanks_spelled (m : Member) (s : List Char) :
    skipBlanks (m.spelled ++ s) =
      '"' :: (m.text ++ '"' :: (m.between ++ ':' :: (m.item.spelled ++ s))) := by
  simp only [Member.spelled, List.append_assoc, List.cons_append]
  exact skipBlanks_append_cons m.blanks.1 rfl _

/-- The last member is read, up to the brace that closes the object. -/
theorem Member.read_last {m : Member} (h : Reads m.item.value m.item.text) {fuel : Nat}
    (enough : 2 * m.item.spelled.length ≤ fuel) (rest : List Char) :
    readMembers (fuel + 1) (m.spelled ++ '\x7d' :: rest) = some ([m.member], rest) := by
  obtain ⟨after, read, skip⟩ := m.item.read h fuel enough (.inr (.inr rfl)) rest
  rw [readMembers, m.skipBlanks_spelled]
  simp only [m.named.read, Option.bind_eq_bind, Option.bind_some]
  rw [skipBlanks_append_cons m.blanks.2 rfl]
  simp only [read, Option.bind_some, skip]
  rfl

/-- A member is read before others that follow it. -/
theorem Member.read_more {m : Member} (h : Reads m.item.value m.item.text) {fuel : Nat}
    (enough : 2 * m.item.spelled.length ≤ fuel) {others rest : List Char}
    {members : List (Literal × Json)} (later : readMembers fuel others = some (members, rest)) :
    readMembers (fuel + 1) (m.spelled ++ ',' :: others) = some (m.member :: members, rest) := by
  obtain ⟨after, read, skip⟩ := m.item.read h fuel enough (.inl rfl) others
  rw [readMembers, m.skipBlanks_spelled]
  simp only [m.named.read, Option.bind_eq_bind, Option.bind_some]
  rw [skipBlanks_append_cons m.blanks.2 rfl]
  simp only [read, Option.bind_some, skip, later]
  rfl

theorem Member.length_item_le (m : Member) : m.item.spelled.length ≤ m.spelled.length := by
  simp only [Member.spelled, List.length_append, List.length_cons]
  omega

/-- One or more members are read, up to the brace that closes the object. -/
theorem readMembers_commas {members : List Member} (nonempty : members ≠ [])
    (each : ∀ m ∈ members, Reads m.item.value m.item.text) (fuel : Nat) (rest : List Char)
    (enough : 2 * (commas (members.map Member.spelled)).length < fuel) :
    readMembers fuel (commas (members.map Member.spelled) ++ '\x7d' :: rest) =
      some (members.map Member.member, rest) := by
  induction members generalizing fuel with
  | nil => exact absurd rfl nonempty
  | cons m members ih =>
    obtain ⟨fuel, rfl⟩ : ∃ k, fuel = k + 1 := ⟨fuel - 1, by omega⟩
    have first := each m List.mem_cons_self
    -- the item of a member is shorter than the member, so the fuel is enough for it
    have inside := m.length_item_le
    cases members with
    | nil =>
      simp only [List.map_cons, List.map_nil, commas] at enough ⊢
      exact Member.read_last first (by omega) rest
    | cons next members =>
      simp only [List.map_cons, commas_cons_cons, List.length_append, List.length_cons] at enough
      have later := ih (List.cons_ne_nil next members)
        (fun x hx => each x (List.mem_cons_of_mem m hx)) fuel
        (by simp only [List.map_cons]; omega)
      simp only [List.map_cons, commas_cons_cons] at later ⊢
      rw [List.append_assoc, List.cons_append]
      exact Member.read_more first (by omega) later

/-- A row with commas begins with its first text. -/
theorem exists_commas_append (s : List Char) (more : List (List Char)) (rest : List Char) :
    ∃ tail, commas (s :: more) ++ rest = s ++ tail := by
  cases more with
  | nil => exact ⟨rest, rfl⟩
  | cons t more => exact ⟨_, by rw [commas_cons_cons, List.append_assoc]⟩

/-- An item does not begin with a bracket that closes an array, -/
theorem skipBlanks_items {i : Item} (h : Spells i.value i.text) (items : List Item)
    (rest closed : List Char) :
    skipBlanks (commas ((i :: items).map Item.spelled) ++ rest) ≠ ']' :: closed := by
  obtain ⟨c, more, text, begins⟩ := h.head
  obtain ⟨tail, row⟩ := exists_commas_append i.spelled (items.map Item.spelled) rest
  rw [List.map_cons, row, Item.spelled, text, List.append_assoc, List.append_assoc,
    List.cons_append, skipBlanks_append_cons i.blanks.1 begins.1]
  exact fun same => begins.2 (List.cons.inj same).1

/-- nor a member with a brace. -/
theorem skipBlanks_members (m : Member) (members : List Member) (rest closed : List Char) :
    skipBlanks (commas ((m :: members).map Member.spelled) ++ rest) ≠ '\x7d' :: closed := by
  obtain ⟨tail, row⟩ := exists_commas_append m.spelled (members.map Member.spelled) rest
  rw [List.map_cons, row, m.skipBlanks_spelled]
  exact fun same => absurd (List.cons.inj same).1 (by decide)

/-- Every spelling is read, whatever follows it. -/
theorem Spells.reads {j : Json} {s : List Char} (h : Spells j s) : Reads j s := by
  -- on the way in which the value is spelled; the first character tells which reading it takes
  induction h with
  | null | true | false =>
    refine .of_succ (List.cons_ne_nil _ _) fun fuel rest _ _ => ?_
    rw [readValue, List.cons_append, skipBlanks_cons rfl]
    rfl
  | number h =>
    obtain ⟨c, more, rfl, sign⟩ := h.head
    refine .of_succ (List.cons_ne_nil _ _) fun fuel rest _ stop => ?_
    have read := h.read stop
    rw [List.cons_append] at read ⊢
    rw [readValue_sign fuel sign, read]
    rfl
  | string h =>
    refine .of_succ (List.cons_ne_nil _ _) fun fuel rest _ _ => ?_
    rw [List.cons_append, List.append_assoc, readValue_quote, List.singleton_append, h.read]
    rfl
  | noItems h =>
    refine .of_succ (List.cons_ne_nil _ _) fun fuel rest _ _ => ?_
    rw [List.cons_append, List.append_assoc]
    exact (readValue_bracket fuel _).1 rest (skipBlanks_append_cons h rfl rest)
  | @array items nonempty each ih =>
    refine .of_succ (List.cons_ne_nil _ _) fun fuel rest enough _ => ?_
    simp only [List.length_append, List.length_cons] at enough
    have read := readItems_commas nonempty ih fuel rest (by omega)
    -- the first item is no closing bracket, so the array is not empty
    obtain ⟨i, more, rfl⟩ := List.exists_cons_of_ne_nil nonempty
    rw [List.cons_append, List.append_assoc, List.singleton_append,
      (readValue_bracket fuel _).2 (skipBlanks_items (each i List.mem_cons_self) more _), read]
    rfl
  | noMembers h =>
    refine .of_succ (List.cons_ne_nil _ _) fun fuel rest _ _ => ?_
    rw [List.cons_append, List.append_assoc]
    exact (readValue_brace fuel _).1 rest (skipBlanks_append_cons h rfl rest)
  | @object members nonempty each ih =>
    refine .of_succ (List.cons_ne_nil _ _) fun fuel rest enough _ => ?_
    simp only [List.length_append, List.length_cons] at enough
    have read := readMembers_commas nonempty ih fuel rest (by omega)
    -- nor is the first member a closing brace
    obtain ⟨m, more, rfl⟩ := List.exists_cons_of_ne_nil nonempty
    rw [List.cons_append, List.append_assoc, List.singleton_append,
      (readValue_brace fuel _).2 (skipBlanks_members m more _), read]
    rfl

/-- Reading a text that spells a value gives the value. -/
theorem SpelledBy.read? {j : Json} {text : String} (h : SpelledBy j text) :
    Json.read? text = some j := by
  obtain ⟨before, s, after, hbefore, spells, hafter, same⟩ := h
  have enough : 2 * s.length ≤ 2 * (before ++ (s ++ after)).length + 2 := by
    simp only [List.length_append]
    omega
  -- after the value there are only blanks, which are passed over
  have nothing : skipBlanks after = [] := List.dropWhile_eq_nil_iff.2 hafter
  rw [Json.read?, readChars?, same, ← readValue_skipBlanks, skipBlanks_append hbefore,
    readValue_skipBlanks, spells.reads _ after enough (.of_blanks hafter)]
  simp only [Option.bind_eq_bind, Option.bind_some, nothing]
  rfl

end FairLock.Json
