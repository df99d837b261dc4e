import FairLock.Json.Writer
import FairLock.Proofs.Json.Spelling

/-!
# Reading back what was written

The writer puts no blanks between the parts of a value and escapes what the format asks for.  What
it writes is one of the many spellings of the value, and so the reader gives back the value that was
written, whatever the value nests and whatever characters its literals have.

## Main definitions

- `Json.Proper`: a value in whose numbers only digits stand after the point.

## Main statements

- `Json.Proper.spells`: what is written for a proper value spells it.
- `Json.Proper.read?_write`: reading the whole text of a proper value gives the value.
-/

namespace FairLock.Json

/-! ## String literals -/

theorem ofHex?_hexChar {n : Nat} (h : n < 32) :
    ofHex? ['0', '0', hexChar (n / 16), hexChar (n % 16)] = some n := by
  revert n
  decide

/-- A unit that is no surrogate spells its character. -/
theorem assemble_unit {n : Nat} (h : n < 0xd800) (pieces : List Piece) :
    assemble (.unit n :: pieces) = (assemble pieces).map (Char.ofNat n :: ·) := by
  rw [assemble.eq_def]
  simp only
  rw [if_neg (by omega), if_neg (by omega)]

/-- What an escaped character spells: the character itself, or the unit with its number. -/
theorem spells_escapeChar (c : Char) :
    ∃ piece : Piece, piece.Spells (escapeChar c) ∧
      ∀ pieces, assemble (piece :: pieces) = (assemble pieces).map (c :: ·) := by
  -- the short escapes spell their character by two letters
  have short (e c : Char) (h : shortEscape? e = some c) :
      ∃ piece : Piece, piece.Spells ['\\', e] ∧
        ∀ pieces, assemble (piece :: pieces) = (assemble pieces).map (c :: ·) :=
    ⟨.char c, .short h, fun _ => by rw [assemble]⟩
  unfold escapeChar
  split
  case h_1 => exact short '"' _ rfl
  case h_2 => exact short '\\' _ rfl
  case h_3 => exact short 'n' _ rfl
  case h_4 => exact short 't' _ rfl
  case h_5 => exact short 'r' _ rfl
  case h_6 => exact short 'b' _ rfl
  case h_7 => exact short 'f' _ rfl
  -- any other character is written as it is,
  -- unless it is a control character and goes by its number
  case h_8 quote backslash _ _ _ _ _ =>
    split
    · rename_i small
      refine ⟨.unit c.toNat, .unit (ofHex?_hexChar small), fun pieces => ?_⟩
      rw [assemble_unit (by omega), Char.ofNat_toNat]
    · rename_i large
      exact ⟨.char c, .plain large quote backslash, fun _ => by rw [assemble]⟩

/-- The text between the quotes spells the characters that were escaped. -/
theorem spells_escaped (cs : List Char) :
    ∃ pieces, SpellsPieces pieces (cs.flatMap escapeChar) ∧ assemble pieces = some cs := by
  induction cs with
  | nil => exact ⟨[], .nil, rfl⟩
  | cons c cs ih =>
    obtain ⟨pieces, later, spell⟩ := ih
    obtain ⟨piece, step, first⟩ := spells_escapeChar c
    refine ⟨piece :: pieces, .cons step later, ?_⟩
    rw [first, spell]
    rfl

/-- The text of a literal between its quotes. -/
def literalBody : Literal → List Char
  | some s => s.toList.flatMap escapeChar
  | none => ['\\', 'u', 'd', '8', '0', '0']

theorem writeLiteral_eq (l : Literal) : writeLiteral l = '"' :: (literalBody l ++ ['"']) := by
  cases l <;> rfl

/-- It spells the literal, also one that names no text. -/
theorem spells_literalBody (l : Literal) : SpellsLiteral l (literalBody l) := by
  cases l with
  | none =>
    have lone : SpellsPieces [.unit 0xd800] (['\\', 'u', 'd', '8', '0', '0'] ++ []) :=
      .cons (.unit rfl) .nil
    exact ⟨_, lone, rfl⟩
  | some s =>
    obtain ⟨pieces, spelled, spell⟩ := spells_escaped s.toList
    exact ⟨pieces, spelled, by rw [spell]; simp⟩

/-! ## Numbers -/

theorem isNumeral_digits (n : Nat) : IsNumeral (digits n) :=
  ⟨digits_ne_nil n, isDigit_of_mem_digits⟩

theorem spells_writeInt (e : Int) : SpellsExponent (some e) ('e' :: writeInt e) := by
  cases e with
  | ofNat n =>
    have spelled := SpellsExponent.unsigned (.inl rfl) (isNumeral_digits n)
    rwa [ofDigits_digits] at spelled
  | negSucc n =>
    have spelled := SpellsExponent.minus (.inl rfl) (isNumeral_digits (n + 1))
    rwa [ofDigits_digits] at spelled

/-- The point and the digits after it. -/
def writeFraction : List Char → List Char
  | [] => []
  | ds => '.' :: ds

/-- The power of ten. -/
def writeExponent : Option Int → List Char
  | none => []
  | some e => 'e' :: writeInt e

theorem writeNumber_eq (n : Number) :
    writeNumber n =
      (if n.negative then ['-'] else []) ++
        (digits n.whole ++ (writeFraction n.fraction ++ writeExponent n.exponent)) := by
  obtain ⟨negative, whole, fraction, exponent⟩ := n
  cases fraction <;> cases exponent <;> simp [writeNumber, writeFraction, writeExponent]

theorem spells_writeNumber {n : Number} (fraction : ∀ c ∈ n.fraction, c.isDigit = true) :
    SpellsNumber n (writeNumber n) := by
  obtain ⟨negative, whole, ds, exponent⟩ := n
  -- each part of a number spells itself, and is left out if there is nothing of it
  have point : SpellsFraction ds (writeFraction ds) := by
    cases ds with
    | nil => exact .none
    | cons d ds => exact .point ⟨List.cons_ne_nil d ds, fraction⟩
  have power : SpellsExponent exponent (writeExponent exponent) := by
    cases exponent with
    | none => exact .none
    | some e => exact spells_writeInt e
  have unsigned : SpellsUnsigned negative ⟨negative, ofDigits (digits whole), ds, exponent⟩
      -- the digits of a number have no leading zero, unless they are that zero
      (digits whole ++ (writeFraction ds ++ writeExponent exponent)) :=
    .mk (isNumeral_digits whole)
      (fun d more same => List.cons_ne_nil d more (digits_leading_zero same)) point power
  rw [ofDigits_digits] at unsigned
  rw [writeNumber_eq]
  cases negative with
  | true => exact .minus unsigned
  | false => exact .plain unsigned

/-! ## Values -/

/-- A value in whose numbers only digits stand after the point. -/
inductive Proper : Json → Prop where
  | null : Proper null
  | bool (b : Bool) : Proper (bool b)
  | number {n : Number} (fraction : ∀ c ∈ n.fraction, c.isDigit = true) : Proper (number n)
  | string (l : Literal) : Proper (string l)
  | array {items : List Json} (each : ∀ item ∈ items, Proper item) : Proper (array items)
  | object {members : List (Literal × Json)} (each : ∀ m ∈ members, Proper m.2) :
    Proper (object members)

/-- A written value as a part of another one, without blanks. -/
def writtenItem (j : Json) : Item := ⟨j, [], writeChars j, [], .nil, .nil⟩

/-- A written member. -/
def writtenMember (m : Literal × Json) : Member :=
  ⟨m.1, [], literalBody m.1, [], writtenItem m.2, spells_literalBody m.1, .nil, .nil⟩

theorem writeItems_eq (items : List Json) :
    writeItems items = commas ((items.map writtenItem).map Item.spelled) := by
  induction items with
  | nil =>
    rw [writeItems]
    rfl
  | cons item items ih =>
    -- written without blanks, an item is spelled by its value alone
    have one : (writtenItem item).spelled = writeChars item := List.append_nil _
    cases items with
    | nil =>
      rw [writeItems]
      exact one.symm
    | cons next items =>
      rw [writeItems, ih]
      · exact congrArg (· ++ _) one.symm
      · exact List.cons_ne_nil next items

theorem writeMembers_eq (members : List (Literal × Json)) :
    writeMembers members = commas ((members.map writtenMember).map Member.spelled) := by
  induction members with
  | nil =>
    rw [writeMembers]
    rfl
  | cons m members ih =>
    obtain ⟨name, value⟩ := m
    -- the name, the colon and the value are all there is of a member
    have one : (writtenMember (name, value)).spelled =
        writeLiteral name ++ ':' :: writeChars value := by
      simp [writtenMember, Member.spelled, writtenItem, Item.spelled, writeLiteral_eq]
    cases members with
    | nil =>
      rw [writeMembers]
      exact one.symm
    | cons next members =>
      rw [writeMembers, ih]
      · exact congrArg (· ++ _) one.symm
      · exact List.cons_ne_nil next members

/-- What is written for a proper value spells it. -/
theorem Proper.spells {j : Json} (h : Proper j) : Spells j (writeChars j) := by
  induction h with
  | null =>
    rw [writeChars]
    exact .null
  -- each value is written in the plainest of its spellings
  | bool b => cases b <;> rw [writeChars] <;> constructor
  | number fraction =>
    rw [writeChars]
    exact .number (spells_writeNumber fraction)
  | string l =>
    rw [writeChars, writeLiteral_eq]
    exact .string (spells_literalBody l)
  | @array items _ ih =>
    -- the values of the written items are the items
    have same : (items.map writtenItem).map Item.value = items := by
      simp [Function.comp_def, writtenItem]
    have spelled := Spells.of_items (items.map writtenItem) (List.forall_mem_map.2 ih)
    rw [writeChars, writeItems_eq]
    rwa [same] at spelled
  | @object members _ ih =>
    have same : (members.map writtenMember).map Member.member = members := by
      simp [Function.comp_def, writtenMember, Member.member, writtenItem]
    have spelled := Spells.of_members (members.map writtenMember) (List.forall_mem_map.2 ih)
    rw [writeChars, writeMembers_eq]
    rwa [same] at spelled

theorem Proper.spelledBy {j : Json} (h : Proper j) : SpelledBy j j.write := by
  refine ⟨[], writeChars j, [], .nil, h.spells, .nil, ?_⟩
  rw [write, String.toList_ofList, List.append_nil, List.nil_append]

/-- Reading the text of a proper value gives the value. -/
theorem Proper.read?_write {j : Json} (h : Proper j) : read? j.write = some j :=
  h.spelledBy.read?

end FairLock.Json
