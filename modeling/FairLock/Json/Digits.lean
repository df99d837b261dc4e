/-!
# Digits

Reading and writing natural numbers in base ten, and reading them in base sixteen.  Main statement:
`ofDigits_digits`, reading the digits of a number gives the number back.
-/

namespace FairLock.Json

/-- The digit for a number below ten. -/
def digitChar (n : Nat) : Char := Char.ofNat (48 + n)

/-- The number that a digit stands for. -/
def digitValue (c : Char) : Nat := c.toNat - 48

/-- The digits of a number, without leading zeros. -/
def digits (n : Nat) : List Char :=
  if n < 10 then [digitChar n] else digits (n / 10) ++ [digitChar (n % 10)]

/-- The number that a row of digits stands for. -/
def ofDigits (ds : List Char) : Nat :=
  ds.foldl (fun n d => 10 * n + digitValue d) 0

/-- The value of a digit of base sixteen. -/
def hexValue? (c : Char) : Option Nat :=
  if c.isDigit then some (digitValue c)
  else if 'a' ≤ c ∧ c ≤ 'f' then some (c.toNat - 87)
  else if 'A' ≤ c ∧ c ≤ 'F' then some (c.toNat - 55)
  else none

/-- The number that a row of digits of base sixteen stands for. -/
def ofHex? (ds : List Char) : Option Nat :=
  ds.foldlM (fun n d => (hexValue? d).map fun value => 16 * n + value) 0

theorem digitValue_digitChar {n : Nat} (h : n < 10) : digitValue (digitChar n) = n := by
  match n with
  | 0 | 1 | 2 | 3 | 4 | 5 | 6 | 7 | 8 | 9 => rfl

theorem isDigit_digitChar {n : Nat} (h : n < 10) : (digitChar n).isDigit = true := by
  match n with
  | 0 | 1 | 2 | 3 | 4 | 5 | 6 | 7 | 8 | 9 => rfl

theorem ofDigits_digits (n : Nat) : ofDigits (digits n) = n := by
  -- the recursion is on the number without its last digit
  induction n using Nat.strongRecOn with
  | ind n ih =>
    unfold digits
    split
    · simp [ofDigits, digitValue_digitChar (by assumption)]
    · rename_i h
      have hn := ih (n / 10) (by omega)
      unfold ofDigits at hn ⊢
      rw [List.foldl_append, hn]
      simp only [List.foldl_cons, List.foldl_nil,
        digitValue_digitChar (Nat.mod_lt n (by decide : 10 > 0))]
      omega

theorem isDigit_of_mem_digits {n : Nat} : ∀ c ∈ digits n, c.isDigit = true := by
  induction n using Nat.strongRecOn with
  | ind n ih =>
    unfold digits
    split
    · intro c hc
      simp only [List.mem_singleton] at hc
      subst hc
      exact isDigit_digitChar (by assumption)
    · intro c hc
      rcases List.mem_append.1 hc with h | h
      · exact ih (n / 10) (by omega) c h
      · simp only [List.mem_singleton] at h
        subst h
        exact isDigit_digitChar (Nat.mod_lt n (by decide))

theorem digits_ne_nil (n : Nat) : digits n ≠ [] := by
  unfold digits
  split <;> simp

theorem digits_eq_cons (n : Nat) : ∃ c ds, digits n = c :: ds ∧ c.isDigit = true := by
  obtain ⟨c, ds, first⟩ := List.exists_cons_of_ne_nil (digits_ne_nil n)
  exact ⟨c, ds, first, isDigit_of_mem_digits c (first ▸ List.mem_cons_self)⟩

/-- Only the number zero is written with a leading zero, and then it is the only digit. -/
theorem digits_leading_zero {n : Nat} {ds : List Char} (h : digits n = '0' :: ds) : ds = [] := by
  induction n using Nat.strongRecOn generalizing ds with
  | ind n ih =>
    unfold digits at h
    split at h
    · exact (List.cons.inj h).2.symm
    · rename_i large
      obtain ⟨d, front, first, -⟩ := digits_eq_cons (n / 10)
      rw [first, List.cons_append] at h
      obtain ⟨rfl, -⟩ := List.cons.inj h
      -- the quotient would be zero, although the number has a second digit
      have alone := ih (n / 10) (by omega) first
      have value := ofDigits_digits (n / 10)
      rw [first, alone] at value
      have : n / 10 = 0 := value.symm
      omega

end FairLock.Json
