/-!
# Named tables

A table keeps values under names, in increasing order of the names.  Putting a value under a name
displaces the value that was there.
-/

namespace FairLock

universe u

variable {β : Type u}

/-- Values by name, in increasing order of the names. -/
abbrev Table (β : Type u) := List (String × β)

namespace Table

/-- The value under a name. -/
def get? (t : Table β) (name : String) : Option β := t.lookup name

/-- The table with a value put under a name. -/
def put (t : Table β) (name : String) (value : β) : Table β :=
  match t with
  | [] => [(name, value)]
  | (n, v) :: rest =>
    if n = name then (name, value) :: rest
    else if name < n then (name, value) :: (n, v) :: rest
    else (n, v) :: put rest name value

/-- The table without a name. -/
def remove (t : Table β) (name : String) : Table β :=
  t.filter fun entry => entry.1 ≠ name

/-- The names, in increasing order. -/
def names (t : Table β) : List String := t.map (·.1)

@[simp] theorem get?_nil (name : String) : get? ([] : Table β) name = none := rfl

theorem get?_cons (n name : String) (v : β) (t : Table β) :
    get? ((n, v) :: t : Table β) name = if name = n then some v else get? t name := by
  unfold get?
  rw [List.lookup_cons]
  by_cases h : name = n
  · simp [h]
  · rw [beq_eq_false_iff_ne.2 h, if_neg h]

theorem get?_put_self (t : Table β) (name : String) (value : β) :
    (t.put name value).get? name = some value := by
  induction t with
  | nil => simp [put, get?_cons]
  | cons entry rest ih =>
    obtain ⟨n, v⟩ := entry
    -- the value goes in front, replaces the entry of its name, or goes further down
    unfold put
    split
    · simp [get?_cons]
    · split
      · simp [get?_cons]
      · rename_i h _
        rw [get?_cons, if_neg (fun e => h e.symm)]
        exact ih

theorem get?_put_of_ne {t : Table β} {name other : String} {value : β} (h : other ≠ name) :
    (t.put name value).get? other = t.get? other := by
  induction t with
  | nil => simp [put, get?_cons, h]
  | cons entry rest ih =>
    obtain ⟨n, v⟩ := entry
    -- the new entry goes in front, in the place of one with its name, or further behind
    unfold put
    split
    · rename_i hn
      subst hn
      simp [get?_cons, h]
    · split
      · simp [get?_cons, h]
      · simp only [get?_cons, ih]

end Table

end FairLock
