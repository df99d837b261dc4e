import FairLock.Mode

/-!
# What is held on a lock

`State` abstracts the set of grants held on a lock to the little that admission needs: nothing, a
number of readers, or one writer.  It has no identities in it, so it is only as good as the
discipline with which grants are issued and ended; `State.holders` is the number it stands for.

## Main definitions

- `State.admits`: may a request start next to what is held?
- `State.acquired`, `State.released`: one grant more, one grant less.
-/

namespace FairLock

/-- The grants held on one lock, counted. -/
inductive State where
  /-- No grant is held. -/
  | free
  /-- Shared grants are held; on a live lock the count is at least one. -/
  | reading (count : Nat)
  /-- One exclusive grant is held. -/
  | writing
  deriving DecidableEq

namespace State

/-- A free lock admits every request, a reading lock admits readers, a writing lock nobody. -/
def admits : State → Mode → Bool
  | free, _ => true
  | reading _, .read => true
  | _, _ => false

/-- The state with one more grant of the given mode.  It is meant for a mode that the state
    admits. -/
def acquired : State → Mode → State
  | reading n, .read => reading (n + 1)
  | _, .read => reading 1
  | _, .write => writing

/-- The state after one grant of the given mode has ended.  A mode that is not held leaves the
    state as it is. -/
def released : State → Mode → State
  | reading n, .read => if n = 1 then free else reading (n - 1)
  | writing, .write => free
  | s, _ => s

/-- Is no grant held? -/
def isFree : State → Bool
  | free => true
  | _ => false

/-- The number of grants held. -/
def holders : State → Nat
  | free => 0
  | reading n => n
  | writing => 1

/-- The word for a state in messages. -/
def text : State → String
  | free => "free"
  | reading n => "reading(" ++ toString n ++ ")"
  | writing => "writing"

/-! ## What the states admit -/

@[simp] theorem isFree_iff {s : State} : s.isFree = true ↔ s = free := by
  cases s <;> simp [isFree]

@[simp] theorem isFree_eq_false_iff {s : State} : s.isFree = false ↔ s ≠ free := by
  cases s <;> simp [isFree]

@[simp] theorem admits_free (m : Mode) : free.admits m = true := rfl

@[simp] theorem admits_writing (m : Mode) : writing.admits m = false := by
  cases m <;> rfl

@[simp] theorem admits_reading (n : Nat) (m : Mode) : (reading n).admits m = m.isRead := by
  cases m <;> rfl

end State

end FairLock
