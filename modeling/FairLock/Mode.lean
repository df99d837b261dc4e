/-!
# Access modes

A request asks for shared access (`read`) or for exclusive access (`write`).  Two requests of one
lock conflict as soon as one of them is a write; readers never conflict with each other.
-/

namespace FairLock

/-- How a request wants to use the resource behind a lock. -/
inductive Mode where
  /-- Shared access, next to other readers. -/
  | read
  /-- Exclusive access, next to nobody. -/
  | write
  deriving DecidableEq

namespace Mode

/-- Shared access? -/
def isRead : Mode → Bool
  | read => true
  | write => false

/-- Exclusive access? -/
def isWrite : Mode → Bool
  | read => false
  | write => true

/-- The word for a mode in messages. -/
def text : Mode → String
  | read => "read"
  | write => "write"

/-- The capitalised name of a mode in structured displays. -/
def name : Mode → String
  | read => "Read"
  | write => "Write"

/-- Two requests conflict when at least one of them is a write. -/
def conflicts (a b : Mode) : Bool :=
  a.isWrite || b.isWrite

@[simp] theorem isRead_read : read.isRead = true := rfl
@[simp] theorem isRead_write : write.isRead = false := rfl
@[simp] theorem isWrite_read : read.isWrite = false := rfl
@[simp] theorem isWrite_write : write.isWrite = true := rfl

@[simp] theorem isRead_iff {m : Mode} : m.isRead = true ↔ m = read := by
  cases m <;> simp

@[simp] theorem isRead_eq_false_iff {m : Mode} : m.isRead = false ↔ m = write := by
  cases m <;> simp

theorem conflicts_eq_false_iff {a b : Mode} : a.conflicts b = false ↔ a = read ∧ b = read := by
  cases a <;> cases b <;> simp [conflicts]

end Mode

end FairLock
