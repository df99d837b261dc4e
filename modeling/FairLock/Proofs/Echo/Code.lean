import FairLock.Machine.World
import Mathlib.Data.Nat.Count

/-!
# Operations of two sides

A run is shared by two sides.  Each has locks of its own and its own names for futures, kept
capabilities, counters and procedures, and its operations touch nothing else.  Operations of the
inner side may stand in lists of the outer one, where they are run inside of what the outer side
does.  Alone, each side performs its own operations: those of the inner side are stripped off the
lists of the outer one, and handles are numbered without the clones of the other side.

## Main definitions

- `Side`, `Sides`: who the sides are and what belongs to them.
- `Sides.number`: the number of a handle in the run of a side alone.
- `Action.Echoes`, `Body.Echoes`, `Strips`: an operation of a side, and the same one alone.
- `Reply.alone`, `Control.alone`: what is answered in the run of a side alone.
-/

namespace FairLock

/-- The two sides of a run. -/
inductive Side where
  /-- What it does may have operations of the other side inside. -/
  | outer
  /-- Its operations are performed at top level, or inside of what the other side does. -/
  | inner
  deriving DecidableEq

/-- The other one of the two sides. -/
def Side.other : Side → Side
  | outer => inner
  | inner => outer

@[simp] theorem Side.other_other (x : Side) : x.other.other = x := by
  cases x <;> rfl

theorem Side.other_ne (x : Side) : x.other ≠ x := by
  cases x <;> exact fun h => by cases h

/-- What belongs to one side is not what belongs to the other one. -/
theorem Side.apart {α : Type} {x : Side} {side : α → Side} {a b : α} (ha : side a = x)
    (hb : side b = x.other) : b ≠ a := by
  rintro rfl
  exact x.other_ne (hb.symm.trans ha)

/-- What the actions of a list may mean besides what has a name of its own. -/
structure Reach where
  /-- The capability of the entry point that performs them. -/
  own : Bool
  /-- Its tag, as the name under which it keeps that capability by default. -/
  tag : Bool

/-- At top level there is neither. -/
abbrev Reach.top : Reach := ⟨false, false⟩

/-- What is meant by the one list may be meant by the other one. -/
structure Reach.Le (r r' : Reach) : Prop where
  own : r.own = true → r'.own = true
  tag : r.tag = true → r'.tag = true

/-- What belongs to which side. -/
structure Sides where
  lock : LockId → Side
  /-- How many handles there are from the start, in every run. -/
  shared : Nat
  handle : Nat → Side
  /-- Names of futures and of kept capabilities. -/
  name : String → Side
  counter : String → Side
  procedure : String → Side
  /-- What a procedure may mean. -/
  reach : String → Reach
  /-- Which operations in the lists of the outer side are the inner one's. -/
  block : Action → Prop

namespace Sides

variable (s : Sides) (x : Side)

/-- The number of a handle in the run of a side alone: the clones that the other side makes are not
    there. -/
def number (n : Nat) : Nat := Nat.count (fun i => i < s.shared ∨ s.handle i = x) n

variable {s x} {n m : Nat}

theorem number_succ_own (h : s.handle n = x) : s.number x (n + 1) = s.number x n + 1 :=
  Nat.count_succ_eq_succ_count_iff.2 (.inr h)

theorem number_succ_other (hshared : s.shared ≤ n) (h : s.handle n ≠ x) :
    s.number x (n + 1) = s.number x n := by
  refine Nat.count_succ_eq_count_iff.2 ?_
  rintro (hn | hn)
  · exact absurd hn (Nat.not_lt.2 hshared)
  · exact h hn

theorem number_inj (hn : s.handle n = x) (hm : s.handle m = x) :
    s.number x n = s.number x m ↔ n = m :=
  ⟨Nat.count_injective (.inr hn) (.inr hm), fun h => h ▸ rfl⟩

theorem number_of_shared (h : n ≤ s.shared) : s.number x n = n :=
  Nat.count_of_forall fun _ hi => .inl (Nat.lt_of_lt_of_le hi h)

theorem shared_le_number (h : s.shared ≤ n) : s.shared ≤ s.number x n := by
  have hmono : s.number x s.shared ≤ s.number x n := Nat.count_monotone _ h
  rwa [number_of_shared (Nat.le_refl _)] at hmono

end Sides

/-! ## Operations -/

/-- The capability that is meant is one of the side.  The own one can be meant only where an entry
    point of the side runs. -/
def CapRef.Within (s : Sides) (x : Side) (reach : Reach) : CapRef → Prop
  | .own => reach.own = true
  | .named name => s.name name = x
  -- who is meant depends on what the other side keeps
  | .nth _ => False

mutual

/-- An operation of a side, and the same operation in the run of that side alone. -/
inductive Action.Echoes (s : Sides) (x : Side) : Reach → Action → Action → Prop where
  | submit {reach : Reach} {handle : Nat} {tag : String} {tagged : Bool} {entry entry' : Body}
      (mode : Mode) (ending : Ending) (quiet : Bool) (hhandle : s.handle handle = x)
      (htag : tagged = true → s.name tag = x)
      (hentry : Body.Echoes s x ⟨true, tagged⟩ entry entry') :
      Action.Echoes s x reach (.submit handle mode tag entry ending quiet)
        (.submit (s.number x handle) mode tag entry' ending quiet)
  | release {reach : Reach} {cap : CapRef} (hcap : cap.Within s x reach) :
      Action.Echoes s x reach (.release cap) (.release cap)
  | drop {reach : Reach} {cap : CapRef} (hcap : cap.Within s x reach) :
      Action.Echoes s x reach (.drop cap) (.drop cap)
  | forget {reach : Reach} {cap : CapRef} (hcap : cap.Within s x reach) :
      Action.Echoes s x reach (.forget cap) (.forget cap)
  | park {reach : Reach} {name : Option String} (hown : reach.own = true)
      (hname : ∀ n, name = some n → s.name n = x) (htag : name = none → reach.tag = true) :
      Action.Echoes s x reach (.park name) (.park name)
  | inspect {reach : Reach} {cap : CapRef} (hcap : cap.Within s x reach) :
      Action.Echoes s x reach (.inspect cap) (.inspect cap)
  | look {reach : Reach} {handle : Nat} (hhandle : s.handle handle = x) :
      Action.Echoes s x reach (.look handle) (.look (s.number x handle))
  | stats {reach : Reach} {handle : Nat} (hhandle : s.handle handle = x) :
      Action.Echoes s x reach (.stats handle) (.stats (s.number x handle))
  | config {reach : Reach} {handle : Nat} (hhandle : s.handle handle = x) :
      Action.Echoes s x reach (.config handle) (.config (s.number x handle))
  | same {reach : Reach} {a b : Nat} (ha : s.handle a = x) (hb : s.handle b = x) :
      Action.Echoes s x reach (.same a b) (.same (s.number x a) (s.number x b))
  | clone {reach : Reach} {handle : Nat} (hhandle : s.handle handle = x) :
      Action.Echoes s x reach (.clone handle) (.clone (s.number x handle))
  | dropHandle {reach : Reach} {handle : Nat} (hhandle : s.handle handle = x) :
      Action.Echoes s x reach (.dropHandle handle) (.dropHandle (s.number x handle))
  | log {reach : Reach} (message : Json) : Action.Echoes s x reach (.log message) (.log message)
  | count {reach : Reach} {key : String} (hkey : s.counter key = x) :
      Action.Echoes s x reach (.count key) (.count key)
  | when {reach : Reach} {key : String} {body body' : Body} (below : Nat) (quiet : Bool)
      (hkey : s.counter key = x) (hbody : Body.Echoes s x reach body body') :
      Action.Echoes s x reach (.when key below body quiet) (.when key below body' quiet)
  | iterate {reach : Reach} {body body' : Body} (times : Nat) (quiet : Bool)
      (hbody : Body.Echoes s x reach body body') :
      Action.Echoes s x reach (.iterate times body quiet) (.iterate times body' quiet)
  | guard {reach : Reach} {body body' : Body} (hbody : Body.Echoes s x reach body body') :
      Action.Echoes s x reach (.guard body) (.guard body')
  | thread {reach : Reach} {body body' : Body} (hbody : Body.Echoes s x reach body body') :
      Action.Echoes s x reach (.thread body) (.thread body')
  | panic {reach : Reach} (fault : Fault) : Action.Echoes s x reach (.panic fault) (.panic fault)
  | acquire {reach : Reach} {handle : Nat} {future : String} (mode : Mode)
      (hhandle : s.handle handle = x) (hfuture : s.name future = x) :
      Action.Echoes s x reach (.acquire handle mode future)
        (.acquire (s.number x handle) mode future)
  | run {reach : Reach} {handle : Nat} {future : String} {work work' : Body} (mode : Mode)
      (output : Json) (hhandle : s.handle handle = x) (hfuture : s.name future = x)
      (hwork : Body.Echoes s x ⟨true, true⟩ work work') :
      Action.Echoes s x reach (.run handle mode future work output)
        (.run (s.number x handle) mode future work' output)
  | poll {reach : Reach} {future : String} (hfuture : s.name future = x) :
      Action.Echoes s x reach (.poll future) (.poll future)
  | dropFuture {reach : Reach} {future : String} (hfuture : s.name future = x) :
      Action.Echoes s x reach (.dropFuture future) (.dropFuture future)
  | pause {reach : Reach} : Action.Echoes s x reach .pause .pause
  | unknown {reach : Reach} (word : String) :
      Action.Echoes s x reach (.unknown word) (.unknown word)

/-- A body of a side, and the same body in the run of that side alone. -/
inductive Body.Echoes (s : Sides) (x : Side) : Reach → Body → Body → Prop where
  | actions {reach : Reach} {list list' : List Action} (hlist : Strips s x reach list list') :
      Body.Echoes s x reach (.actions list) (.actions list')
  | procedure {reach : Reach} {name : String} (hname : s.procedure name = x)
      (hreach : (s.reach name).Le reach) :
      Body.Echoes s x reach (.procedure name) (.procedure name)

/-- A list of a side, and what is left of it in the run of that side alone. -/
inductive Strips (s : Sides) (x : Side) : Reach → List Action → List Action → Prop where
  | nil {reach : Reach} : Strips s x reach [] []
  | keep {reach : Reach} {a a' : Action} {rest rest' : List Action}
      (hkept : ¬ (x = .outer ∧ s.block a)) (ha : Action.Echoes s x reach a a')
      (hrest : Strips s x reach rest rest') : Strips s x reach (a :: rest) (a' :: rest')
  /-- An operation of the other side is stripped off. -/
  | strip {reach : Reach} {b : Action} {rest rest' : List Action} (hx : x = .outer)
      (hblock : s.block b) (hpause : b ≠ .pause) (hrest : Strips s x reach rest rest') :
      Strips s x reach (b :: rest) rest'

end

section Code

variable {s : Sides} {x : Side} {reach : Reach}

theorem Action.Echoes.word {a a' : Action} (h : a.Echoes s x reach a') : a'.word = a.word := by
  cases h <;> rfl

theorem Action.Echoes.pause_iff {a a' : Action} (h : a.Echoes s x reach a') :
    a = .pause ↔ a' = .pause := by
  cases h <;> simp

/-- The procedures of a side, and the same ones in the run of that side alone. -/
def Procedures (s : Sides) (x : Side) (table table' : Table (List Action)) : Prop :=
  ∀ name, s.procedure name = x →
    Strips s x (s.reach name) ((table.get? name).getD []) ((table'.get? name).getD [])

/-- The actions of a body, wherever they come from. -/
theorem Body.Echoes.actionsOf {body body' : Body} {w v : World} (h : body.Echoes s x reach body')
    (hprocedures : Procedures s x w.procedures v.procedures) :
    ∃ reach' : Reach, reach'.Le reach ∧
      Strips s x reach' (w.actionsOf body) (v.actionsOf body') := by
  cases h with
  | actions hlist => exact ⟨reach, ⟨id, id⟩, hlist⟩
  | procedure hname hreach => exact ⟨_, hreach, hprocedures _ hname⟩

end Code

/-! ## Answers -/

/-- An answer in the run of a side alone: new handles have other numbers there. -/
def Reply.alone (s : Sides) (x : Side) : Reply → Reply
  | index n => .index (s.number x n)
  | r => r

@[simp] theorem Reply.isNothing_alone (s : Sides) (x : Side) (r : Reply) :
    (r.alone s x).isNothing = r.isNothing := by
  cases r <;> rfl

/-- What is passed down in the run of a side alone. -/
def Control.alone (s : Sides) (x : Side) : Control → Control
  | returned r => .returned (r.alone s x)
  | unwinding fault => .unwinding fault
  | aborted => .aborted

theorem Control.alone_ne_aborted {s : Sides} {x : Side} {c : Control} (h : c ≠ .aborted) :
    c.alone s x ≠ .aborted := by
  cases c with
  | aborted => exact absurd rfl h
  | _ => exact fun e => by cases e

end FairLock
