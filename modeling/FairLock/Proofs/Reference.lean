import FairLock.Proofs.Admission
import FairLock.Proofs.Parking

/-!
# A plain model of a lock

A lock is a core with settings, counters, unended grants and run lists, and its machine has loops
and boundaries.  None of that is seen by somebody who submits entry points that park their
capability, and releases these: to him the lock is a state, a queue and a list of what is held.  The
plain model is just that.  It says nothing at all where it would come into a state that makes no
sense, and it never does.

## Main definitions

- `Plain`: the plain model; `Plain.submit`, `Plain.release`: its operations.
- `Course`: the plain model with a record of what was accepted and what was released.
- `Course.ReleasesAll`: whatever is held is released, until nothing is.

## Main statements

- `State.plus_of_admits`, `State.Counts.minus`: where the model says something.
- `Plain.drain_eq`: what a drain of the plain model grants.
-/

namespace FairLock

/-! ## The model -/

/-- The state with one grant more, where that makes sense. -/
def State.plus : State → Mode → Option State
  | free, .read => some (reading 1)
  | reading n, .read => some (reading (n + 1))
  | free, .write => some writing
  | _, _ => none

/-- The state with one grant less, unless nothing is held. -/
def State.minus : State → Option State
  | free => none
  | reading 1 => some free
  | reading n => some (reading (n - 1))
  | writing => some free

/-- The plain model of a lock.  Requests go by the number of their submission. -/
structure Plain where
  state : State := .free
  /-- Who waits, the oldest first. -/
  queue : List (Nat × Mode) := []
  held : List (Nat × Mode) := []

namespace Plain

/-- Grant a request. -/
def grant (p : Plain) (r : Nat × Mode) : Option Plain :=
  (p.state.plus r.2).map fun state => { p with state := state, held := p.held ++ [r] }

/-- Submit a request.  It is granted if nobody waits and it may join what is held; otherwise it
    waits, or is turned away at the bound, which is then the answer. -/
def submit (limit : Option Nat) (p : Plain) (r : Nat × Mode) : Option (Plain × Option Nat) :=
  if p.queue.isEmpty && p.state.admits r.2 then (p.grant r).map fun p => (p, none)
  else
    match limit.filter (· ≤ p.queue.length) with
    | some n => some (p, some n)
    | none => some ({ p with queue := p.queue ++ [r] }, none)

/-- Grant the readers at the front of the given queue. -/
def grantReads : List (Nat × Mode) → Plain → Option Plain
  | (i, .read) :: rest, p => ({ p with queue := rest }.grant (i, .read)).bind (grantReads rest)
  | _, p => some p

/-- Grant the front of the queue, and if it is a reader every directly following one. -/
def drain (p : Plain) : Option Plain :=
  match p.queue with
  | [] => some p
  | (i, .read) :: rest => ({ p with queue := rest }.grant (i, .read)).bind (grantReads rest)
  | (i, .write) :: rest => { p with queue := rest }.grant (i, .write)

/-- Release what is held under a number. -/
def release (p : Plain) (i : Nat) : Option Plain :=
  match p.held.find? fun r => r.1 == i with
  | none => none
  | some r =>
    p.state.minus.bind fun state =>
      let p := { p with state := state, held := p.held.erase r }
      if state.isFree then p.drain else some p

end Plain

/-! ## Its runs -/

/-- What is done at top level. -/
inductive Op where
  | submit (mode : Mode)
  /-- Release what was granted to the submission with a number, for the first time or again. -/
  | release (i : Nat)

namespace Op

/-- How many requests are submitted. -/
def submissions : Op → Nat
  | submit _ => 1
  | release _ => 0

/-- What the machine is to do, if the next submission has the given number. -/
def action (tag : Nat → String) (n : Nat) : Op → Action
  | submit mode => .submitParking mode (tag n)
  | release i => .release (.named (tag i))

/-- The same, one after the other. -/
def actions (tag : Nat → String) : Nat → List Op → List Action
  | _, [] => []
  | n, op :: rest => op.action tag n :: actions tag (n + op.submissions) rest

end Op

/-- How far the plain model has come. -/
structure Course where
  plain : Plain := {}
  /-- How many requests were submitted. -/
  submitted : Nat := 0
  /-- The accepted ones, in order. -/
  accepted : List Nat := []
  /-- What was held and has been released. -/
  released : List (Nat × Mode) := []

namespace Course

/-- The next request is accepted, and leaves the plain model as it is given. -/
def accept (c : Course) (plain : Plain) : Course :=
  { c with
    plain := plain
    submitted := c.submitted + 1
    accepted := c.accepted ++ [c.submitted] }

/-- Do one thing, and say what a caller is told. -/
def perform (limit : Option Nat) (c : Course) : Op → Option (Course × Reply)
  | .submit mode =>
    (c.plain.submit limit (c.submitted, mode)).map fun
      | (plain, none) => (c.accept plain, .ok)
      | (plain, some n) =>
        ({ c with plain := plain, submitted := c.submitted + 1 }, .failed (.queueFull n))
  | .release i =>
    match c.plain.held.find? fun r => r.1 == i with
    | some r =>
      (c.plain.release i).map fun plain =>
        ({ c with plain := plain, released := r :: c.released }, .flag true)
    | none => some (c, if c.released.any fun r => r.1 == i then .flag false else .noCapability)

/-- Do one thing after the other. -/
def run (limit : Option Nat) (c : Course) : List Op → Option (Course × List Reply)
  | [] => some (c, [])
  | op :: rest =>
    (c.perform limit op).bind fun (next, reply) =>
      (next.run limit rest).map fun (last, replies) => (last, reply :: replies)

/-- Whatever is held is released, one after the other and in this order, until nothing is. -/
inductive ReleasesAll (limit : Option Nat) : Course → List Nat → Course → Prop where
  | done {c : Course} (h : c.plain.held = []) : ReleasesAll limit c [] c
  | release {c next last : Course} {r : Nat × Mode} {reply : Reply} {rest : List Nat}
      (hheld : r ∈ c.plain.held) (h : c.perform limit (.release r.1) = some (next, reply))
      (hrest : ReleasesAll limit next rest last) : ReleasesAll limit c (r.1 :: rest) last

end Course

/-! ## What the model grants -/

/-- What is admitted makes sense. -/
theorem State.plus_of_admits {s : State} {m : Mode} (h : s.admits m = true) :
    s.plus m = some (s.acquired m) := by
  cases s <;> cases m <;> simp_all [plus, acquired]

/-- What is counted may end. -/
theorem State.Counts.minus {s : State} {modes : List Mode} (h : s.Counts modes) {m : Mode}
    (hm : m ∈ modes) : s.minus = some (s.released m) := by
  -- what is held is none, readers, or a writer, and one of it ends
  cases h with
  | free => cases hm
  | reading n =>
    obtain ⟨-, rfl⟩ := List.mem_replicate.1 hm
    cases n <;> rfl
  | writing =>
    obtain rfl := List.mem_singleton.1 hm
    rfl

namespace Plain

variable {p : Plain} (request : Nat × Mode → Request Entry)

/-- Readers join readers. -/
theorem grantReads_eq (hmode : ∀ r, (request r).mode = r.2) (queue : List (Nat × Mode))
    (hread : p.state.admits .read = true) (hqueue : p.queue = queue) :
    ∃ batch rest, queue = batch ++ rest ∧
      (queue.map request).takeWhile (fun r => r.mode.isRead) = batch.map request ∧
      (queue.map request).dropWhile (fun r => r.mode.isRead) = rest.map request ∧
      grantReads queue p = some
        { state := (batch.map request).foldl (fun s r => s.acquired r.mode) p.state
          queue := rest
          held := p.held ++ batch } := by
  -- along the queue, as far as it begins with readers
  induction queue generalizing p with
  | nil =>
    obtain ⟨state, queue, held⟩ := p
    obtain rfl : queue = [] := hqueue
    exact ⟨[], [], rfl, rfl, rfl, by simp [grantReads]⟩
  | cons r queue ih =>
    obtain ⟨i, mode⟩ := r
    cases mode with
    | write =>
      obtain ⟨state, queue', held⟩ := p
      obtain rfl : queue' = (i, .write) :: queue := hqueue
      refine ⟨[], (i, .write) :: queue, rfl, ?_, ?_, ?_⟩
      · simp [hmode]
      · simp [hmode]
      · simp [grantReads]
    | read =>
      -- one reader more admits the next one as well
      have hnext : (p.state.acquired .read).admits .read = true := by
        cases p.state <;> rfl
      obtain ⟨batch, rest, hsplit, htake, hdrop, hgrant⟩ :=
        ih (p := ⟨p.state.acquired .read, queue, p.held ++ [(i, .read)]⟩) hnext rfl
      refine ⟨(i, .read) :: batch, rest, by rw [hsplit]; rfl, ?_, ?_, ?_⟩
      · simp [hmode, htake]
      · simp [hmode, hdrop]
      · simp [grantReads, grant, State.plus_of_admits hread, hgrant, hmode]

/-- A free model grants what a free lock does. -/
theorem drain_eq (hmode : ∀ r, (request r).mode = r.2) (hfree : p.state = .free) :
    ∃ batch rest, p.queue = batch ++ rest ∧
      batchOf (p.queue.map request) = batch.map request ∧
      restOf (p.queue.map request) = rest.map request ∧
      p.drain = some
        { state := stateOf (batch.map request), queue := rest, held := p.held ++ batch } := by
  obtain ⟨state, queue, held⟩ := p
  obtain rfl : state = .free := hfree
  -- the front decides what the model grants, as it does with the lock
  cases queue with
  | nil => exact ⟨[], [], rfl, rfl, rfl, by simp [drain, stateOf]⟩
  | cons r queue =>
    obtain ⟨i, mode⟩ := r
    cases mode with
    | write =>
      refine ⟨[(i, .write)], queue, rfl, ?_, ?_, ?_⟩
      · simp [batchOf, hmode]
      · simp [restOf, hmode]
      · simp [drain, grant, State.plus, stateOf, hmode, State.acquired]
    | read =>
      obtain ⟨batch, rest, hsplit, htake, hdrop, hgrant⟩ :=
        grantReads_eq (p := ⟨.reading 1, queue, held ++ [(i, .read)]⟩) request hmode queue rfl rfl
      refine ⟨(i, .read) :: batch, rest, by simp [hsplit], ?_, ?_, ?_⟩
      · simp [batchOf, hmode, htake]
      · simp [restOf, hmode, hdrop]
      · simp [drain, grant, State.plus, stateOf, hmode, State.acquired, hgrant]

end Plain

end FairLock
