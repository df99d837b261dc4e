import FairLock.Proofs.Machine.Runs
import FairLock.Report.Log

/-!
# Replaying the debug log

Four lines of the debug log tell what a lock does with its requests and grants.  Whoever reads them
in order, from a free lock without a queue on, knows at any time what is held and how many requests
wait.  The lines give only the name of their lock, so no other lock may have it.

The reader takes nothing on trust.  What a line shows of the state and of the queue is compared with
what has been worked out, and a drain has to be told of exactly where one is due.

## Main definitions

- `LogEntry`: what one of these lines says; `LogLine.reading?` reads it off a message and its
  fields.
- `entriesAbout?`: what a log says about the lock with a name.
- `Replay.next?`, `Replay.follow?`: working out the state and the queue.

## Main statements

- `Ledger.Step.follow?`, `Ledger.Reachable.follow?`: the journal of a lock leads the reader to it.
- `entriesAbout?_lines`: the log says what the journal says.
- `debug_log_replays`: both for reachable machines, and which grants are told to have ended.
-/

namespace FairLock

/-! ## What lines say -/

/-- The mode that a word in a message stands for. -/
def Mode.ofText? : String → Option Mode
  | "read" => some read
  | "write" => some write
  | _ => none

/-- What a line says about requests and grants.  Grants and states are left as they are written. -/
inductive LogEntry where
  /-- A submission was granted on the spot. -/
  | immediate (grant : String) (mode : Mode) (state : String)
  /-- A submission has to wait. -/
  | queued (grant : String) (mode : Mode) (state : String) (pending : Nat)
  /-- A grant has ended. -/
  | released (grant : String) (mode : Mode) (state : String) (pending : Nat)
  /-- Waiting requests were granted. -/
  | draining (mode : Mode) (count pending : Nat)

namespace LogEntry

/-- Does the line say that this grant has ended? -/
def releases (grant : String) : LogEntry → Bool
  | released g _ _ _ => g = grant
  | _ => false

end LogEntry

namespace LogLine

variable (line : LogLine)

/-- The text in a field. -/
def text? (field : String) : Option String :=
  match line.fields.lookup field with
  | some (.text value) => some value
  | _ => none

/-- The number in a field. -/
def number? (field : String) : Option Nat :=
  match line.fields.lookup field with
  | some (.number value) => some value
  | _ => none

/-- The mode in the field for it. -/
def mode? : Option Mode := (line.text? "mode").bind Mode.ofText?

/-- The messages that tell of requests and grants. -/
def tidings : List String :=
  ["granted immediately", "request queued", "grant released", "draining queued requests"]

/-- Does the line tell of requests or grants of a lock with this name? -/
def tellsOf (name : String) : Bool :=
  tidings.contains line.message && line.text? "lock" == some name

/-- What a line says about requests and grants, if it has all the fields for that. -/
def reading? : Option LogEntry :=
  match line.message with
  | "granted immediately" => do
    return .immediate (← line.text? "grant") (← line.mode?) (← line.text? "state")
  | "request queued" => do
    return .queued (← line.text? "grant") (← line.mode?) (← line.text? "state")
      (← line.number? "pending")
  | "grant released" => do
    return .released (← line.text? "grant") (← line.mode?) (← line.text? "state")
      (← line.number? "pending")
  | "draining queued requests" => do
    return .draining (← line.mode?) (← line.number? "count") (← line.number? "pending")
  | _ => none

end LogLine

/-- What a log says about the lock with a name.  Every line that tells of it has to be readable. -/
def entriesAbout? (name : String) (log : List LogLine) : Option (List LogEntry) :=
  (log.filter fun line => line.tellsOf name).mapM LogLine.reading?

/-! ## Reading on -/

/-- The state of a lock that was free and has drained so many requests: one writer, or readers. -/
def Mode.stateOfBatch? : Mode → Nat → Option State
  | write, 1 => some .writing
  | read, n + 1 => some (.reading (n + 1))
  | _, _ => none

/-- What a reader of the log has worked out. -/
structure Replay where
  state : State := .free
  pending : Nat := 0
  /-- What the last line has shown, if a drain is due now: the state and the queue after it. -/
  due : Option (String × Nat) := none
  deriving DecidableEq

namespace Replay

/-- Read one more line, if it is right. -/
def next? (k : Replay) (e : LogEntry) : Option Replay :=
  match k.due, e with
  | none, .immediate _ mode state =>
    if state = (k.state.acquired mode).text then
      some { k with state := k.state.acquired mode }
    else none
  | none, .queued _ _ state pending =>
    if state = k.state.text ∧ pending = k.pending + 1 then
      some { k with pending := k.pending + 1 }
    else none
  | none, .released _ mode state pending =>
    -- whoever leaves waiting requests to a free lock has a drain to come
    if k.state.released mode = .free ∧ k.pending ≠ 0 then
      some { k with state := .free, due := some (state, pending) }
    else if state = (k.state.released mode).text ∧ pending = k.pending then
      some { k with state := k.state.released mode }
    else none
  | some (shown, left), .draining mode count pending => do
    let state ← mode.stateOfBatch? count
    if count ≤ k.pending ∧ pending = k.pending - count ∧ shown = state.text ∧ left = pending then
      return { state := state, pending := k.pending - count }
    else none
  | _, _ => none

/-- Read on to the end. -/
def follow? (k : Replay) (entries : List LogEntry) : Option Replay := entries.foldlM next? k

theorem follow?_append {k k' : Replay} {before : List LogEntry}
    (h : k.follow? before = some k') (after : List LogEntry) :
    k.follow? (before ++ after) = k'.follow? after := by
  rw [follow?, List.foldlM_append]
  exact congrArg (· >>= _) h

/-- What a reader should have worked out for a lock. -/
def of {α : Type} (l : Lock α) : Replay := { state := l.state, pending := l.pending }

end Replay

/-! ## The entries of a journal -/

/-- What the line for an event says about requests and grants. -/
def Event.told? : Event → Option LogEntry
  | notice (.grantedImmediately g state) _ =>
    some (.immediate (toString g.id) g.mode state.text)
  | notice (.queued g state pending) _ =>
    some (.queued (toString g.id) g.mode state.text pending)
  | notice (.released g state pending) _ =>
    some (.released (toString g.id) g.mode state.text pending)
  | notice (.draining _ mode count pending) _ => some (.draining mode count pending)
  | _ => none

/-- An entry tells of an accepted request, of an ended grant, or of a drain. -/
theorem Event.told?_cases {e : Event} {x : LogEntry} (h : e.told? = some x) :
    (∃ g, e.accepted? = some g) ∨ (∃ g, e.ended? = some g) ∨
      ∃ mode count pending, x = .draining mode count pending := by
  cases e with
  | notice n entered =>
    -- the other notices are not told of, as they change neither the state nor the queue
    cases n with
    | grantedImmediately g state => exact .inl ⟨g, rfl⟩
    | queued g state pending => exact .inl ⟨g, rfl⟩
    | released g state pending => exact .inr (.inl ⟨g, rfl⟩)
    | draining lock mode count pending => exact .inr (.inr ⟨mode, count, pending, by cases h; rfl⟩)
    | _ => cases h
  | _ => cases h

namespace Journal

/-- What a log says of a journal, in the order in which it happened. -/
def entries (j : Journal) : List LogEntry := j.reverse.filterMap Event.told?

@[simp] theorem entries_append (new j : Journal) :
    entries (new ++ j) = entries j ++ entries new := by
  simp [entries]

@[simp] theorem entries_cons (e : Event) (j : Journal) :
    entries (e :: j) = entries j ++ e.told?.toList := by
  cases h : e.told? <;> simp [entries, h]

theorem mem_entries {j : Journal} {x : LogEntry} :
    x ∈ entries j ↔ ∃ e ∈ j, e.told? = some x := by
  simp [entries]

/-- A drain is told of once, if anything was drained. -/
theorem entries_drainEvents {α : Type} (id : LockId) (batch : List (Request α)) (pending : Nat)
    (parent : Option Grant) (entered : List Grant) :
    entries (drainEvents id batch pending parent entered) =
      (batch.head?.map fun front => .draining front.mode batch.length pending).toList := by
  cases batch with
  | nil => rfl
  | cons front rest =>
    -- issues are not told of: the line of the drain says how many there are
    have hissued : entries
        ((front :: rest).map fun r => Event.issued (r.grant id) parent).reverse = [] := by
      simp only [entries, List.reverse_reverse, List.filterMap_eq_nil_iff, List.mem_map]
      rintro e ⟨r, -, rfl⟩
      rfl
    rw [drainEvents, entries_append, hissued]
    rfl

end Journal

theorem Lock.entries_holdNotice {α : Type} (l : Lock α) (g : Grant) (entered : List Grant) :
    Journal.entries [.notice (l.holdNotice g) entered] = [] := by
  unfold holdNotice
  split <;> rfl

theorem Lock.entries_failureEvents {α : Type} (l : Lock α) (g : Grant) (failure : Failure)
    (entered : List Grant) : Journal.entries (l.failureEvents g failure entered) = [] := by
  unfold failureEvents
  split <;> rfl

/-! ## A lock and its reader -/

/-- The mode and the length of a batch tell the state of the lock that has granted it. -/
theorem stateOfBatch?_batchOf {α : Type} {queue : List (Request α)} {front : Request α}
    {rest : List (Request α)} (h : batchOf queue = front :: rest) :
    front.mode.stateOfBatch? (front :: rest).length = some (stateOf (batchOf queue)) := by
  rcases batchOf_cases queue with hread | ⟨r, hr, hw⟩
  -- readers are counted; a writer is alone in its batch
  · have hcounts := counts_stateOf_batchOf queue
    rw [h] at hread hcounts
    have hreading : stateOf (front :: rest) = .reading (rest.length + 1) :=
      (hcounts.eq_reading_iff _).2 ⟨by omega, by simp, by simpa using hread⟩
    rw [h, hreading, hread front (by simp)]
    rfl
  · rw [h] at hr
    obtain ⟨rfl, rfl⟩ := List.cons.inj hr
    rw [h, hw]
    simp [stateOf, hw, Mode.stateOfBatch?, State.acquired]

namespace Replay

section Steps

variable {α : Type} {l l' : Lock α}

/-- What is told of a submission that is granted leads to the lock after it. -/
theorem follow?_granted {mode : Mode} {payload : α} {r : Request α}
    (h : l.submit mode payload = (l', .granted r)) :
    (of l).follow? [.immediate (toString r.id) r.mode l'.state.text] = some (of l') := by
  obtain ⟨-, -, rfl, rfl⟩ := Lock.submit_granted h
  simp [follow?, next?, of, Lock.state, Lock.pending]

theorem follow?_queued {mode : Mode} {payload : α} {n : GrantId} {pending : Nat}
    (h : l.submit mode payload = (l', .queued n pending)) :
    (of l).follow? [.queued (toString n) mode l'.state.text pending] = some (of l') := by
  obtain ⟨-, -, -, rfl, rfl⟩ := Lock.submit_queued h
  simp [follow?, next?, of, Lock.state, Lock.pending]

/-- What is told of the end of a grant leads to the lock after it, over a drain if there is one. -/
theorem follow?_released {g : Grant} {batch : List (Request α)} (id : LockId)
    (parent : Option Grant) (entered : List Grant) (h : l.release g.id g.mode = (l', batch)) :
    (of l).follow?
        (.released (toString g.id) g.mode l'.state.text l'.pending ::
          Journal.entries (drainEvents id batch l'.pending parent entered)) = some (of l') := by
  rw [Journal.entries_drainEvents]
  rcases Lock.release_cases h with ⟨hbusy, rfl, rfl⟩ | ⟨hfree, rfl, rfl⟩
  · simp [follow?, next?, of, Lock.state, Lock.pending, hbusy]
  · have hqueue := congrArg List.length (batchOf_append_rest l.core.queue)
    rw [List.length_append] at hqueue
    cases hb : batchOf l.core.queue with
    | nil =>
      obtain hnone : l.core.queue = [] := batchOf_eq_nil_iff.1 hb
      simp [follow?, next?, of, Lock.state, Lock.pending, hfree, hnone, stateOf, restOf]
    | cons front rest =>
      -- somebody waits, so a drain is due, and its mode and count tell the state
      have hstate := stateOfBatch?_batchOf hb
      rw [hb, List.length_cons] at hqueue
      rw [hb, List.length_cons] at hstate
      have hwaits : l.core.queue ≠ [] := by
        rintro hnone
        rw [hnone] at hb
        cases hb
      have hrest : (restOf l.core.queue).length = l.core.queue.length - (rest.length + 1) := by
        omega
      have hle : rest.length + 1 ≤ l.core.queue.length := by omega
      simp [follow?, next?, of, Lock.state, Lock.pending, hfree, hwaits, hstate, hrest, hle]

/-- Events of which nothing is told leave the reader where it is. -/
theorem follow?_silent {new : Journal} (hnew : new.entries = []) (hstate : l'.state = l.state)
    (hpending : l'.pending = l.pending) :
    (of l).follow? new.entries = some (of l') := by
  rw [hnew, of, of, hstate, hpending]
  rfl

/-- What was read before does not have to be read again. -/
theorem follow?_entries {j : Journal} (hread : follow? {} j.entries = some (of l))
    (new : Journal) : follow? {} (Journal.entries (new ++ j)) = (of l).follow? new.entries := by
  rw [Journal.entries_append]
  exact follow?_append hread _

end Steps

end Replay

namespace Ledger

variable {id : LockId} {k k' : Ledger}

/-- A reader who has worked out the lock can read on. -/
theorem Step.follow? (h : Step id k k')
    (hread : Replay.follow? {} k.journal.entries = some (.of k.lock)) :
    Replay.follow? {} k'.journal.entries = some (.of k'.lock) := by
  cases h with
  -- most steps tell nothing, and those that do tell what the lock is afterwards
  | granted thread parent entered shown hsubmit =>
    rw [Lock.dispatchOn_eq]
    exact (Replay.follow?_entries hread [_, _, _]).trans (Replay.follow?_granted hsubmit)
  | queued entered hsubmit =>
    exact (Replay.follow?_entries hread [_]).trans (Replay.follow?_queued hsubmit)
  | rejected entered hsubmit =>
    obtain ⟨-, -, -, rfl⟩ := Lock.submit_rejected hsubmit
    exact (Replay.follow?_entries hread [_]).trans (Replay.follow?_silent rfl rfl rfl)
  | ended thread parent entered hlock hunended hsource hrelease =>
    rename_i l l' journal out g batch
    -- how long the grant was held is not told, so the reader is still where it was
    have hhold : Replay.follow? {}
        (Journal.entries (.notice (l.holdNotice g) (g :: entered) :: journal)) = some (.of l) :=
      (Replay.follow?_entries hread [_]).trans
        (Replay.follow?_silent (l.entries_holdNotice g (g :: entered)) rfl rfl)
    -- the drain and the release are then read together, since only both together give the state
    have hend := Replay.follow?_entries hhold (drainEvents id batch l'.pending parent entered ++
      [.notice (.released g l'.state l'.pending) entered])
    rw [List.append_assoc] at hend
    rw [Lock.deferBatch_eq]
    refine hend.trans ?_
    rw [Journal.entries_append]
    exact Replay.follow?_released id parent entered hrelease
  | redundant entered hlock hended =>
    exact (Replay.follow?_entries hread [_]).trans (Replay.follow?_silent rfl rfl rfl)
  | failed failure entered hlock =>
    rename_i l journal out g
    exact (Replay.follow?_entries hread _).trans
      (Replay.follow?_silent (l.entries_failureEvents g failure entered) rfl rfl)
  | taken thread shown hnext =>
    obtain ⟨before, rest, after, -, -, rfl⟩ := Lock.next_cases hnext
    exact (Replay.follow?_entries hread [_]).trans (Replay.follow?_silent rfl rfl rfl)
  | closed thread => exact hread
  | dropped tag hlock =>
    exact (Replay.follow?_entries hread [_]).trans (Replay.follow?_silent rfl rfl rfl)

/-- The journal of a lock leads its reader to what the lock is. -/
theorem Reachable.follow? (h : Reachable id k) :
    Replay.follow? {} k.journal.entries = some (.of k.lock) := by
  refine h.induct (P := fun k => Replay.follow? {} k.journal.entries = some (.of k.lock)) ?_
    fun k k' hread hs => hs.follow? hread
  -- nothing is told of before the first submission, and a reader begins with a free lock
  intro start hstart
  obtain ⟨config, hlock⟩ := hstart.lock
  have hnone : start.journal.entries = [] := by
    simp only [Journal.entries, List.filterMap_eq_nil_iff, List.mem_reverse]
    intro e he
    obtain ⟨lock, entered, rfl⟩ := hstart.journal e he
    rfl
  rw [hnone, hlock]
  rfl

/-- Of a lock that was never created nothing is told. -/
theorem Reachable.entries_of_default (h : Reachable id k) (hlock : k.lock = {}) :
    k.journal.entries = [] := by
  have hread := h.follow?
  have hbalanced := h.sound.balanced
  rw [hlock] at hbalanced
  have haccepted : k.journal.accepted = [] := by
    have hnext := hbalanced.nextId
    exact List.length_eq_zero_iff.1 (Nat.succ_inj.1 hnext.symm)
  have hended : k.journal.ended = [] := by
    refine List.eq_nil_iff_forall_not_mem.2 fun g hg => ?_
    have hg := hbalanced.issued_sublist.subset (hbalanced.issued_of_ended g hg)
    rw [haccepted] at hg
    cases hg
  cases hentries : k.journal.entries with
  | nil => rfl
  | cons first rest =>
    have hmem : first ∈ k.journal.entries := hentries ▸ List.mem_cons_self
    obtain ⟨e, he, hfirst⟩ := Journal.mem_entries.1 hmem
    rcases Event.told?_cases hfirst with ⟨g, hg⟩ | ⟨g, hg⟩ | ⟨mode, count, pending, rfl⟩
    · have hg : g ∈ k.journal.accepted := mem_occurrences.2 ⟨e, he, hg⟩
      rw [haccepted] at hg
      cases hg
    · have hg : g ∈ k.journal.ended := mem_occurrences.2 ⟨e, he, hg⟩
      rw [hended] at hg
      cases hg
    · -- no drain is due at the start
      rw [hentries] at hread
      cases hread

end Ledger

/-! ## Lines and entries -/

section Lines

variable (s : Setup) (w : World) (issued : List (Grant × Option Grant))

/-- The line for a notice can be read if it tells of requests or grants. -/
theorem reading?_lineOf (n : Notice) (entered : List Grant) :
    (s.lineOf w issued n entered).reading? = (Event.notice n entered).told? := by
  -- the kind of the grant is written as a word, which is read back case by case
  cases n with
  | grantedImmediately g state =>
    obtain ⟨lock, id, mode⟩ := g
    cases mode <;> rfl
  | queued g state pending =>
    obtain ⟨lock, id, mode⟩ := g
    cases mode <;> rfl
  | released g state pending =>
    obtain ⟨lock, id, mode⟩ := g
    cases mode <;> rfl
  | draining lock mode count pending => cases mode <;> rfl
  | _ => rfl

/-- It tells of the lock that makes the notice. -/
theorem tellsOf_lineOf (name : String) (n : Notice) (entered : List Grant) :
    (s.lineOf w issued n entered).tellsOf name =
      ((Event.notice n entered).told?.isSome && (w.lock n.lock).config.name == name) := by
  cases n <;> rfl

end Lines

/-- The line for an event, if there is one and it is wanted. -/
def Setup.lineFor? (s : Setup) (w : World) : Event → Option LogLine
  | .notice n entered =>
    if s.filter.wants n.site (entered.map (Grant.spanValues w)) then
      some (s.lineOf w (issuedGrants w.history) n entered)
    else none
  | _ => none

theorem Setup.linesOf_eq (s : Setup) (w : World) :
    s.linesOf w = w.history.filterMap (s.lineFor? w) := by
  refine congrArg (fun f => w.history.filterMap f) (funext fun e => ?_)
  cases e <;> rfl

/-- If every line that is picked for an event can be read, and tells what is told of the event, the
    lines can be read together. -/
theorem mapM_filterMap {α β γ : Type} {pick : α → Option β} {read : β → Option γ}
    {tell : α → Option γ} {l : List α} (h : ∀ a ∈ l, (pick a).map read = (tell a).map some) :
    (l.filterMap pick).mapM read = some (l.filterMap tell) := by
  induction l with
  | nil => rfl
  | cons a l ih =>
    obtain ⟨ha, hl⟩ := List.forall_mem_cons.1 h
    -- an element that is not picked tells nothing, and a picked one is read as what it tells
    cases hpick : pick a with
    | none =>
      have htell : tell a = none := by simpa [hpick] using ha.symm
      simp [hpick, htell, ih hl]
    | some b =>
      obtain ⟨c, htell, hread⟩ := Option.map_eq_some_iff.1 (ha.symm.trans (by rw [hpick]; rfl))
      simp [hpick, htell, hread.symm, ih hl]

section World

variable {s : Setup} {w : World} {id : LockId}
  (hwants : ∀ n entered, (Event.notice n entered).told?.isSome →
    s.filter.wants n.site (entered.map (Grant.spanValues w)) = true)
  (hname : ∀ e ∈ w.history, ∀ other, e.told?.isSome → e.lock? = some other →
    (w.lock other).config.name = (w.lock id).config.name → other = id)
include hwants hname

/-- The line for an event is read as a line about the lock if the event is about the lock. -/
theorem reading?_lineFor? {e : Event} (he : e ∈ w.history) :
    ((s.lineFor? w e).filter fun line => line.tellsOf (w.lock id).config.name).map
        LogLine.reading? =
      (if e.lock? == some id then e.told? else none).map some := by
  cases e with
  | notice n entered =>
    rw [Setup.lineFor?]
    cases hx : (Event.notice n entered).told? with
    | none =>
      -- an event that is not told of has a line without a state, which is passed over
      have hsilent : (s.lineOf w (issuedGrants w.history) n entered).tellsOf
          (w.lock id).config.name = false := by
        rw [tellsOf_lineOf, hx]
        rfl
      split <;> simp [hsilent]
    | some x =>
      -- the names tell locks apart as far as they are told of
      have hsame : (w.lock n.lock).config.name = (w.lock id).config.name ↔ n.lock = id :=
        ⟨hname _ he n.lock (by rw [hx]; rfl) rfl, fun h => h ▸ rfl⟩
      rw [if_pos (hwants n entered (by rw [hx]; rfl)), Option.filter_some, tellsOf_lineOf, hx,
        Event.lock?]
      by_cases hlock : n.lock = id
      · simp [hlock, reading?_lineOf, hx]
      · simp [hlock, hsame.not.2 hlock]
  | _ => simp [Setup.lineFor?, Event.told?]

/-- The lines of a log with the name of a lock say what the journal of the lock says. -/
theorem entriesAbout?_lines :
    entriesAbout? (w.lock id).config.name (s.lines w) = some (w.journal id).entries := by
  -- what the program says of itself carries no name of a lock
  have hown : s.ownLine.tellsOf (w.lock id).config.name = false := by
    simp only [Setup.ownLine]
    cases s.structured <;> rfl
  have hskip : ((if s.filter.wants Setup.ownSite [] then [s.ownLine] else []).filter
      fun line => line.tellsOf (w.lock id).config.name) = [] := by
    split <;> simp [hown]
  -- the log goes forward in time, and the journal backward
  have hjournal : (w.journal id).entries = w.history.reverse.filterMap fun e =>
      if e.lock? == some id then e.told? else none := by
    rw [Journal.entries, World.journal, ← List.filter_reverse, List.filterMap_filter]
  rw [entriesAbout?, Setup.lines, List.filter_append, hskip, List.nil_append, s.linesOf_eq,
    ← List.filterMap_reverse, List.filter_filterMap, hjournal]
  exact mapM_filterMap fun e he => reading?_lineFor? hwants hname (List.mem_reverse.1 he)

end World

/-! ## Ends -/

/-- A number is read back from its text, so grants with one text are one. -/
theorem ofDigitChars_toString (n : Nat) : Nat.ofDigitChars 10 (toString n).toList 0 = n := by
  have hdigits : (toString n).toList = Nat.toDigits 10 n := Nat.toList_repr
  rw [hdigits]
  exact Nat.ofDigitChars_toDigits (by decide) (by decide)

/-- The lines about the end of a grant are as many as its ends. -/
theorem Journal.countP_entries (j : Journal) (n : GrantId) :
    j.entries.countP (LogEntry.releases (toString n)) = j.ended.countP fun g => g.id == n := by
  induction j with
  | nil => rfl
  | cons e j ih =>
    -- one event at a time: only the report of a release counts,
    -- and its number is read back from the text
    have hone : e.told?.toList.countP (LogEntry.releases (toString n)) =
        e.ended?.toList.countP fun g => g.id == n := by
      cases e with
      | notice notice entered =>
        cases notice with
        | released g state pending =>
          have htext : Function.LeftInverse (fun s => Nat.ofDigitChars 10 s.toList 0)
              (toString : Nat → String) := ofDigitChars_toString
          have hsame : toString g.id = toString n ↔ g.id = n := htext.injective.eq_iff
          simp only [Event.told?, Event.ended?, Option.toList_some, List.countP_singleton,
            LogEntry.releases, hsame, decide_eq_true_eq, beq_iff_eq]
        | _ => rfl
      | _ => rfl
    simp only [entries_cons, List.countP_append, ih, hone, occurrences_cons]

/-- So there is one such line if the grant has ended, and none otherwise. -/
theorem Balanced.countP_ended {id : LockId} {l : Lock Entry} {accepted issued ended : List Grant}
    (h : Balanced id l accepted issued ended) {g : Grant} (hg : g ∈ issued) :
    (ended.countP fun x => x.id == g.id) = if l.isUnended g.id then 0 else 1 := by
  have hsub := h.issued_sublist
  -- two issued grants with one number are one, so counting by the number is counting the grant
  have hcount : (ended.countP fun x => x.id == g.id) = ended.count g := by
    refine List.countP_congr fun x hx => ?_
    have hx := hsub.subset (h.issued_of_ended x hx)
    simp only [beq_iff_eq]
    exact ⟨h.eq_of_id_eq hx (hsub.subset hg), fun heq => heq ▸ rfl⟩
  have hheld : l.isUnended g.id = true ↔ g ∉ ended := by
    rw [h.isUnended_iff hg, mem_stillHeld, and_iff_right hg]
  rw [hcount]
  split
  case isTrue hunended => exact List.count_eq_zero_of_not_mem (hheld.1 hunended)
  case isFalse hunended =>
    exact List.count_eq_one_of_mem h.endedOnce (Decidable.not_not.1 fun hg => hunended (hheld.2 hg))

/-! ## The log of a machine -/

/-- Only locks that were created are told of. -/
theorem Machine.Reachable.lock_lt_of_told? {m : Machine} (h : m.Reachable) {e : Event}
    (he : e ∈ m.world.history) (hentry : e.told?.isSome) {id : LockId} (hid : e.lock? = some id) :
    id < m.world.locks.length := by
  obtain ⟨-, out, -, hledger⟩ := h.exists_ledger
  refine Decidable.byContradiction fun hlt => ?_
  -- a lock that is not there has an empty journal, and the event would be in it
  have hnone := (hledger id).entries_of_default (World.lock_of_not_lt hlt)
  obtain ⟨x, hx⟩ := Option.isSome_iff_exists.1 hentry
  have hmem : x ∈ (m.world.journal id).entries :=
    Journal.mem_entries.2 ⟨e, List.mem_filter.2 ⟨he, by simp [hid]⟩, hx⟩
  rw [show (m.world.journal id).entries = [] from hnone] at hmem
  cases hmem

namespace Machine.Reachable

variable {m m' : Machine} {id : LockId}

/-- The debug log says of a lock what its journal says, if no other lock has the name. -/
theorem entriesAbout?_lines (h : m.Reachable) (structured : Bool)
    (hname : ∀ other < m.world.locks.length,
      (m.world.lock other).config.name = (m.world.lock id).config.name → other = id) :
    entriesAbout? (m.world.lock id).config.name
        ((⟨structured, Filter.everywhere .debug⟩ : Setup).lines m.world) =
      some (m.world.journal id).entries := by
  refine FairLock.entriesAbout?_lines ?wanted ?own
  case wanted =>
    intro n entered hentry
    rw [Filter.wants_everywhere]
    -- what is told of is wanted at this level, and the rest is not asked for
    cases n with
    | created lock => rfl
    | redundant g => cases hentry
    | _ => rfl
  case own =>
    exact fun e he other hentry hother => hname other (h.lock_lt_of_told? he hentry hother)

/-- What was said is still said later. -/
theorem entries_append (h : m.Reachable) (hr : Reaches m m') (id : LockId) :
    ∃ more, (m'.world.journal id).entries = (m.world.journal id).entries ++ more := by
  obtain ⟨new, hnew⟩ := (h.history_suffix hr).filter fun e => e.lock? == some id
  refine ⟨Journal.entries new, ?_⟩
  rw [← Journal.entries_append]
  exact congrArg Journal.entries hnew.symm

end Machine.Reachable

/-- The debug log of a machine tells of each lock whose name no other lock has.  Whoever reads it
    has found all that it shows of the state and of the queue to be right, and has worked out both
    as they are.  Of an issued grant it tells once that it has ended, if it has.  And as that is so
    at every moment of a run, and the log of an earlier moment is the beginning of a later one, the
    reader of a log comes past the state and the queue of every moment. -/
theorem debug_log_replays {m : Machine} (h : m.Reachable) (structured : Bool) (id : LockId)
    (hname : ∀ other < m.world.locks.length,
      (m.world.lock other).config.name = (m.world.lock id).config.name → other = id) :
    ∃ entries,
      entriesAbout? (m.world.lock id).config.name
          ((⟨structured, Filter.everywhere .debug⟩ : Setup).lines m.world) = some entries ∧
        Replay.follow? {} entries =
          some { state := (m.world.lock id).state, pending := (m.world.lock id).pending } ∧
        (∀ g ∈ (m.world.journal id).issued,
          entries.countP (LogEntry.releases (toString g.id)) =
            if m.world.isUnended g then 0 else 1) ∧
        ∀ m', Machine.Reaches m m' → ∃ more,
          entriesAbout? (m'.world.lock id).config.name
              ((⟨structured, Filter.everywhere .debug⟩ : Setup).lines m'.world) =
            some (entries ++ more) := by
  obtain ⟨-, out, -, hledger⟩ := h.exists_ledger
  refine ⟨(m.world.journal id).entries, h.entriesAbout?_lines structured hname,
    (hledger id).follow?, ?ends, ?later⟩
  case ends =>
    intro g hg
    have hbalanced := h.balanced id
    have hlock : g.lock = id := hbalanced.own g (hbalanced.issued_sublist.subset hg)
    rw [Journal.countP_entries, hbalanced.countP_ended hg, World.isUnended, hlock]
  case later =>
    intro m' hr
    obtain ⟨more, hmore⟩ := h.entries_append hr id
    refine ⟨more, ?_⟩
    -- the log of the later moment is that of the same journal, which has grown
    rw [← hmore]
    refine (h.reaches hr).entriesAbout?_lines structured fun other hother hsame => ?_
    rw [h.config_eq hr, h.config_eq hr] at hsame
    exact hname other (h.length_locks hr ▸ hother) hsame

/-- The writer has ended, and two readers were drained.  The log says so, and that the writer has
    ended and no reader has. -/
theorem debug_log_replays_writerAndReaders :
    (∀ other < (writerAndReadersAfter {} [] 8).world.locks.length,
      ((writerAndReadersAfter {} [] 8).world.lock other).config.name = "rwlock" → other = 0) ∧
    ∃ entries,
      entriesAbout? "rwlock" ((⟨true, Filter.everywhere .debug⟩ : Setup).lines
          (writerAndReadersAfter {} [] 8).world) = some entries ∧
        Replay.follow? {} entries = some { state := .reading 3, pending := 0 } ∧
        entries.countP (LogEntry.releases "1") = 1 ∧
        entries.countP (LogEntry.releases "3") = 0 := by
  have hname : ∀ other < (writerAndReadersAfter {} [] 8).world.locks.length,
      ((writerAndReadersAfter {} [] 8).world.lock other).config.name = "rwlock" → other = 0 := by
    intro other hother _
    have hone : (writerAndReadersAfter {} [] 8).world.locks.length = 1 := by decide
    omega
  have hissued : ((writerAndReadersAfter {} [] 8).world.journal 0).issued =
      [⟨0, 1, .write⟩, ⟨0, 2, .read⟩, ⟨0, 3, .read⟩, ⟨0, 4, .read⟩] := by decide
  have hstate : ((writerAndReadersAfter {} [] 8).world.lock 0).state = .reading 3 := by decide
  have hpending : ((writerAndReadersAfter {} [] 8).world.lock 0).pending = 0 := by decide
  obtain ⟨entries, hlog, hfollow, hends, -⟩ :=
    debug_log_replays (reachable_writerAndReadersAfter {} [] 8) true 0 hname
  -- the state and the queue of that moment are the ones that the reader has worked out
  refine ⟨hname, entries, hlog, ?_, ?_, ?_⟩
  · rwa [hstate, hpending] at hfollow
  · exact hends ⟨0, 1, .write⟩ (by rw [hissued]; simp)
  · exact hends ⟨0, 3, .read⟩ (by rw [hissued]; simp)

end FairLock
