import FairLock.Proofs.Admission
import FairLock.Proofs.Excuse
import FairLock.Proofs.Machine.Erased
import FairLock.Script.Run

/-!
# Submissions that are turned away

A submission is turned away if its request would have to wait and as many requests wait as may.  It
takes no number, leaves no request behind and starts nothing: the run goes on as it would without
it, and only the counters of submissions and of rejections and its own lines in the log tell that it
was made.

## Main definitions

- `Lock.Refuses`: a request of some mode is turned away by the lock.
- `World.TurnsAway`: a submission that is turned away, and what it leaves behind.

## Main statements

- `rejected_submission_invisible`: when submissions are turned away, and that nothing else depends
  on them.
-/

namespace FairLock

/-- A request of the mode cannot be granted at once, and as many requests wait as may. -/
structure Lock.Refuses {α : Type} (l : Lock α) (mode : Mode) (limit : Nat) : Prop where
  waits : l.core.queue ≠ [] ∨ l.state.admits mode = false
  bound : l.config.maxPending = some limit
  full : limit ≤ l.pending

/-- What a submission that is turned away leaves behind: it is counted, it is reported, its task is
    dropped uncalled, and the answer is the failure. -/
def Vestige.rejection (lock : LockId) (mode : Mode) (limit : Nat) (tag : String)
    (entered : List Grant) : Vestige where
  lock := lock
  tally := { submitted := 1, rejected := 1 }
  word := "submit"
  lines := [.discarded none (some tag), .notice (.rejected lock mode limit) entered]
  reply := .failed (.queueFull limit)

/-- A submission that is turned away in a world. -/
inductive World.TurnsAway (w : World) (context : Context) : Action → Vestige → Prop where
  | submit {handle : Nat} {mode : Mode} {tag : String} {body : Body} {ending : Ending}
      {quiet : Bool} {lock : LockId} {limit : Nat} (hlock : w.lockOf? handle = some lock)
      (hrefuses : (w.lock lock).Refuses mode limit) :
      TurnsAway w context (.submit handle mode tag body ending quiet)
        (.rejection lock mode limit tag w.entered)

namespace Lock

variable {α : Type} {l : Lock α} {mode : Mode} {limit : Nat}

theorem refuses_iff :
    l.Refuses mode limit ↔
      l.core.MustWait mode ∧ l.config.reachedLimit l.pending = some limit := by
  have hwaits : l.core.MustWait mode ↔ l.core.queue ≠ [] ∨ l.state.admits mode = false := by
    rw [Core.MustWait, imp_iff_not_or]
    rfl
  rw [hwaits, Config.reachedLimit_eq_some_iff]
  constructor
  · rintro ⟨hwaits, hbound, hfull⟩
    exact ⟨hwaits, hbound, hfull⟩
  · rintro ⟨hwaits, hbound, hfull⟩
    exact ⟨hwaits, hbound, hfull⟩

theorem Refuses.submit_eq (h : l.Refuses mode limit) (payload : α) :
    l.submit mode payload =
      ({ l with stats := l.stats.countRejected }, .rejected payload limit) := by
  obtain ⟨hwait, hlimit⟩ := refuses_iff.1 h
  unfold submit
  rw [Core.submit_of_full hwait hlimit]

/-- A lock that was never created turns nobody away. -/
theorem Refuses.lt {w : World} {lock : LockId} (h : (w.lock lock).Refuses mode limit) :
    lock < w.locks.length := by
  by_contra hlock
  have hfresh : w.lock lock = {} := by
    simp [World.lock, List.getD_eq_getElem?_getD, List.getElem?_eq_none (Nat.le_of_not_lt hlock)]
  have hbound := h.bound
  rw [hfresh] at hbound
  cases hbound

end Lock

namespace World

variable {w : World} {lock : LockId} {mode : Mode}

/-- The entry point of a request that its own submission has granted is started first. -/
theorem control_startGranted (w : World) (lock : LockId) (r : Request Entry) :
    (w.startGranted lock r).control = .returned .nothing := by
  have hend : ∀ (v : World) g, (v.endGrant g).control = .returned .nothing := by
    intro v g
    unfold endGrant endUnended
    split
    · dsimp only
      split <;> rfl
    · rfl
  have hstart : ∀ v : World, (v.start lock r).control = .returned .nothing := by
    intro v
    unfold start
    cases r.payload with
    | task t => rfl
    | sender c =>
      simp only [startSender]
      split
      · rfl
      · exact hend _ _
  unfold startGranted
  split
  · exact hstart w
  · exact hstart _

/-- A submission is answered with the bound on the queue at once exactly if the lock turns it
    away. -/
theorem submit_control_iff (w : World) (lock : LockId) (mode : Mode) (entry : Entry)
    (limit : Nat) :
    (w.submit lock mode entry).control = .returned (.failed (.queueFull limit)) ↔
      (w.lock lock).Refuses mode limit := by
  rw [Lock.refuses_iff]
  unfold submit
  rcases (w.lock lock).submit_cases mode entry with
    ⟨hqueue, hadmits, heq⟩ | ⟨hwait, bound, hbound, heq⟩ | ⟨hwait, hroom, heq⟩
  -- granted: nobody had to wait
  · have hwait : ¬(w.lock lock).core.MustWait mode := by
      intro hwait
      rw [hwait hqueue] at hadmits
      cases hadmits
    simp [heq, control_startGranted, hwait]
  -- turned away: the bound was reached
  · simp [heq, reply, hwait, hbound]
  -- queued: there was room
  · simp [heq, reply, hroom]

/-- A submission that is turned away leaves nothing else behind. -/
theorem TurnsAway.leavesOnly {context : Context} {a : Action} {v : Vestige}
    (h : w.TurnsAway context a v) : w.LeavesOnly context a v := by
  cases h with
  | @submit handle mode tag body ending quiet lock limit hlock hrefuses =>
    refine ⟨rfl, ?_⟩
    have hset : w.locks.set lock { w.lock lock with stats := (w.lock lock).stats.countRejected } =
        w.locks.modify lock fun l => l.raised { submitted := 1, rejected := 1 } := by
      rw [List.modify_eq_set_getElem?]
      -- the two counters that are raised here are the tally of the rejection
      simp [World.lock, List.getD_eq_getElem?_getD, hrefuses.lt, Lock.raised, Stats.raised,
        Stats.countRejected]
    simp only [perform, withLock, hlock, World.submit, hrefuses.submit_eq]
    rw [leave, Vestige.rejection, ← hset]
    rfl

end World

/-- As many submissions and rejections are counted as calls were erased. -/
theorem tallies_rejections {gone : List Vestige}
    (h : ∀ v ∈ gone, v.tally = { submitted := 1, rejected := 1 }) (id : LockId) :
    tallies gone id =
      { submitted := gone.countP fun v => v.lock = id
        rejected := gone.countP fun v => v.lock = id } := by
  simp [tallies_of_alike h, Tally.times]

/-- A submission is turned away exactly if its request would have to wait, because somebody waits
    or because the state does not admit the mode, and the queue is bounded and has reached its
    bound.  Its answer is then the failure with this bound, and its task is dropped uncalled:
    nothing is put on the stack.

    Take a run and the same run without any of the submissions of tasks that are turned away in it,
    at top level, in entry points, in started threads, or in the work of a future.  At every moment
    the machine of the second differs from that of the first in nothing but this: the counters of
    submissions and of rejections are lower by the number of erased calls, and so is every answer
    with counters; and the lines of the erased calls, with the answers to them, are missing from the
    history.  So on every lock the state, the queue and the number of the next grant are the same,
    the same grants are held, the run lists hold the same, and the same requests are accepted and
    the same grants issued, ended, started and handed back in the same order. -/
theorem rejected_submission_invisible :
    (∀ (w : World) (lock : LockId) (mode : Mode) (entry : Entry) (limit : Nat),
      (w.submit lock mode entry).control = .returned (.failed (.queueFull limit)) ↔
        (w.lock lock).Refuses mode limit) ∧
    (∀ {m : Machine} {w : World} {context : Context} {handle : Nat} {mode : Mode} {tag : String}
        {body : Body} {ending : Ending} {quiet : Bool} {below : List Frame} {lock : LockId}
        {limit : Nat},
      m.Begins w context (.submit handle mode tag body ending quiet) below →
      w.lockOf? handle = some lock → (w.lock lock).Refuses mode limit →
        m.Next ⟨w.leave (.rejection lock mode limit tag w.entered), below,
          .returned (.failed (.queueFull limit))⟩) ∧
    (∀ {gone : List Vestige} {m m' : Machine}, Machine.Erases World.TurnsAway gone m m' →
      m.Without gone m' ∧
        (∀ id < m.world.locks.length, m.world.lock id =
          { m'.world.lock id with
            stats :=
              { (m'.world.lock id).stats with
                submitted := (m'.world.lock id).stats.submitted +
                  gone.countP fun v => v.lock = id
                rejected := (m'.world.lock id).stats.rejected +
                  gone.countP fun v => v.lock = id } }) ∧
        ∀ id, SameGrants (m.world.journal id) (m'.world.journal id)) := by
  refine ⟨World.submit_control_iff, ?once, ?erased⟩
  -- one transition leads from the call to its answer, with nothing on the stack in between
  case once =>
    intro m w context handle mode tag body ending quiet below lock limit hbegins hlock hrefuses
    have hleaves : w.LeavesOnly context (.submit handle mode tag body ending quiet)
        (.rejection lock mode limit tag w.entered) :=
      World.TurnsAway.leavesOnly (.submit hlock hrefuses)
    have hnext := hbegins.next
    rw [hleaves.perform] at hnext
    exact hnext
  case erased =>
    intro gone m m' h
    have hwithout := h.without World.TurnsAway.leavesOnly
    -- nothing but rejections was erased
    have hkind : ∀ v ∈ gone, ∃ lock mode limit tag entered,
        v = .rejection lock mode limit tag entered := by
      intro v hv
      obtain ⟨w, context, a, hturns⟩ := h.exists_of_mem hv
      cases hturns
      exact ⟨_, _, _, _, _, rfl⟩
    refine ⟨hwithout, ?_, ?_⟩
    · intro id hid
      -- each of them counts one submission and one rejection
      have htally : ∀ v ∈ gone, v.tally = { submitted := 1, rejected := 1 } := by
        intro v hv
        obtain ⟨lock, mode, limit, tag, entered, rfl⟩ := hkind v hv
        rfl
      rw [hwithout.lock_eq hid, tallies_rejections htally]
      rfl
    · intro id
      have hsame : ∀ {pick : Event → Option Grant},
          (∀ tag word reply, pick (.acted tag word reply) = none) →
          (∀ tag, pick (.discarded none tag) = none) →
          (∀ lock mode limit entered, pick (.notice (.rejected lock mode limit) entered) = none) →
          occurrences pick (m.world.journal id) = occurrences pick (m'.world.journal id) := by
        -- a rejection and the drop of its entry are not among what the journal is asked for
        intro pick hacted hdiscarded hrejected
        refine hwithout.occurrences_eq hacted ?_ id
        intro v hv e he
        obtain ⟨lock, mode, limit, tag, entered, rfl⟩ := hkind v hv
        rcases List.mem_cons.1 he with rfl | he
        · exact hdiscarded _
        · rw [List.mem_singleton.1 he]
          exact hrejected ..
      constructor <;> exact hsame (fun _ _ _ => rfl) (fun _ => rfl) fun _ _ _ _ => rfl

/-! ## A task that submits to its own lock -/

/-- On a lock where nobody may wait, a writer submits a reader, and looks at the counters. -/
def turnedAwayInside : Action :=
  .submit 0 .write "outer" (.actions
    [.submit 0 .read "inner" (.actions []) .done true, .stats 0]) .done false

/-- The machine that performs this, when the submission of the reader is next. -/
def insideWriter : Machine :=
  Machine.begin (World.initial [{ maxPending := some 0 }] []) turnedAwayInside

theorem rejected_submission_invisible_turnedAwayInside :
    (∃ w below, insideWriter.Next ⟨w, below, .returned (.failed (.queueFull 0))⟩) ∧
    ∃ (w w' : World) (v : Vestige),
      Machine.Erases World.TurnsAway [v] ⟨w, [], .returned .ok⟩ ⟨w', [], .returned .ok⟩ ∧
      v = .rejection 0 .read 0 "inner" [⟨0, 1, .write⟩] ∧
      (w.lock 0).stats.rejected = (w'.lock 0).stats.rejected + 1 ∧
      (w.lock 0).stats.submitted = (w'.lock 0).stats.submitted + 1 ∧
      (w.lock 0).core = (w'.lock 0).core ∧ SameGrants (w.journal 0) (w'.journal 0) := by
  obtain ⟨hiff, honce, herased⟩ := rejected_submission_invisible
  have hrefuses : (insideWriter.world.lock 0).Refuses .read 0 :=
    -- that the queue is full is read off the answer, by the first part
    (hiff insideWriter.world 0 .read (.task ⟨0, "inner", .actions [], .done, true⟩) 0).1 rfl
  have hbegins : insideWriter.Begins insideWriter.world ⟨"outer", some ⟨0, 1, .write⟩, false⟩
      (.submit 0 .read "inner" (.actions []) .done true) _ := .action
  have hrun := (Machine.Erases.erase (.start insideWriter) hbegins
    (World.TurnsAway.submit rfl hrefuses)).follow (List.replicate 6 none)
  obtain ⟨-, hlocks, hsame⟩ := herased hrun
  have hlock := hlocks 0 (by decide)
  exact ⟨⟨_, _, honce hbegins rfl hrefuses⟩, _, _, _, hrun, rfl,
    congrArg (·.stats.rejected) hlock, congrArg (·.stats.submitted) hlock,
    congrArg (·.core) hlock, hsame 0⟩

end FairLock
