import FairLock.Proofs.Machine.Runs

/-!
# Where every request is

No request is lost and none is started twice: an accepted request waits, or lies on the run list of
one thread, or was started once, or was taken out by an unwound loop.  A request that is turned away
takes no number, and nothing of it is kept that could be started.

## Main statements

- `World.submit_of_rejected`: what a submission that is turned away does.
- `every_request_in_one_place`: the places of the accepted requests of a reachable machine.
-/

namespace FairLock

namespace Ledger

variable {id : LockId} {k : Ledger}

/-- Every accepted request is in exactly one place. -/
theorem Sound.accepted_perm (h : Sound id k) :
    k.journal.accepted.Perm
      (k.waiting id ++ k.deferred id ++ k.journal.started ++ (k.out ++ k.journal.handedBack)) := by
  have hqueue : k.journal.accepted = k.journal.issued ++ k.waiting id := h.balanced.queue
  have hplaces := h.places
  rw [hqueue]
  -- what was issued is in one of the later places, and nowhere twice
  rw [List.perm_iff_count] at hplaces ⊢
  intro g
  have := hplaces g
  simp only [List.count_append] at this ⊢
  omega

end Ledger

/-! ## Requests that are turned away -/

namespace World

variable {w : World}

/-- It changes no queue and no run list, and the next number stays the next one. -/
theorem lock_submit_of_rejected {lock : LockId} {mode : Mode} {entry refused : Entry} {limit : Nat}
    {l : Lock Entry} (h : (w.lock lock).submit mode entry = (l, .rejected refused limit))
    (other : LockId) :
    ((w.submit lock mode entry).world.lock other).core = (w.lock other).core ∧
      ((w.submit lock mode entry).world.lock other).runLists = (w.lock other).runLists := by
  -- what is dropped afterwards is no news for the locks, so only the counter is left to look at
  rw [submit_of_rejected h]
  simp only [reply, lock_discard, lock_notify]
  by_cases hlock : lock = other
  · subst hlock
    by_cases hid : lock < w.locks.length
    · rw [lock_setLock_self hid]
      exact ⟨rfl, rfl⟩
    · simp [World.lock, setLock, List.getD_eq_getElem?_getD, Nat.le_of_not_lt hid]
  · rw [lock_setLock_of_ne hlock]
    exact ⟨rfl, rfl⟩

theorem occurrences_journal_emit {pick : Event → Option Grant} (w : World) {e : Event}
    (he : pick e = none) (id : LockId) :
    occurrences pick ((w.emit e).journal id) = occurrences pick (w.journal id) := by
  simp only [journal, emit, List.filter_cons]
  split
  · rw [occurrences_cons, he, Option.toList_none, List.append_nil]
  · rfl

theorem journal_submit_of_rejected {lock : LockId} {mode : Mode} {entry refused : Entry}
    {limit : Nat} {l : Lock Entry}
    (h : (w.lock lock).submit mode entry = (l, .rejected refused limit)) (other : LockId) :
    ((w.submit lock mode entry).world.journal other).accepted = (w.journal other).accepted ∧
      ((w.submit lock mode entry).world.journal other).started = (w.journal other).started := by
  rw [submit_of_rejected h]
  simp only [reply, journal_discard_none]
  exact ⟨occurrences_journal_emit _ rfl other, occurrences_journal_emit _ rfl other⟩

end World

/-! ## Reachable machines -/

/-- At every moment of a run the accepted requests of a lock are numbered from one in the order of
    their submission, their grants are issued in that order, and those not yet issued are exactly
    the queue.  As long as tasks can run, each accepted request is in exactly one place: in the
    queue, on the run list of one thread, started once, or taken out by an unwound loop.

    An entry point was only ever started while its grant was issued and had not ended, and no second
    time.  A submission that is turned away puts nothing on the stack, changes no queue and no run
    list, takes no number, and starts nothing. -/
theorem every_request_in_one_place {m : Machine} (h : m.Reachable) (id : LockId) :
    (m.world.journal id).accepted.map (·.id) =
        List.range' 1 (m.world.journal id).accepted.length ∧
      (m.world.journal id).issued.map (·.id) =
        List.range' 1 (m.world.journal id).issued.length ∧
      (m.world.journal id).accepted =
        (m.world.journal id).issued ++ (m.world.lock id).core.queue.map (Request.grant id) ∧
      ((m.world.lock id).runLists.map (·.thread)).Nodup ∧
      (m.isAborting = false →
        (m.world.journal id).accepted.Nodup ∧
          (m.world.journal id).accepted.Perm
            ((m.world.lock id).core.queue.map (Request.grant id) ++
              (deferredIn (m.world.lock id).runLists).map (Request.grant id) ++
              (m.world.journal id).started ++ m.takenOut id)) ∧
      (m.world.journal id).EachStart (fun g before =>
        g ∈ before.accepted ∧ g ∈ before.issued ∧ g ∉ before.ended ∧ g ∉ before.started) ∧
      (∀ mode entry l refused limit,
        (m.world.lock id).submit mode entry = (l, .rejected refused limit) →
        (m.world.submit id mode entry).frames = [] ∧
          ∀ other,
            ((m.world.submit id mode entry).world.lock other).core = (m.world.lock other).core ∧
            ((m.world.submit id mode entry).world.lock other).runLists =
              (m.world.lock other).runLists ∧
            ((m.world.submit id mode entry).world.journal other).accepted =
              (m.world.journal other).accepted ∧
            ((m.world.submit id mode entry).world.journal other).started =
              (m.world.journal other).started) := by
  obtain ⟨out, hholds, hsound⟩ := h.sound id
  have hbalanced := h.balanced id
  refine ⟨hbalanced.ids, hbalanced.issued_ids, hbalanced.queue, hsound.threads, ?places, ?starts,
    ?rejected⟩
  -- who is in hand, in the ledger of the lock, is taken out as long as the tasks run
  case places =>
    intro htasks
    have hperm := hsound.accepted_perm
    rw [hholds htasks] at hperm
    exact ⟨hbalanced.accepted_nodup, hperm⟩
  -- what is rightful includes what is asked of a start here
  case starts =>
    refine hsound.starts.mono ?_
    intro g before hg
    exact ⟨hg.accepted, hg.issued, hg.unended, hg.first⟩
  case rejected =>
    intro mode entry l refused limit hsubmit
    refine ⟨by rw [World.submit_of_rejected hsubmit]; rfl, ?_⟩
    intro other
    obtain ⟨hcore, hruns⟩ := World.lock_submit_of_rejected hsubmit other
    obtain ⟨haccepted, hstarted⟩ := World.journal_submit_of_rejected hsubmit other
    exact ⟨hcore, hruns, haccepted, hstarted⟩

/-- The first reader panics with a bomb, so the loop is unwound and takes the second one out.  While
    the writer runs and two readers fill the queue, a third one is turned away. -/
theorem every_request_in_one_place_writerAndReaders :
    (writerAndReadersAfter {} [.panic (.panicBomb "")] 14).takenOut 0 = [⟨0, 3, .read⟩] ∧
    ((writerAndReadersAfter {} [.panic (.panicBomb "")] 14).world.journal 0).accepted.Perm
      [⟨0, 1, .write⟩, ⟨0, 2, .read⟩, ⟨0, 3, .read⟩] ∧
    ((writerAndReadersAfter { maxPending := some 2 } [] 3).world.submit 0 .read
      (.sender 0)).frames = [] := by
  have htaken : (writerAndReadersAfter {} [.panic (.panicBomb "")] 14).takenOut 0 =
      [⟨0, 3, .read⟩] := by decide
  obtain ⟨-, -, -, -, hplaces, -, -⟩ :=
    every_request_in_one_place (reachable_writerAndReadersAfter {} [.panic (.panicBomb "")] 14) 0
  obtain ⟨-, -, -, -, -, -, hrejected⟩ :=
    every_request_in_one_place (reachable_writerAndReadersAfter { maxPending := some 2 } [] 3) 0
  refine ⟨htaken, ?_, (hrejected .read (.sender 0) _ (.sender 0) 2 rfl).1⟩
  -- the second reader is in no place but among those taken out
  have hperm := (hplaces (by decide)).2
  rw [htaken] at hperm
  exact hperm

end FairLock
