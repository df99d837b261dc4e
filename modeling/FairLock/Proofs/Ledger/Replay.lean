import FairLock.Proofs.Ledger.Places

/-!
# Replaying a journal

The state of a lock is a bare counter.  `State.acquired` is meant for a mode that the state admits
and `State.released` for a mode that is held; outside of that they give some state all the same.
The checked operations give none there.  Replaying the issued and ended grants of a journal with
the checked operations succeeds and leads to the state of the lock, so the unchecked ones were only
ever called where they are meant to be.

## Main definitions

- `State.acquired?`, `State.released?`: the checked operations.
- `Journal.replay?`: the issued and ended grants of a journal, one after the other.

## Main statements

- `Ledger.Reachable.replay`: the replay of a journal gives the state of its lock.
-/

namespace FairLock

namespace State

/-- The state with one more grant of the given mode, if the state admits it. -/
def acquired? (s : State) (m : Mode) : Option State :=
  if s.admits m then some (s.acquired m) else none

/-- The state after one grant of the given mode has ended, if one is held. -/
def released? : State → Mode → Option State
  | reading (n + 1), .read => some ((reading (n + 1)).released .read)
  | writing, .write => some free
  | _, _ => none

theorem acquired?_of_admits {s : State} {m : Mode} (h : s.admits m = true) :
    s.acquired? m = some (s.acquired m) :=
  if_pos h

/-- Whatever is counted may be released. -/
theorem Counts.released? {s : State} {modes : List Mode} (h : s.Counts modes) {m : Mode}
    (hm : m ∈ modes) : s.released? m = some (s.released m) := by
  cases h with
  | free => cases hm
  -- all that is counted are readers
  | reading n =>
    obtain ⟨-, rfl⟩ := List.mem_replicate.1 hm
    rfl
  | writing =>
    obtain rfl := List.mem_singleton.1 hm
    rfl

end State

/-- What an event does to the state of its lock: issuing a grant acquires its mode, and the end of a
    grant releases it. -/
def Event.apply? : Event → State → Option State
  | .issued g _, s => s.acquired? g.mode
  | .notice (.released g _ _) _, s => s.released? g.mode
  | _, s => some s

namespace Journal

/-- The state after all events of a journal, from a free lock on. -/
def replay? : Journal → Option State
  | [] => some .free
  | e :: before => (replay? before).bind e.apply?

theorem replay?_cons {e : Event} {j : Journal} {s : State} (h : replay? j = some s) :
    replay? (e :: j) = e.apply? s := by
  rw [replay?, h, Option.bind_some]

/-- Events that neither issue nor end a grant leave the state alone. -/
theorem replay?_append {new j : Journal} {s : State} (hissued : new.issued = [])
    (hended : new.ended = []) (h : replay? j = some s) : replay? (new ++ j) = some s := by
  -- by induction on the new events, none of which issues or ends a grant
  induction new with
  | nil => exact h
  | cons e new ih =>
    rw [issued, occurrences_cons, List.append_eq_nil_iff] at hissued
    rw [ended, occurrences_cons, List.append_eq_nil_iff] at hended
    rw [List.cons_append, replay?_cons (ih hissued.1 hended.1)]
    cases e with
    | issued g parent => simp at hissued
    | notice n entered =>
      cases n with
      | released g state pending => simp at hended
      | _ => rfl
    | _ => rfl

theorem replay?_issued {g : Grant} {parent : Option Grant} {j : Journal} {s : State}
    (h : replay? j = some s) (ha : s.admits g.mode = true) :
    replay? (.issued g parent :: j) = some (s.acquired g.mode) := by
  rw [replay?_cons h]
  exact State.acquired?_of_admits ha

/-- Readers are issued one after the other. -/
theorem replay?_readers {α : Type} (id : LockId) {batch : List (Request α)}
    (hbatch : ∀ r ∈ batch, r.mode = .read) (parent : Option Grant) {j : Journal} {s : State}
    (hread : s.admits .read = true) (h : replay? j = some s) :
    replay? ((batch.map fun r => Event.issued (r.grant id) parent).reverse ++ j) =
      some (batch.foldl (fun s r => s.acquired r.mode) s) := by
  induction batch generalizing j s with
  | nil => exact h
  | cons r rest ih =>
    have hr : r.mode = .read := hbatch r (by simp)
    -- each reader leaves a state that admits the next one
    have hnext : (s.acquired r.mode).admits .read = true := by
      rw [hr]
      cases s <;> rfl
    have hissue : replay? (.issued (r.grant id) parent :: j) = some (s.acquired r.mode) :=
      replay?_issued h (by simpa [hr] using hread)
    have := ih (fun x hx => hbatch x (by simp [hx])) hnext hissue
    simpa using this

/-- A free lock that drains its queue issues nothing that it does not admit. -/
theorem replay?_drain {α : Type} (id : LockId) (queue : List (Request α)) (pending : Nat)
    (parent : Option Grant) (entered : List Grant) {j : Journal} (h : replay? j = some .free) :
    replay? (drainEvents id (batchOf queue) pending parent entered ++ j) =
      some (stateOf (batchOf queue)) := by
  cases hb : batchOf queue with
  | nil => exact h
  | cons front rest =>
    have hnotice : replay? (.notice (.draining id front.mode (front :: rest).length pending)
        entered :: j) = some .free := replay?_cons h
    simp only [drainEvents, List.append_assoc, List.singleton_append]
    -- readers are issued one after the other,
    -- each admitted next to those before it; a writer is alone
    rcases batchOf_cases queue with hread | ⟨r, hr, hw⟩
    · rw [hb] at hread
      exact replay?_readers id hread parent rfl hnotice
    · rw [hb, List.cons.injEq] at hr
      obtain ⟨rfl, rfl⟩ := hr
      exact replay?_issued hnotice rfl

end Journal

namespace Ledger

variable {id : LockId}

theorem Sound.replay_step {k k' : Ledger} (h : Sound id k) (hs : Step id k k')
    (hreplay : k.journal.replay? = some k.lock.core.state) :
    k'.journal.replay? = some k'.lock.core.state := by
  cases hs with
  | granted thread parent entered shown hsubmit =>
    obtain ⟨-, hadmits, rfl, rfl⟩ := Lock.submit_granted hsubmit
    rw [Lock.dispatchOn_eq]
    exact Journal.replay?_cons (Journal.replay?_issued (Journal.replay?_cons hreplay) hadmits)
  | queued entered hsubmit =>
    obtain ⟨-, -, -, -, rfl⟩ := Lock.submit_queued hsubmit
    exact Journal.replay?_cons hreplay
  | rejected entered hsubmit =>
    obtain ⟨-, -, -, rfl⟩ := Lock.submit_rejected hsubmit
    exact Journal.replay?_cons hreplay
  | ended thread parent entered hlock hunended hsource hrelease =>
    rename_i l l' journal out g batch
    have hheld := h.held_of_isUnended hsource hunended
    have hreleased := h.balanced.state.released? (List.mem_map_of_mem hheld)
    have hhold : Journal.replay? (.notice (l.holdNotice g) (g :: entered) :: journal) =
        some l.core.state :=
      Journal.replay?_append (issues_holdNotice l g (g :: entered)).issued
        (issues_holdNotice l g (g :: entered)).ended hreplay
    -- up to the end of the grant; what is drained comes after that
    have hend : Journal.replay? (.notice (.released g l'.state l'.pending) entered ::
        .notice (l.holdNotice g) (g :: entered) :: journal) =
          some (l.core.state.released g.mode) := by
      rw [Journal.replay?_cons hhold]
      exact hreleased
    rw [Lock.deferBatch_eq]
    rcases Lock.release_cases hrelease with ⟨-, rfl, rfl⟩ | ⟨hfree, rfl, rfl⟩
    · exact hend
    · rw [hfree] at hend
      exact Journal.replay?_drain id l.core.queue _ parent entered hend
  | redundant entered hlock hended => exact Journal.replay?_cons hreplay
  | failed failure entered hlock =>
    rename_i l journal out g
    have hevents := issues_failureEvents l g failure entered
    exact Journal.replay?_append hevents.issued hevents.ended hreplay
  | taken thread shown hnext =>
    obtain ⟨before, rest, after, -, -, rfl⟩ := Lock.next_cases hnext
    exact Journal.replay?_cons hreplay
  | closed thread => exact hreplay
  | dropped tag hlock => exact Journal.replay?_cons hreplay

/-- Replaying the journal with the checked operations gives the state of the lock. -/
theorem Reachable.replay {k : Ledger} (h : Reachable id k) :
    k.journal.replay? = some k.lock.core.state := by
  -- the replay alone is not kept by a release: what is released has to be held
  have hboth := h.induct (P := fun k => Sound id k ∧
    k.journal.replay? = some k.lock.core.state) ?_ ?_
  · exact hboth.2
  · intro start hstart
    refine ⟨.of_fresh hstart, ?_⟩
    obtain ⟨config, hlock⟩ := hstart.lock
    have := Journal.replay?_append (j := []) hstart.silent.issued hstart.silent.ended rfl
    rw [List.append_nil] at this
    rw [this, hlock]
  · rintro k k' ⟨hsound, hreplay⟩ hs
    exact ⟨hsound.step hs, hsound.replay_step hs hreplay⟩

end Ledger

end FairLock
