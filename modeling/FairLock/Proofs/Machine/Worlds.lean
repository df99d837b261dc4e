import FairLock.Machine.Step
import FairLock.Proofs.Ledger
import FairLock.Report.Spans

/-!
# Worlds and their ledgers

Each lock of a world shows a ledger: the lock, its part of the history, and the grants that unwound
loops still have to hand back.  What the machine does to a world is some run of each ledger; most
of what it does concerns no lock at all.

A capability is worth something because it comes from an entry point that was started.  So a world
is well formed if every capability that it keeps anywhere names a grant of one of its locks whose
entry point was started.

## Main definitions

- `World.ledger`; `World.Leads`: every ledger of one world runs on to that of another.
- `World.Knows`: the entry point of the grant was started in this world.
- `World.WellFormed`.

## Main statements

- `Leads.of_step`: one step of one lock.
- `Leads.silent`, `Leads.of_eq`, `Leads.emit`: what concerns no lock.
- `WellFormed.mono`, `WellFormed.emit` and so on: small changes that keep a world well formed.
-/

namespace FairLock

/-! ## Tables -/

section Table

variable {β : Type} {t : Table β} {name : String} {value : β} {entry : String × β}

theorem Table.eq_or_mem_of_mem_put (h : entry ∈ t.put name value) :
    entry = (name, value) ∨ entry ∈ t := by
  induction t with
  | nil => exact .inl (by simpa [Table.put] using h)
  | cons first rest ih =>
    obtain ⟨n, v⟩ := first
    -- the new entry stands before what is there,
    -- takes the place of its name, or stands further behind
    unfold Table.put at h
    split at h
    · exact (List.mem_cons.1 h).imp_right fun h => List.mem_cons_of_mem _ h
    · split at h
      · exact List.mem_cons.1 h
      · rcases List.mem_cons.1 h with rfl | h
        · exact .inr (by simp)
        · exact (ih h).imp_right fun h => List.mem_cons_of_mem _ h

theorem Table.mem_of_get? (h : t.get? name = some value) : (name, value) ∈ t := by
  obtain ⟨before, after, rfl, -⟩ := List.lookup_eq_some_iff.1 h
  simp

theorem Table.mem_of_mem_remove (h : entry ∈ t.remove name) : entry ∈ t :=
  (List.mem_filter.1 h).1

end Table

namespace World

variable {w w' w'' : World} {out out' out'' : List Grant}

/-! ## Locks -/

/-- A lock that was never created counts as fresh. -/
theorem lock_of_not_lt {id : LockId} (h : ¬id < w.locks.length) : w.lock id = {} := by
  simp [lock, List.getD_eq_getElem?_getD, Nat.le_of_not_lt h]

/-- So nothing is held on it. -/
theorem lock_lt_of_isUnended {g : Grant} (h : w.isUnended g = true) :
    g.lock < w.locks.length := by
  refine Decidable.byContradiction fun hid => ?_
  simp [isUnended, lock_of_not_lt hid, Lock.isUnended] at h

/-! ## Ledgers -/

/-- A world as one of its locks shows it. -/
def ledger (w : World) (out : List Grant) (id : LockId) : Ledger :=
  ⟨w.lock id, w.journal id, out.filter fun g => g.lock == id⟩

/-- Events about no lock are in no journal. -/
theorem journal_of_silent {new : List Event} (hhistory : w'.history = new ++ w.history)
    (hnew : ∀ e ∈ new, e.lock? = none) (id : LockId) : w'.journal id = w.journal id := by
  have hnone : (new.filter fun e => e.lock? == some id) = [] := by
    rw [List.filter_eq_nil_iff]
    intro e he
    simp [hnew e he]
  rw [journal, hhistory, List.filter_append, hnone, List.nil_append]
  rfl

/-- Events about one lock are all in its journal. -/
theorem journal_of_own {new : Journal} {id : LockId} (hhistory : w'.history = new ++ w.history)
    (hnew : ∀ e ∈ new, e.lock? = some id) : w'.journal id = new ++ w.journal id := by
  have hall : (new.filter fun e => e.lock? == some id) = new := by
    rw [List.filter_eq_self]
    intro e he
    simp [hnew e he]
  simp only [journal, hhistory, List.filter_append, hall]

/-- What is done with one lock, and recorded as that, is seen on no other. -/
theorem views_of_step {id : LockId} (l' : Lock Entry) (new : Journal) (hid : id < w.locks.length)
    (hlocks : w'.locks = w.locks.set id l') (hhistory : w'.history = new ++ w.history)
    (hnew : ∀ e ∈ new, e.lock? = some id) :
    (w'.lock id = l' ∧ w'.journal id = new ++ w.journal id) ∧
      ∀ other, other ≠ id →
        w'.lock other = w.lock other ∧ w'.journal other = w.journal other := by
  refine ⟨⟨?_, journal_of_own hhistory hnew⟩, ?_⟩
  · have := lock_setLock_self hid l'
    simpa only [lock, setLock, hlocks] using this
  -- the events are about this lock, so any other one finds none of them in its journal
  · intro other hother
    constructor
    · have := lock_setLock_of_ne (w := w) (Ne.symm hother) l'
      simpa only [lock, setLock, hlocks] using this
    · have hnone : (new.filter fun e => e.lock? == some other) = [] := by
        rw [List.filter_eq_nil_iff]
        intro e he
        simpa [hnew e he] using Ne.symm hother
      simp only [journal, hhistory, List.filter_append, hnone, List.nil_append]

/-- Every ledger of the first world runs on to that of the second. -/
structure Leads (w : World) (out : List Grant) (w' : World) (out' : List Grant) : Prop where
  locks : w'.locks.length = w.locks.length
  history : w.history <:+ w'.history
  run : ∀ id, Ledger.Run id (w.ledger out id) (w'.ledger out' id)

namespace Leads

theorem refl (w : World) (out : List Grant) : w.Leads out w out :=
  ⟨rfl, List.suffix_refl _, fun _ => .refl⟩

theorem trans (h : w.Leads out w' out') (h' : w'.Leads out' w'' out'') :
    w.Leads out w'' out'' :=
  ⟨h'.locks.trans h.locks, h.history.trans h'.history, fun id => (h.run id).trans (h'.run id)⟩

/-- No lock is lost on the way. -/
theorem lock_lt (h : w.Leads out w' out') {id : LockId} (hid : id < w.locks.length) :
    id < w'.locks.length :=
  Nat.lt_of_lt_of_eq hid h.locks.symm

/-- Whatever leaves the locks alone and only records events about none concerns no ledger. -/
theorem silent {new : List Event} (hlocks : w'.locks = w.locks)
    (hhistory : w'.history = new ++ w.history) (hnew : ∀ e ∈ new, e.lock? = none) :
    w.Leads out w' out := by
  refine ⟨congrArg List.length hlocks, hhistory ▸ List.suffix_append _ _, ?_⟩
  intro id
  have hsame : w'.ledger out id = w.ledger out id := by
    rw [ledger, journal_of_silent hhistory hnew, lock, hlocks]
    rfl
  rw [hsame]

theorem of_eq (hlocks : w'.locks = w.locks) (hhistory : w'.history = w.history) :
    w.Leads out w' out := by
  have hnothing : w'.history = [] ++ w.history := hhistory
  exact silent hlocks hnothing (by simp)

theorem emit {e : Event} (he : e.lock? = none) : w.Leads out (w.emit e) out := by
  have hone : (w.emit e).history = [e] ++ w.history := rfl
  exact silent rfl hone (by simpa using he)

/-- One step of one lock leaves the other locks alone. -/
theorem of_step {id : LockId} (l' : Lock Entry) (new : Journal) (hid : id < w.locks.length)
    (hlocks : w'.locks = w.locks.set id l') (hhistory : w'.history = new ++ w.history)
    (hnew : ∀ e ∈ new, e.lock? = some id)
    (hout : ∀ other ≠ id,
      (out'.filter fun g => g.lock == other) = out.filter fun g => g.lock == other)
    (hstep : Ledger.Step id (w.ledger out id)
      ⟨l', new ++ w.journal id, out'.filter fun g => g.lock == id⟩) :
    w.Leads out w' out' := by
  obtain ⟨⟨hlock, hjournal⟩, hothers⟩ := views_of_step l' new hid hlocks hhistory hnew
  refine ⟨by simp [hlocks], hhistory ▸ List.suffix_append _ _, ?_⟩
  intro other
  -- the ledger of the lock makes the step, and that of any other lock stays as it is
  by_cases hother : other = id
  · subst hother
    rw [← hlock, ← hjournal] at hstep
    exact .single hstep
  · obtain ⟨hlock', hjournal'⟩ := hothers other hother
    have hsame : w'.ledger out' other = w.ledger out other := by
      rw [ledger, hlock', hjournal', hout other hother]
      rfl
    rw [hsame]

end Leads

/-! ## Grants that a world knows -/

/-- The grant was issued by a lock of this world, and its entry point was started. -/
def Knows (w : World) (g : Grant) : Prop :=
  g.lock < w.locks.length ∧ g ∈ (w.journal g.lock).started

theorem Knows.mono {g : Grant} (h : w.Knows g) (hlocks : w'.locks.length = w.locks.length)
    (hhistory : w.history <:+ w'.history) : w'.Knows g :=
  ⟨hlocks ▸ h.1, mem_occurrences_of_suffix (hhistory.filter _) h.2⟩

theorem Knows.leads {g : Grant} (h : w.Knows g) (hl : w.Leads out w' out') : w'.Knows g :=
  h.mono hl.locks hl.history

/-- Who has just been started is known. -/
theorem knows_of_started {g : Grant} {thread : ThreadId} {shown : Option (String × Option State)}
    (hlock : g.lock < w.locks.length) : (w.emit (.started g thread shown)).Knows g := by
  refine ⟨hlock, mem_occurrences.2 ⟨.started g thread shown, ?_, rfl⟩⟩
  simp [journal, emit, Event.lock?]

end World

/-- The lock that a future will ask for access. -/
def Future.lock? : Future → Option LockId
  | .acquire _ => none
  | .run work _ => some work.lock

namespace World

variable {w w' : World}

/-- A future holds a capability that is worth something, and asks a lock that exists. -/
def Supports (w : World) (f : Future) : Prop :=
  (∀ g ∈ f.held, w.Knows g) ∧ ∀ id ∈ f.lock?, id < w.locks.length

theorem Supports.mono {f : Future} (h : w.Supports f) (hlocks : w'.locks.length = w.locks.length)
    (hhistory : w.history <:+ w'.history) : w'.Supports f :=
  ⟨fun g hg => (h.1 g hg).mono hlocks hhistory, fun id hid => hlocks ▸ h.2 id hid⟩

/-- Handles lead to locks, and every capability that is kept anywhere comes from an entry point that
    was started. -/
structure WellFormed (w : World) : Prop where
  handles : ∀ id, some id ∈ w.handles → id < w.locks.length
  store : ∀ entry ∈ w.store, w.Knows entry.2
  owned : ∀ g ∈ w.owned, w.Knows g
  channels : ∀ c ∈ w.channels, ∀ g ∈ c.held, w.Knows g
  futures : ∀ entry ∈ w.futures, w.Supports entry.2

namespace WellFormed

/-- A change that leaves the capabilities where they are. -/
theorem mono (h : w.WellFormed) (hlocks : w'.locks.length = w.locks.length)
    (hhistory : w.history <:+ w'.history) (hhandles : w'.handles = w.handles)
    (hstore : w'.store = w.store) (howned : w'.owned = w.owned)
    (hchannels : w'.channels = w.channels) (hfutures : w'.futures = w.futures) :
    w'.WellFormed where
  -- worthy is who was started on a lock that is there, and neither is taken back
  handles id hid := by
    rw [hlocks]
    exact h.handles id (hhandles ▸ hid)
  store entry he := (h.store entry (hstore ▸ he)).mono hlocks hhistory
  owned g hg := (h.owned g (howned ▸ hg)).mono hlocks hhistory
  channels c hc g hg := (h.channels c (hchannels ▸ hc) g hg).mono hlocks hhistory
  futures entry he := (h.futures entry (hfutures ▸ he)).mono hlocks hhistory

theorem emit (h : w.WellFormed) (e : Event) : (w.emit e).WellFormed :=
  h.mono rfl (List.suffix_cons _ _) rfl rfl rfl rfl rfl

theorem setLock (h : w.WellFormed) (id : LockId) (l : Lock Entry) : (w.setLock id l).WellFormed :=
  h.mono (length_locks_setLock _ _ _) (List.suffix_refl _) rfl rfl rfl rfl rfl

theorem wake (h : w.WellFormed) (waker : Option String) : (w.wake waker).WellFormed := by
  cases waker with
  | none => exact h
  | some future => exact h.emit _

theorem setChannel (h : w.WellFormed) (c : ChannelId) {channel : Channel}
    (hheld : ∀ g ∈ channel.held, w.Knows g) : (w.setChannel c channel).WellFormed :=
  { h with
    channels := by
      intro c' hc'
      rcases List.mem_or_eq_of_mem_set hc' with hc' | rfl
      · exact h.channels c' hc'
      · exact hheld }

theorem newChannel (h : w.WellFormed) : w.newChannel.1.WellFormed :=
  { h with
    channels := by
      intro c hc g hg
      rcases List.mem_append.1 hc with hc | hc
      · exact h.channels c hc g hg
      · rw [List.mem_singleton.1 hc] at hg
        cases hg }

/-- The capability that a channel holds is worth something. -/
theorem knows_of_sent (h : w.WellFormed) {c : ChannelId} {g : Grant}
    (hc : w.channel c = .sent g) : w.Knows g := by
  refine h.channels (.sent g) ?_ g (by simp [Channel.held])
  rw [channel, List.getD_eq_getElem?_getD] at hc
  cases hget : w.channels[c]? with
  | none => simp [hget] at hc
  | some channel =>
    rw [hget, Option.getD_some] at hc
    exact hc ▸ List.mem_of_getElem? hget

theorem putStore (h : w.WellFormed) (name : String) {g : Grant} (hg : w.Knows g) :
    ({ w with store := w.store.put name g } : World).WellFormed :=
  { h with
    store := by
      intro entry he
      rcases Table.eq_or_mem_of_mem_put he with rfl | he
      · exact hg
      · exact h.store entry he }

theorem removeStore (h : w.WellFormed) (name : String) :
    ({ w with store := w.store.remove name } : World).WellFormed :=
  { h with store := fun entry he => h.store entry (Table.mem_of_mem_remove he) }

theorem putFuture (h : w.WellFormed) (name : String) {f : Future} (hf : w.Supports f) :
    ({ w with futures := w.futures.put name f } : World).WellFormed :=
  { h with
    futures := by
      intro entry he
      rcases Table.eq_or_mem_of_mem_put he with rfl | he
      · exact hf
      · exact h.futures entry he }

theorem removeFuture (h : w.WellFormed) (name : String) :
    ({ w with futures := w.futures.remove name } : World).WellFormed :=
  { h with futures := fun entry he => h.futures entry (Table.mem_of_mem_remove he) }

theorem addOwned (h : w.WellFormed) {g : Grant} (hg : w.Knows g) :
    ({ w with owned := g :: w.owned } : World).WellFormed :=
  { h with
    owned := by
      intro g' hg'
      rcases List.mem_cons.1 hg' with rfl | hg'
      · exact hg
      · exact h.owned g' hg' }

theorem eraseOwned (h : w.WellFormed) (g : Grant) :
    ({ w with owned := w.owned.erase g } : World).WellFormed :=
  { h with owned := fun g' hg' => h.owned g' (List.mem_of_mem_erase hg') }

end WellFormed

/-- A handle leads to a lock of the world. -/
theorem WellFormed.lock_lt (h : w.WellFormed) {handle : Nat} {id : LockId}
    (hid : w.lockOf? handle = some id) : id < w.locks.length := by
  refine h.handles id (List.mem_of_getElem? (i := handle) ?_)
  simpa [lockOf?, Option.join_eq_some_iff] using hid

end World

end FairLock
