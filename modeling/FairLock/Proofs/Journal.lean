import FairLock.Machine.World

/-!
# The journal of a lock

The history of a world tells everything that has happened.  Its part about one lock is the journal
of that lock, again with the latest event first.  The journal says which requests were accepted,
which grants were issued and ended, and which entry points were started or handed back uncalled;
no counter and no list inside the lock is consulted for that.

## Main definitions

- `World.journal`: the events about one lock.
- `Journal.accepted`, `Journal.issued`, `Journal.ended`, `Journal.started`, `Journal.handedBack`:
  the grants that the events of one kind name, in the order in which they happened.
- `Journal.held`: the grants that were issued and have not ended.
- `Journal.EachStart`: a property that every entry point met at the moment of its start.
-/

namespace FairLock

/-- The lock that makes a notice. -/
def Notice.lock : Notice → LockId
  | created lock => lock
  | grantedImmediately g _ => g.lock
  | queued g _ _ => g.lock
  | rejected lock _ _ => lock
  | closed g => g.lock
  | slow g => g.lock
  | released g _ _ => g.lock
  | draining lock _ _ _ => lock
  | redundant g => g.lock
  | entryFailed g _ => g.lock

namespace Event

/-- The lock that an event is about, if it is about one. -/
def lock? : Event → Option LockId
  | notice n _ => some n.lock
  | issued g _ => some g.lock
  | started g _ _ => some g.lock
  | discarded (some g) _ => some g.lock
  | _ => none

/-! ## What an event says about a grant -/

/-- The request was granted by its own submission. -/
@[simp] def immediate? : Event → Option Grant
  | notice (.grantedImmediately g _) _ => some g
  | _ => none

/-- The request has to wait. -/
@[simp] def queued? : Event → Option Grant
  | notice (.queued g _ _) _ => some g
  | _ => none

/-- The request was accepted, in either way. -/
@[simp] def accepted? : Event → Option Grant
  | notice (.grantedImmediately g _) _ => some g
  | notice (.queued g _ _) _ => some g
  | _ => none

/-- The grant was issued. -/
@[simp] def issued? : Event → Option Grant
  | issued g _ => some g
  | _ => none

/-- The grant has ended. -/
@[simp] def ended? : Event → Option Grant
  | notice (.released g _ _) _ => some g
  | _ => none

/-- The entry point of the grant was started. -/
@[simp] def started? : Event → Option Grant
  | started g _ _ => some g
  | _ => none

/-- The entry point of the grant was dropped uncalled. -/
@[simp] def handedBack? : Event → Option Grant
  | discarded (some g) _ => some g
  | _ => none

end Event

/-- Events about one lock, the latest first. -/
abbrev Journal := List Event

/-- The events of a world about a lock. -/
def World.journal (w : World) (lock : LockId) : Journal :=
  w.history.filter fun e => e.lock? == some lock

/-- The grants that events pick out, in the order in which they happened. -/
def occurrences (pick : Event → Option Grant) (j : Journal) : List Grant :=
  (j.filterMap pick).reverse

@[simp] theorem occurrences_nil (pick : Event → Option Grant) : occurrences pick [] = [] := rfl

@[simp] theorem occurrences_cons (pick : Event → Option Grant) (e : Event) (j : Journal) :
    occurrences pick (e :: j) = occurrences pick j ++ (pick e).toList := by
  unfold occurrences
  cases h : pick e <;> simp [h]

@[simp] theorem occurrences_append (pick : Event → Option Grant) (new j : Journal) :
    occurrences pick (new ++ j) = occurrences pick j ++ occurrences pick new := by
  simp [occurrences]

theorem mem_occurrences {pick : Event → Option Grant} {j : Journal} {g : Grant} :
    g ∈ occurrences pick j ↔ ∃ e ∈ j, pick e = some g := by
  simp [occurrences]

/-- What was true of an earlier journal stays recorded. -/
theorem mem_occurrences_of_suffix {pick : Event → Option Grant} {before j : Journal} {g : Grant}
    (h : before <:+ j) (hg : g ∈ occurrences pick before) : g ∈ occurrences pick j := by
  obtain ⟨e, he, hpick⟩ := mem_occurrences.1 hg
  exact mem_occurrences.2 ⟨e, h.subset he, hpick⟩

/-- Events that a batch of issued grants leaves behind. -/
theorem occurrences_issued (grants : List Grant) (parent : Option Grant) :
    occurrences Event.issued? (grants.map fun g => Event.issued g parent).reverse = grants := by
  simp only [occurrences, List.filterMap_reverse, List.reverse_reverse, List.filterMap_map]
  exact List.filterMap_some

/-! ## What is still held -/

/-- The issued grants that are not among the ended ones, in order. -/
def stillHeld (issued ended : List Grant) : List Grant := issued.filter fun g => g ∉ ended

section StillHeld

variable {issued ended : List Grant} {g : Grant}

@[simp] theorem mem_stillHeld : g ∈ stillHeld issued ended ↔ g ∈ issued ∧ g ∉ ended := by
  simp [stillHeld]

theorem stillHeld_nodup (h : issued.Nodup) : (stillHeld issued ended).Nodup := h.filter _

theorem stillHeld_issue {new : List Grant} (h : ∀ g ∈ new, g ∉ ended) :
    stillHeld (issued ++ new) ended = stillHeld issued ended ++ new := by
  have hnew : (new.filter fun g => g ∉ ended) = new := by
    rw [List.filter_eq_self]
    simpa using h
  simp only [stillHeld, List.filter_append, hnew]

theorem stillHeld_end (h : issued.Nodup) (g : Grant) :
    stillHeld issued (ended ++ [g]) = (stillHeld issued ended).erase g := by
  -- nothing is held twice, so erasing an element is filtering it out
  rw [List.Nodup.erase_eq_filter (stillHeld_nodup h)]
  unfold stillHeld
  rw [List.filter_filter]
  refine List.filter_congr ?_
  intro x _
  by_cases hx : x = g <;> simp [hx]

end StillHeld

namespace Journal

/-- The accepted requests, in the order of submission. -/
abbrev accepted (j : Journal) : List Grant := occurrences Event.accepted? j

/-- The requests that were granted by their own submission. -/
abbrev immediate (j : Journal) : List Grant := occurrences Event.immediate? j

/-- The requests that had to wait. -/
abbrev queued (j : Journal) : List Grant := occurrences Event.queued? j

/-- The grants in the order in which they were issued. -/
abbrev issued (j : Journal) : List Grant := occurrences Event.issued? j

/-- The grants that have ended, in that order. -/
abbrev ended (j : Journal) : List Grant := occurrences Event.ended? j

/-- The grants whose entry points were started, in that order. -/
abbrev started (j : Journal) : List Grant := occurrences Event.started? j

/-- The grants whose entry points were dropped uncalled after a hand-back. -/
abbrev handedBack (j : Journal) : List Grant := occurrences Event.handedBack? j

/-- The grants that were issued and have not ended, the oldest first. -/
abbrev held (j : Journal) : List Grant := stillHeld j.issued j.ended

/-- A request is accepted either on the spot or into the queue. -/
theorem accepted_perm (j : Journal) : j.accepted.Perm (j.immediate ++ j.queued) := by
  induction j with
  | nil => exact .refl _
  | cons e j ih =>
    -- what the event adds to the immediate ones has to pass the ones that were queued before
    have swap : ∀ a b c d : List Grant, (a ++ b ++ (c ++ d)).Perm (a ++ c ++ (b ++ d)) := by
      intro a b c d
      simpa [List.append_assoc] using
        ((List.perm_append_comm_assoc b c d).append_left a)
    simp only [occurrences_cons]
    refine (ih.append_right _).trans ?_
    refine List.Perm.trans ?_ (swap _ _ _ _)
    refine List.Perm.append_left _ ?_
    -- now one event at a time: an event accepts in one way at most
    rcases e with n | _ | _ | _ | _ | _ | _ | _ | _ | _
    all_goals first
      | exact .refl _
      | cases n <;> exact .refl _

/-- The entry point of the grant was started, after the events of an earlier journal. -/
def StartedAfter (j : Journal) (before : Journal) (g : Grant) : Prop :=
  ∃ thread shown, (Event.started g thread shown :: before) <:+ j

/-- Every entry point met a property at the moment of its start: a property of its grant and of
    the journal up to then. -/
def EachStart (P : Grant → Journal → Prop) (j : Journal) : Prop :=
  ∀ g before, j.StartedAfter before g → P g before

section Starts

variable {P Q : Grant → Journal → Prop} {j before : Journal} {g : Grant}

theorem StartedAfter.suffix (h : j.StartedAfter before g) : before <:+ j := by
  obtain ⟨thread, shown, hs⟩ := h
  exact (List.suffix_cons _ _).trans hs

theorem StartedAfter.mem_started (h : j.StartedAfter before g) : g ∈ j.started := by
  obtain ⟨thread, shown, hs⟩ := h
  exact mem_occurrences_of_suffix hs (by simp)

theorem exists_startedAfter (hg : g ∈ j.started) : ∃ before, j.StartedAfter before g := by
  obtain ⟨e, he, hstart⟩ := mem_occurrences.1 hg
  obtain ⟨after, before, rfl⟩ := List.append_of_mem he
  cases e with
  | started g' thread shown =>
    cases hstart
    exact ⟨before, thread, shown, List.suffix_append _ _⟩
  | _ => simp at hstart

/-- Of two starts one came first. -/
theorem StartedAfter.or {g' : Grant} {before' : Journal} (h : j.StartedAfter before g)
    (h' : j.StartedAfter before' g') (hne : g ≠ g') :
    before'.StartedAfter before g ∨ before.StartedAfter before' g' := by
  obtain ⟨thread, shown, hs⟩ := h
  obtain ⟨thread', shown', hs'⟩ := h'
  -- of two suffixes of one journal the shorter is a suffix of the longer
  rcases List.suffix_or_suffix_of_suffix hs hs' with hle | hle
  · rcases List.suffix_cons_iff.1 hle with heq | hle
    · cases heq
      exact absurd rfl hne
    · exact .inl ⟨thread, shown, hle⟩
  · rcases List.suffix_cons_iff.1 hle with heq | hle
    · cases heq
      exact absurd rfl hne
    · exact .inr ⟨thread', shown', hle⟩

theorem EachStart.nil : EachStart P [] := by
  rintro g before ⟨thread, shown, h⟩
  cases List.suffix_nil.1 h

theorem EachStart.cons {e : Event} (h : EachStart P j)
    (he : ∀ g thread shown, e = .started g thread shown → P g j) : EachStart P (e :: j) := by
  rintro g before ⟨thread, shown, hs⟩
  rcases List.suffix_cons_iff.1 hs with heq | hs
  · cases heq
    exact he g thread shown rfl
  · exact h g before ⟨thread, shown, hs⟩

/-- Events that start nothing change nothing. -/
theorem EachStart.append {new : Journal} (h : EachStart P j) (hnew : new.started = []) :
    EachStart P (new ++ j) := by
  induction new with
  | nil => exact h
  | cons e new ih =>
    rw [started, occurrences_cons, List.append_eq_nil_iff] at hnew
    refine (ih hnew.1).cons ?_
    rintro g thread shown rfl
    simp at hnew

theorem EachStart.mono (h : EachStart P j) (hPQ : ∀ g before, P g before → Q g before) :
    EachStart Q j := by
  intro g before hs
  exact hPQ g before (h g before hs)

end Starts

end Journal

end FairLock
