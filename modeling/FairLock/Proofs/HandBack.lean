import FairLock.Proofs.Abandonment
import FairLock.Proofs.Machine.Threads

/-!
# Unwound loops

A panic that leaves the loop of a thread finds granted requests on the run list that nobody is going
to start.  The run list is taken away first; then the grants on it are ended one after the other,
and the entry points dropped.  All of them were held together, so only the end of the last one can
free the lock.  What is drained then finds no run list, and a new loop starts it right there, inside
the cleaning up; when that is done nothing of the lock is left on any run list.

## Main definitions

- `Machine.handing`, `Machine.dropping`: the machine while it cleans up.
- `Machine.LeavesLoop`: a panic leaves a loop.

## Main statements

- `World.endGrant_held`: the end of a grant that is held, next to others or alone.
- `Machine.Reachable.handedBack`: one grant after the other.
- `unwound_loop_strands_nothing`: what is true when the cleaning up is done.
-/

namespace FairLock

namespace World

variable {w : World} {g : Grant} {id : LockId}

/-- Ending a grant that is held is recorded as that.  If others are held, nothing is drained. -/
theorem endGrant_held (hid : id < w.locks.length)
    (hb : Balanced id (w.lock id) (w.journal id).accepted (w.journal id).issued
      (w.journal id).ended) (hg : g ∈ (w.journal id).held) :
    ((w.endGrant g).world.journal id).ended = (w.journal id).ended ++ [g] ∧
      ∀ g' ∈ (w.journal id).held, g' ≠ g → (w.endGrant g).frames = [] := by
  have hissued := (mem_stillHeld.1 hg).1
  obtain rfl : g.lock = id := hb.own g (hb.issued_sublist.subset hissued)
  have hunended : w.isUnended g = true := (hb.isUnended_iff hissued).2 hg
  rw [endGrant, if_pos hunended]
  cases hrelease : (w.lock g.lock).release g.id g.mode with
  | mk l batch =>
    obtain ⟨hworld, -⟩ := endUnended_eq hid hrelease
    constructor
    · have hdrain : occurrences Event.ended?
          (drainEvents g.lock batch l.pending (currentSpan w.entered) w.entered) = [] :=
        (Ledger.issues_drainEvents _ _ _ _ _).ended
      have hhold : occurrences Event.ended?
          [.notice ((w.lock g.lock).holdNotice g) (g :: w.entered)] = [] :=
        (Ledger.issues_holdNotice _ _ _).ended
      rw [(views_endUnended hid hrelease).1.2, Journal.ended, occurrences_append, occurrences_append,
        hdrain, occurrences_cons, hhold]
      simp
    · intro g' hg' hne
      -- what is still held keeps the lock from being freed
      have hbatch : batch = [] := by
        rcases Lock.release_cases hrelease with ⟨-, hbatch, -⟩ | ⟨hfree, -, -⟩
        · exact hbatch
        · have hnone := hb.ended_of_freed hg hfree
          have hstill : g' ∈ stillHeld (w.journal g.lock).issued
              ((w.journal g.lock).ended ++ [g]) := by
            have := mem_stillHeld.1 hg'
            simpa [hne] using this
          rw [hnone] at hstill
          cases hstill
      have hlock : (w.reportHold g).lock g.lock = w.lock g.lock := rfl
      subst hbatch
      simp [endUnended, hlock, hrelease]

end World

namespace Machine

variable {m m' x : Machine}

/-! ## Handing grants back -/

/-- The drop of an entry is recorded. -/
theorem Drops.mem_handedBack {g : Grant} {entry : Entry} (h : m.Drops g entry) :
    g ∈ (m.step.world.journal g.lock).handedBack := by
  cases h with
  | @mk w g entry below reply =>
    obtain ⟨tag, hjournal, -⟩ := w.journal_discard g entry
    have hstep : (step ⟨w, .discarding g entry :: below, .returned reply⟩).world.journal g.lock =
        .discarded (some g) tag :: w.journal g.lock := hjournal
    rw [hstep]
    simp

/-- An unwound loop is handing back what was left on its run list. -/
abbrev handing (w : World) (lock : LockId) (items : List (Request Entry)) (tail : List Frame)
    (reply : Reply) : Machine :=
  ⟨w, .handingBack lock items :: tail, .returned reply⟩

/-- One of the grants has ended, and its entry point is dropped next. -/
abbrev dropping (w : World) (lock : LockId) (r : Request Entry) (items : List (Request Entry))
    (tail : List Frame) (reply : Reply) : Machine :=
  ⟨w, .discarding (r.grant lock) r.payload :: .handingBack lock items :: tail, .returned reply⟩

/-- The loop that was unwound is done with a request: its entry point was dropped on the way. -/
def DropsOnTheWay (m m' : Machine) (g : Grant) (entry : Entry) : Prop :=
  ∃ x : Machine, x.Drops g entry ∧ m.Steps x ∧ x.ComesTo m'

section HandingBack

variable {w : World} {lock : LockId} {r : Request Entry} {items : List (Request Entry)}
  {tail : List Frame} {reply : Reply}

/-- Once the end of a grant is worked off, its entry point is dropped, and the next grant is
    handed back.  No panic has left what was worked off: it would never have come to the end. -/
theorem ComesTo.drop {above : List Frame} (h : m.ComesTo m')
    (hm : m.frames = above ++
      (.discarding (r.grant lock) r.payload :: .handingBack lock items :: tail))
    (hm' : m'.frames = tail) (hreturned : ∃ reply, m'.control = .returned reply) :
    ∃ (v : World) (reply : Reply), m.ComesTo (dropping v lock r items tail reply) ∧
      (dropping v lock r items tail reply).ComesTo m' := by
  obtain ⟨last, hlast⟩ := hreturned
  subst hm'
  have hsplit : m.frames = above ++
      ([.discarding (r.grant lock) r.payload, .handingBack lock items] ++ m'.frames) := hm
  obtain ⟨⟨v, frames, control⟩, hframes, hdown, hrest⟩ := h.split hsplit
  obtain rfl : frames = _ := hframes
  cases control with
  | returned reply => exact ⟨v, reply, hdown, hrest⟩
  | aborted =>
    have hnot := hrest.not_aborted (by rw [hlast]; simp)
    exact absurd rfl hnot
  | unwinding fault =>
    -- the fault passes both frames and meets the one that waits below
    have hfirst : Frame.discarding (r.grant lock) r.payload :: .handingBack lock items ::
        m'.frames = .discarding (r.grant lock) r.payload :: [.handingBack lock items] ++
          m'.frames := rfl
    have hsecond : Frame.handingBack lock items :: m'.frames =
        .handingBack lock items :: [] ++ m'.frames := rfl
    have hpassed : ComesTo ⟨v, m'.frames, .unwinding fault⟩ m' :=
      (hrest.next hfirst).next hsecond
    have hsame := hpassed.eq_of_frames rfl
    rw [← hsame] at hlast
    cases hlast

/-- The first grant is ended, and its entry point is about to be dropped.  If others are held, that
    is all that has happened to the grants of the lock. -/
theorem Reachable.comesTo_dropping (h : (handing w lock (r :: items) tail reply).Reachable)
    (hc : (handing w lock (r :: items) tail reply).ComesTo m')
    (hm' : m'.frames = tail) (hreturned : ∃ reply, m'.control = .returned reply)
    (hheld : r.grant lock ∈ (w.journal lock).held) :
    ∃ (v : World) (reply' : Reply) (between : List Grant),
      (handing w lock (r :: items) tail reply).Steps (dropping v lock r items tail reply') ∧
      (dropping v lock r items tail reply').ComesTo m' ∧
      (v.journal lock).ended = (w.journal lock).ended ++ [r.grant lock] ++ between ∧
      ∀ g ∈ (w.journal lock).held, g ≠ r.grant lock → between = [] := by
  -- the two frames that may lie so are the one for a lock that is there
  have hid : lock < w.locks.length := by
    cases h.exists_ledger.1.stack with
    | frame hf _ => exact hf.elim
    | handingBack hlock _ => exact hlock
  obtain ⟨hended, hquiet⟩ := World.endGrant_held hid (h.balanced lock) hheld
  -- with nobody waiting in between, the next step hands the first one back
  have hfirst : ComesTo (ofMove (w.handBack lock (r :: items)) tail) m' := by
    have hcovered : Frame.handingBack lock (r :: items) :: tail =
        .handingBack lock (r :: items) :: [] ++ m'.frames := by rw [hm']; rfl
    exact hc.next hcovered
  have hreach : Reachable (ofMove (w.handBack lock (r :: items)) tail) :=
    h.reaches (.single (.step _))
  have hframes : (ofMove (w.handBack lock (r :: items)) tail).frames =
      (w.endGrant (r.grant lock)).frames ++
        (.discarding (r.grant lock) r.payload :: .handingBack lock items :: tail) := by
    simp [ofMove, World.handBack, Request.grant]
  -- the run to the end comes down to the frame that drops the entry point
  obtain ⟨v, reply', hdown, hrest⟩ := hfirst.drop hframes hm' hreturned
  obtain ⟨between, hbetween⟩ := hreach.occurrences_append hdown.reaches Event.ended? lock
  have hway : (handing w lock (r :: items) tail reply).Steps
      (dropping v lock r items tail reply') :=
    Steps.head (m := handing w lock (r :: items) tail reply) hdown.steps
  refine ⟨v, reply', between, hway, hrest, hended ▸ hbetween, ?_⟩
  intro g hg hne
  -- others are held, so the end of this grant has put nothing on the stack
  rw [hquiet g hg hne, List.nil_append] at hframes
  have hsame := hdown.eq_of_frames hframes
  rw [hsame] at hbetween
  simpa using hbetween

/-- So the other grants are still held, and only the end of the last one drains anything. -/
theorem Reachable.handBack_cons (h : (handing w lock (r :: items) tail reply).Reachable)
    (hc : (handing w lock (r :: items) tail reply).ComesTo m')
    (hm' : m'.frames = tail) (hreturned : ∃ reply, m'.control = .returned reply)
    (hnodup : ((r :: items).map (Request.grant lock)).Nodup)
    (hheld : ∀ r' ∈ r :: items, r'.grant lock ∈ (w.journal lock).held) :
    ∃ (v : World) (reply' : Reply) (between : List Grant),
      (handing w lock (r :: items) tail reply).Steps (dropping v lock r items tail reply') ∧
      (dropping v lock r items tail reply').ComesTo m' ∧
      (v.journal lock).ended = (w.journal lock).ended ++ [r.grant lock] ++ between ∧
      (items ≠ [] → between = []) ∧
      ∀ r' ∈ items, r'.grant lock ∈ (v.journal lock).held := by
  obtain ⟨v, reply', between, hway, hrest, hended, hquiet⟩ :=
    h.comesTo_dropping hc hm' hreturned (hheld r (by simp))
  rw [List.map_cons, List.nodup_cons] at hnodup
  -- the other grants have other numbers, so each of them was held before the first one ended
  have hothers : ∀ r' ∈ items, r'.grant lock ≠ r.grant lock ∧ between = [] := by
    intro r' hr'
    have hne : r'.grant lock ≠ r.grant lock := fun heq =>
      hnodup.1 (heq ▸ List.mem_map_of_mem hr')
    exact ⟨hne, hquiet _ (hheld r' (by simp [hr'])) hne⟩
  refine ⟨v, reply', between, hway, hrest, hended, ?_, ?_⟩
  · intro hitems
    obtain ⟨r', hr'⟩ := List.exists_mem_of_ne_nil items hitems
    exact (hothers r' hr').2
  · intro r' hr'
    obtain ⟨hne, hnil⟩ := hothers r' hr'
    -- what is still to be handed back was issued and has not ended on the way
    obtain ⟨hissued, hnot⟩ := mem_stillHeld.1 (hheld r' (by simp [hr']))
    refine mem_stillHeld.2 ⟨h.mem_occurrences hway.reaches hissued, ?_⟩
    rw [hended, hnil]
    simpa [hne] using hnot

/-- The grants end in the order of the list, and every entry point is dropped. -/
theorem Reachable.handedBack (h : (handing w lock items tail reply).Reachable)
    (hc : (handing w lock items tail reply).ComesTo m')
    (hm' : m'.frames = tail) (hreturned : ∃ reply, m'.control = .returned reply)
    (hnodup : (items.map (Request.grant lock)).Nodup)
    (hheld : ∀ r ∈ items, r.grant lock ∈ (w.journal lock).held) :
    (∃ more, (m'.world.journal lock).ended =
      (w.journal lock).ended ++ items.map (Request.grant lock) ++ more) ∧
    ∀ r ∈ items, (handing w lock items tail reply).DropsOnTheWay m' (r.grant lock) r.payload := by
  induction items generalizing w reply with
  | nil =>
    refine ⟨?_, by simp⟩
    obtain ⟨more, hmore⟩ := h.occurrences_append hc.reaches Event.ended? lock
    exact ⟨more, by simpa using hmore⟩
  | cons r items ih =>
    obtain ⟨v, reply', between, hdrop, hrest, hended, hquiet, hothers⟩ :=
      h.handBack_cons hc hm' hreturned hnodup hheld
    -- the drop changes nothing for the others
    obtain ⟨tag, hjournal, -⟩ := v.journal_discard (r.grant lock) r.payload
    have hjournal' : (v.discard (some (r.grant lock)) r.payload).journal lock =
        .discarded (some (r.grant lock)) tag :: v.journal lock := hjournal
    have hnext : (handing (v.discard (some (r.grant lock)) r.payload) lock items tail
        .nothing).ComesTo m' := by
      have hcovered : Frame.discarding (r.grant lock) r.payload :: .handingBack lock items ::
          tail = .discarding (r.grant lock) r.payload :: [.handingBack lock items] ++
            m'.frames := by rw [hm']; rfl
      exact hrest.next hcovered
    have hstep : (handing w lock (r :: items) tail reply).Steps
        (handing (v.discard (some (r.grant lock)) r.payload) lock items tail .nothing) :=
      hdrop.trans (Steps.head (.refl _))
    obtain ⟨⟨more, hmore⟩, hdrops⟩ := ih (h.reaches hstep.reaches) hnext
      (List.nodup_cons.1 hnodup).2 (by simpa [hjournal'] using hothers)
    constructor
    · have hsame : ((v.discard (some (r.grant lock)) r.payload).journal lock).ended =
          (v.journal lock).ended := by simp [hjournal']
      refine ⟨between ++ more, ?_⟩
      rw [hmore, hsame, hended]
      -- what else has ended in between comes after the last one
      cases items with
      | nil => simp
      | cons r' items => simp [hquiet (by simp)]
    · intro r' hr'
      rcases List.mem_cons.1 hr' with rfl | hr'
      · exact ⟨_, .mk, hdrop, hrest⟩
      · obtain ⟨x, hx, hway, hx'⟩ := hdrops r' hr'
        exact ⟨x, hx, hstep.trans hway, hx'⟩

end HandingBack

end Machine

/-! ## Run lists -/

namespace Lock

variable {α : Type} {l : Lock α} {thread : ThreadId}

/-- The run list of a thread is the one that is found for it. -/
theorem deferredOn_of_mem (hthreads : (l.runLists.map (·.thread)).Nodup) {run : RunList α}
    (hrun : run ∈ l.runLists) : l.deferredOn run.thread = run.deferred := by
  obtain ⟨before, deferred, after, hl, hb⟩ := exists_focus ⟨run, hrun, rfl⟩
  rw [deferredOn, hl, find?_focus hb]
  rw [hl, List.map_append, List.map_cons, List.nodup_append, List.nodup_cons] at hthreads
  rw [hl, List.mem_append, List.mem_cons] at hrun
  rcases hrun with hrun | hrun | hrun
  · exact absurd rfl (hb run hrun)
  · rw [hrun]
  · exact absurd (List.mem_map_of_mem hrun) hthreads.2.1.1

/-- All that is deferred lies with one thread, so if that thread has something, no other has. -/
theorem deferredOn_of_oneThread (hone : OneThread l.runLists) (h : l.deferredOn thread ≠ [])
    {t : ThreadId} (ht : t ≠ thread) : l.deferredOn t = [] := by
  obtain ⟨owner, howner⟩ := hone
  -- a thread that is not the owner finds nothing on its list, whether it has one or not
  have hempty : ∀ t, t ≠ owner → l.deferredOn t = [] := by
    intro t ht
    unfold deferredOn
    split
    · rfl
    · rename_i run hrun
      have hthread : run.thread = t := by simpa using List.find?_some hrun
      exact howner run (List.mem_of_find?_eq_some hrun) (hthread ▸ ht)
  have hthread : thread = owner := by
    by_contra hne
    exact h (hempty thread hne)
  exact hempty t (hthread ▸ ht)

/-- Closing leaves the lists of the other threads as they are. -/
theorem runLists_close (hthreads : (l.runLists.map (·.thread)).Nodup) (thread : ThreadId) :
    (l.close thread).1.runLists = l.runLists.filter fun run => run.thread ≠ thread := by
  rcases l.close_cases thread with ⟨before, deferred, after, hb, hl, he⟩ | ⟨hnone, he⟩
  -- the thread has one list, and what lies around it is of other threads
  · rw [hl, List.map_append, List.map_cons, List.nodup_append, List.nodup_cons] at hthreads
    have hafter : NoneOf thread after := fun run hrun ht =>
      hthreads.2.1.1 (List.mem_map.2 ⟨run, hrun, ht⟩)
    have hkept : ∀ runs : List (RunList α), NoneOf thread runs →
        (runs.filter fun run => run.thread ≠ thread) = runs := by
      intro runs hruns
      rw [List.filter_eq_self]
      intro run hrun
      simpa using hruns run hrun
    rw [he, hl, List.filter_append, List.filter_cons, hkept before hb, hkept after hafter]
    simp
  · rw [he, eq_comm, List.filter_eq_self]
    intro run hrun
    simpa using hnone run hrun

end Lock

namespace Machine

variable {m m' : Machine}

/-- A panic leaves the loop of the running thread for a lock, above the given stack. -/
inductive LeavesLoop : Machine → World → LockId → Fault → List Frame → Prop where
  | mk {w : World} {lock : LockId} {outcome : Option Reply} {below : List Frame} {fault : Fault} :
      LeavesLoop ⟨w, .dispatching lock outcome :: below, .unwinding fault⟩ w lock fault below

namespace LeavesLoop

variable {w : World} {lock : LockId} {fault : Fault} {below : List Frame}

/-- The run list is taken away before anything else is done. -/
theorem step_eq (hl : m.LeavesLoop w lock fault below) :
    m.step = ⟨w.setLock lock ((w.lock lock).close w.thread).1,
      .handingBack lock ((w.lock lock).deferredOn w.thread) :: .rethrowing fault :: below,
      .returned .nothing⟩ := by
  cases hl
  rfl

/-- Nothing else can happen next. -/
theorem eq_or_reaches (hl : m.LeavesLoop w lock fault below) {x : Machine} (hx : Reaches m x) :
    x = m ∨ Reaches m.step x := by
  refine hx.eq_or_step ?_
  cases hl
  simp

theorem lock_lt (hl : m.LeavesLoop w lock fault below) (h : m.Reachable) :
    lock < w.locks.length := by
  cases hl
  cases h.exists_ledger.1.stack with
  | frame hf _ => exact hf

theorem looped (hl : m.LeavesLoop w lock fault below) (h : m.Reachable) :
    ∃ outcome, w.Looped (.dispatching lock outcome :: below) := by
  cases hl
  exact ⟨_, h.looped⟩

/-- When the cleaning up is done, the thread has no run list, and the other threads have theirs. -/
theorem lists (hl : m.LeavesLoop w lock fault below) (h : m.Reachable)
    (hc : m.step.ComesTo m') (hm' : m'.frames = .rethrowing fault :: below) :
    (m'.world.lock lock).isDispatching w.thread = false ∧
      ∀ t, t ≠ w.thread →
        (m'.world.lock lock).isDispatching t = (w.lock lock).isDispatching t ∧
          (m'.world.lock lock).deferredOn t = (w.lock lock).deferredOn t := by
  have hstep : m.step.Reachable := h.reaches (.single (.step _))
  have habove : m.step.frames =
      [.handingBack lock ((w.lock lock).deferredOn w.thread)] ++ m'.frames := by
    rw [hm', hl.step_eq]
    rfl
  obtain ⟨hthread, hkept⟩ := hc.same_thread hstep habove (by simp [Frame.isPlain])
  rw [hl.step_eq] at hthread hkept
  have hthread' : m'.world.thread = w.thread := hthread
  -- the loops of the lock are those that are still on the stack
  obtain ⟨outcome, hbefore⟩ := hl.looped h
  obtain ⟨hgone, -⟩ := List.nodup_cons.1 hbefore.once
  have hafter := (hstep.reaches hc.reaches).looped
  have hlists : ∀ t, (m'.world.lock lock).isDispatching t = true ↔
      (t, lock) ∈ loopsOf w.thread below := by
    intro t
    rw [hafter.lists, hm', hthread']
    rfl
  refine ⟨?_, ?_⟩
  · rw [Bool.eq_false_iff, Ne, hlists]
    exact hgone
  · intro t ht
    have hloop : (m'.world.lock lock).isDispatching t = (w.lock lock).isDispatching t := by
      rw [Bool.eq_iff_iff, hlists, hbefore.lists]
      simp [loopsOf, ht]
    refine ⟨hloop, ?_⟩
    by_cases hold : t < w.threads
    · rw [hkept t ht hold lock]
      exact World.deferredOn_setLock (hl.lock_lt h) (Lock.deferredOn_close _ ht) lock
    · -- a thread that was not started yet had no loop
      have hidle : (w.lock lock).isDispatching t = false := by
        rw [Bool.eq_false_iff, Ne, hbefore.lists]
        intro hmem
        cases hl
        exact hold ((h.threadsOn.of_loop hmem).elim id id)
      rw [Lock.deferredOn_of_not_isDispatching hidle]
      exact Lock.deferredOn_of_not_isDispatching (hloop.trans hidle)

/-- Then nothing of the lock is deferred any more, if the loop has left anything. -/
theorem nothing_deferred (hl : m.LeavesLoop w lock fault below) (h : m.Reachable)
    (hc : m.step.ComesTo m') (hm' : m'.frames = .rethrowing fault :: below)
    (hleft : (w.lock lock).deferredOn w.thread ≠ []) :
    deferredIn (m'.world.lock lock).runLists = [] := by
  obtain ⟨hgone, hothers⟩ := hl.lists h hc hm'
  have hm'reach : m'.Reachable := h.reaches (.head (.step m) hc.reaches)
  obtain ⟨out, -, hsound⟩ := h.sound lock
  -- the loop was left with something, so the owner of what is deferred is its thread
  have hone : OneThread (w.lock lock).runLists := by
    cases hl
    exact hsound.oneThread
  refine deferredIn_eq_nil ?_
  intro run hrun
  -- its own list is closed by now, so whatever list is left is of another thread
  have hne : run.thread ≠ w.thread := by
    intro heq
    have hloop := Lock.isDispatching_eq_true_iff.2 ⟨run, hrun, heq⟩
    exact Bool.false_ne_true (hgone.symm.trans hloop)
  rw [← Lock.deferredOn_of_mem (hm'reach.threads_nodup lock) hrun, (hothers _ hne).2]
  exact Lock.deferredOn_of_oneThread hone hleft hne

/-! ## Grants -/

/-- What the loop has left is held, and in order. -/
theorem left_held (hl : m.LeavesLoop w lock fault below) (h : m.Reachable) :
    (((w.lock lock).deferredOn w.thread).map (Request.grant lock)).Nodup ∧
      ∀ r ∈ (w.lock lock).deferredOn w.thread, r.grant lock ∈ (w.journal lock).held := by
  obtain ⟨out, -, hsound⟩ := h.sound lock
  cases hl
  have hsub : (((w.lock lock).deferredOn w.thread).map (Request.grant lock)).Sublist
      ((w.ledger out lock).deferred lock) :=
    ((w.lock lock).deferredOn_sublist w.thread).map _
  refine ⟨(hsound.sorted.sublist hsub).imp fun hlt heq => by simp [heq] at hlt, ?_⟩
  intro r hr
  exact hsound.held_of_deferred (hsub.subset (List.mem_map_of_mem hr))

/-- None of them is ever started. -/
theorem never_started (hl : m.LeavesLoop w lock fault below) (h : m.Reachable)
    {r : Request Entry} (hr : r ∈ (w.lock lock).deferredOn w.thread) {x : Machine}
    (hx : Reaches m x) : r.grant lock ∉ (x.world.journal lock).started := by
  have hreach : m.step.Reachable := h.reaches (.single (.step _))
  have hjournal : m.step.world.journal lock = w.journal lock := by
    rw [hl.step_eq]
    rfl
  obtain ⟨hok, out, hholds, hledger⟩ := hreach.exists_ledger
  -- after the step the grant is with the frame that cleans up
  have htaken : r.grant lock ∈ (m.step.world.ledger out lock).out := by
    rw [hholds (by rw [hl.step_eq]; rfl), hl.step_eq]
    refine List.mem_filter.2 ⟨?_, by simp⟩
    simp only [Machine.out, outOf_cons, Frame.out, List.mem_append]
    exact .inl (List.mem_map_of_mem hr)
  have hafter : ∀ y, Reaches m.step y → r.grant lock ∉ (y.world.journal lock).started := by
    intro y hy
    obtain ⟨-, out', hleads, -⟩ := hok.reaches hy hholds
    have hrun := hleads.run lock
    exact ((hledger lock).run hrun).sound.not_started_of_takenOut (hrun.takenOut (.inl htaken))
  rcases hl.eq_or_reaches hx with rfl | hx
  · -- the step itself starts nothing
    have hnot := hafter x.step .refl
    rw [hjournal] at hnot
    cases hl
    exact hnot
  · exact hafter x hx

/-- All of them are ended, one after the other, and then dropped uncalled. -/
theorem handedBack (hl : m.LeavesLoop w lock fault below) (h : m.Reachable)
    (hc : m.step.ComesTo m') (hm' : m'.frames = .rethrowing fault :: below)
    (hreturned : ∃ reply, m'.control = .returned reply) :
    (∃ more, (m'.world.journal lock).ended = (w.journal lock).ended ++
      ((w.lock lock).deferredOn w.thread).map (Request.grant lock) ++ more) ∧
    ∀ r ∈ (w.lock lock).deferredOn w.thread,
      m.step.DropsOnTheWay m' (r.grant lock) r.payload := by
  obtain ⟨hnodup, hheld⟩ := hl.left_held h
  have hstep : m.step.Reachable := h.reaches (.single (.step _))
  rw [hl.step_eq] at hc hstep ⊢
  exact hstep.handedBack hc hm' hreturned hnodup hheld

theorem dropped (hl : m.LeavesLoop w lock fault below) (h : m.Reachable)
    (hc : m.step.ComesTo m') (hm' : m'.frames = .rethrowing fault :: below)
    (hreturned : ∃ reply, m'.control = .returned reply) {r : Request Entry}
    (hr : r ∈ (w.lock lock).deferredOn w.thread) :
    r.grant lock ∈ (m'.world.journal lock).handedBack := by
  obtain ⟨y, hdrops, hway, hrest⟩ := (hl.handedBack h hc hm' hreturned).2 r hr
  -- the drop is recorded, and the record is still there when the cleaning up is done
  have hy : y.step.Reachable := h.reaches ((Relation.ReflTransGen.head (.step m)
    hway.reaches).tail (.step y))
  rcases hdrops.eq_or_reaches hrest.reaches with rfl | hdone
  · cases hdrops
    cases hm'
  · exact hy.mem_occurrences hdone hdrops.mem_handedBack

/-- Whoever is granted in the course of that is started or handed back by the end. -/
theorem granted_served (hl : m.LeavesLoop w lock fault below) (h : m.Reachable)
    (hc : m.step.ComesTo m') (hm' : m'.frames = .rethrowing fault :: below)
    (hreturned : ∃ reply, m'.control = .returned reply) {g : Grant}
    (hg : g ∈ (m'.world.journal lock).issued) (hnew : g ∉ (w.journal lock).issued) :
    g ∈ (m'.world.journal lock).started ∨ g ∈ (m'.world.journal lock).handedBack := by
  have hstep : m.step.Reachable := h.reaches (.single (.step _))
  have hm'reach : m'.Reachable := hstep.reaches hc.reaches
  by_cases hleft : (w.lock lock).deferredOn w.thread = []
  · -- nothing was left, so nothing has happened
    have hbare : ComesTo ⟨w.setLock lock ((w.lock lock).close w.thread).1,
        .rethrowing fault :: below, .returned .nothing⟩ m' := by
      rw [hl.step_eq, hleft] at hc
      have hcovered : Frame.handingBack lock [] :: .rethrowing fault :: below =
          .handingBack lock [] :: [] ++ m'.frames := by rw [hm']; rfl
      exact hc.next hcovered
    have hsame := hbare.eq_of_frames hm'.symm
    rw [← hsame] at hg
    exact absurd hg hnew
  · have hnone := hl.nothing_deferred h hc hm' hleft
    obtain ⟨reply, hreply⟩ := hreturned
    obtain ⟨out, hholds, hsound⟩ := hm'reach.sound lock
    have hrunning : m'.isAborting = false := by simp [isAborting, hreply]
    have hplace := hsound.places.mem_iff.1 hg
    simp only [Ledger.deferred, World.ledger, hnone, List.map_nil, List.append_nil,
      List.mem_append] at hplace
    rcases hplace with (hstarted | hout) | hback
    · exact .inl hstarted
    · -- what an outer loop has left was issued before
      rw [hholds hrunning, Machine.out, hm'] at hout
      obtain ⟨outer, houter, hbefore⟩ := h.sound lock
      cases hl
      have hmem : g ∈ (World.ledger w outer lock).out := by
        rw [houter rfl]
        exact hout
      exact absurd (hbefore.issued_of_out hmem) hnew
    · exact .inr hback

section Sender

variable {r : Request Entry} {c : ChannelId}

/-- Nothing is ever sent to the future that waits for one of them. -/
theorem never_sent (hl : m.LeavesLoop w lock fault below) (h : m.Reachable)
    (hc : m.step.ComesTo m') (hm' : m'.frames = .rethrowing fault :: below)
    (hreturned : ∃ reply, m'.control = .returned reply)
    (hr : r ∈ (w.lock lock).deferredOn w.thread) (hsender : r.payload = .sender c)
    {x : Machine} (hx : Reaches m x) (g : Grant) : x.world.channel c ≠ .sent g := by
  obtain ⟨y, hdrops, hway, hrest⟩ := (hl.handedBack h hc hm' hreturned).2 r hr
  rw [hsender] at hdrops
  have hstep : m.step.Reachable := h.reaches (.single (.step _))
  -- the sender is with the frame that cleans up, so its channel was there before
  have hmem : c ∈ m.step.traffic.senders := by
    have hsenders : c ∈ sendersAmong ((w.lock lock).deferredOn w.thread) :=
      mem_sendersAmong hr (by simp [hsender, Entry.senders])
    rw [hl.step_eq]
    simp [traffic, World.traffic, sendersOf, Frame.senders, hsenders]
  have hold : c < m.step.traffic.channels.length := by
    obtain ⟨ch, hch, -⟩ := hstep.traffic_ok.sending c hmem
    exact (List.getElem?_eq_some_iff.1 hch).1
  have hafter : ∀ x, Reaches m.step x → x.world.channel c ≠ .sent g := by
    intro x hx
    have hthere : c < x.traffic.channels.length :=
      Nat.lt_of_lt_of_le hold (traffic_reaches hx).length_le
    have horder : Reaches x y ∨ Reaches y x := hc.reaches_or hway hrest hx
    exact hdrops.not_sent (hstep.reaches hway.reaches) (hstep.reaches hx) hthere horder g
  rcases hl.eq_or_reaches hx with rfl | hx
  · have hsame : x.step.world.channel c = x.world.channel c := by
      rw [hl.step_eq]
      cases hl
      rfl
    exact hsame ▸ hafter x.step .refl
  · exact hafter x hx

/-- If that future is still stored when the cleaning up is done, or later, it finds that its request
    was dropped, or it has found that once. -/
theorem future_told (hl : m.LeavesLoop w lock fault below) (h : m.Reachable)
    (hc : m.step.ComesTo m') (hm' : m'.frames = .rethrowing fault :: below)
    (hreturned : ∃ reply, m'.control = .returned reply)
    (hr : r ∈ (w.lock lock).deferredOn w.thread) (hsender : r.payload = .sender c)
    {x : Machine} (hx : Reaches m' x) {name : String} {f : Future}
    (hf : x.world.futures.get? name = some f) (hwaits : c ∈ f.receivers) :
    x.world.channel c = .abandoned ∧
        (x.world.poll name).control = .returned (.failed .abandoned) ∨
      x.world.channel c = .taken ∧ m.Told x c := by
  obtain ⟨y, hdrops, hway, hrest⟩ := (hl.handedBack h hc hm' hreturned).2 r hr
  rw [hsender] at hdrops
  have hdropped : Reaches m y.step := .head (.step m) (hway.reaches.tail (.step y))
  have hx' : Reaches y.step x := by
    rcases hdrops.eq_or_reaches hrest.reaches with rfl | hdone
    · cases hdrops
      cases hm'
    · exact hdone.trans hx
  have hreach : x.Reachable := (h.reaches hdropped).reaches hx'
  have hy : y.Reachable := (h.reaches (.single (.step m))).reaches hway.reaches
  obtain ⟨ch, hch, hor⟩ := hdrops.abandoned_or_told hy hx'
  have hchannel : x.world.channel c = ch := World.channel_of_getElem? hch
  rcases hor with rfl | ⟨rfl, before, after, hbefore, hn, hlater, hchannels⟩ | rfl
  · exact .inl ⟨hchannel, World.poll_of_abandoned hf hwaits hchannel⟩
  · exact .inr ⟨hchannel, before, after, hdropped.trans hbefore, hn, hlater, hchannels⟩
  · -- only the drop of the future closes the channel at its end
    exact absurd hchannel (hreach.not_gone hf hwaits)

end Sender

end LeavesLoop

end Machine

/-! ## The statement -/

/-- A panic leaves the loop of a thread for a lock while any number of grants are deferred there.
    Once the cleaning up is done, and no second panic has left it: those grants have ended once, in
    the order of the list; none of their entry points was started or ever will be, and each was
    dropped.  The future that waits for one of them, if it is still there, finds that its request
    was dropped when it is polled, or has found that once.

    The thread has no run list for the lock, and those of the other threads are untouched, by the
    removal and when all is done.  Every request that has become grantable by then is granted, and
    started or itself handed back.  The front of the queue could not start. -/
theorem unwound_loop_strands_nothing {m : Machine} (h : m.Reachable) {w : World} {lock : LockId}
    {fault : Fault} {below : List Frame} (hl : m.LeavesLoop w lock fault below) {w' : World}
    {reply : Reply} (hc : m.step.ComesTo ⟨w', .rethrowing fault :: below, .returned reply⟩) :
    (∃ more, (w'.journal lock).ended = (w.journal lock).ended ++
        ((w.lock lock).deferredOn w.thread).map (Request.grant lock) ++ more) ∧
      (w'.journal lock).ended.Nodup ∧
      (∀ r ∈ (w.lock lock).deferredOn w.thread,
        r.grant lock ∈ (w'.journal lock).handedBack ∧
        (∀ x, Machine.Reaches m x → r.grant lock ∉ (x.world.journal lock).started) ∧
        ∀ c, r.payload = .sender c →
          (∀ x, Machine.Reaches m x → ∀ g, x.world.channel c ≠ .sent g) ∧
          ∀ x, Machine.Reaches ⟨w', .rethrowing fault :: below, .returned reply⟩ x →
            ∀ name f, x.world.futures.get? name = some f → c ∈ f.receivers →
              x.world.channel c = .abandoned ∧
                  (x.world.poll name).control = .returned (.failed .abandoned) ∨
                x.world.channel c = .taken ∧ m.Told x c) ∧
      (m.step.world.lock lock).runLists =
        (w.lock lock).runLists.filter (fun run => run.thread ≠ w.thread) ∧
      (w'.lock lock).isDispatching w.thread = false ∧
      (∀ t, t ≠ w.thread →
        (w'.lock lock).isDispatching t = (w.lock lock).isDispatching t ∧
          (w'.lock lock).deferredOn t = (w.lock lock).deferredOn t) ∧
      (∀ g ∈ (w'.journal lock).accepted, g ∉ (w.journal lock).issued →
        (∀ i ∈ (w'.journal lock).accepted, i.id < g.id → i.mode.conflicts g.mode = true →
          i ∈ (w'.journal lock).issued ∧ i ∈ (w'.journal lock).ended) →
        g ∈ (w'.journal lock).issued ∧
          (g ∈ (w'.journal lock).started ∨ g ∈ (w'.journal lock).handedBack)) ∧
      ∀ front ∈ (w'.lock lock).core.queue.head?,
        (w'.lock lock).state.admits front.mode = false := by
  have hreturned : ∃ r, Control.returned reply = .returned r := ⟨reply, rfl⟩
  have hend : Machine.Reachable ⟨w', .rethrowing fault :: below, .returned reply⟩ :=
    h.reaches (.head (.step m) hc.reaches)
  have hbalanced := hend.balanced lock
  obtain ⟨hended, hdrops⟩ := hl.handedBack h hc rfl hreturned
  obtain ⟨hgone, hothers⟩ := hl.lists h hc rfl
  refine ⟨hended, hbalanced.endedOnce, ?items, ?removal, hgone, hothers, ?granted,
    hbalanced.blocked⟩
  case items =>
    intro r hr
    refine ⟨hl.dropped h hc rfl hreturned hr, fun x hx => hl.never_started h hr hx, ?_⟩
    intro c hsender
    refine ⟨fun x hx g => hl.never_sent h hc rfl hreturned hr hsender hx g, ?_⟩
    intro x hx name f hf hwaits
    exact hl.future_told h hc rfl hreturned hr hsender hx hf hwaits
  case removal =>
    have hthreads : ((w.lock lock).runLists.map (·.thread)).Nodup := by
      cases hl
      exact h.threads_nodup lock
    rw [hl.step_eq, World.lock_setLock_self (hl.lock_lt h)]
    exact Lock.runLists_close hthreads w.thread
  case granted =>
    -- whoever has become grantable is granted, at any time; that it was served too is shown above
    intro g hg hnew hclear
    have hissued := (hbalanced.issued_iff hg).2 hclear
    exact ⟨hissued, hl.granted_served h hc rfl hreturned hissued hnew⟩

/-! ## A future on an unwound run list -/

/-- A writer lets two readers and a writer wait.  The first reader panics with a bomb, so the second
    one, a future, is left on the run list. -/
def strandedReader : Action :=
  .submit 0 .write "writer" (.actions
    [.submit 0 .read "first" (.actions [.panic (.panicBomb "lost")]) .done true,
     .acquire 0 .read "second",
     .submit 0 .write "last" (.actions []) .done true]) .done true

/-- The machine that performs this on one lock, after some steps. -/
def strandedReaderAfter (n : Nat) : Machine :=
  Machine.step^[n] (Machine.begin (World.initial [{}] []) strandedReader)

theorem unwound_loop_strands_nothing_reader :
    ∃ w' : World, (strandedReaderAfter 15).step.ComesTo
        ⟨w', [.rethrowing (.panic "lost")], .returned .nothing⟩ ∧
      (w'.journal 0).ended.Nodup ∧
      (⟨0, 3, .read⟩ : Grant) ∈ (w'.journal 0).handedBack ∧
      (⟨0, 4, .write⟩ : Grant) ∈ (w'.journal 0).started ∧
      (w'.poll "second").control = .returned (.failed .abandoned) := by
  -- the bomb has left the first reader and has come to the loop in which the writer was started
  have hleaves : (strandedReaderAfter 15).LeavesLoop (strandedReaderAfter 15).world 0
      (.panic "lost") [] := .mk
  have hstack : (strandedReaderAfter 15).step.frames =
      [.handingBack 0 [⟨3, .read, .sender 0⟩]] ++ [.rethrowing (.panic "lost")] := rfl
  have hcomes : (strandedReaderAfter 15).step.ComesTo
      (Machine.step^[9] (strandedReaderAfter 15).step) := .of_iterate hstack (by decide) rfl
  have hlast : Machine.step^[9] (strandedReaderAfter 15).step =
      ⟨(strandedReaderAfter 25).world, [.rethrowing (.panic "lost")], .returned .nothing⟩ := rfl
  rw [hlast] at hcomes
  obtain ⟨-, hnodup, hitems, -, -, -, hgranted, -⟩ :=
    unwound_loop_strands_nothing (Machine.reachable_iterate _ _ _ 15) hleaves hcomes
  have hlist : ((strandedReaderAfter 15).world.lock 0).deferredOn
      (strandedReaderAfter 15).world.thread = [⟨3, .read, .sender 0⟩] := rfl
  obtain ⟨hback, -, hfuture⟩ := hitems ⟨3, .read, .sender 0⟩ (by simp [hlist])
  obtain ⟨-, hpoll⟩ := hfuture 0 rfl
  obtain ⟨-, hserved⟩ := hgranted ⟨0, 4, .write⟩ (by decide) (by decide) (by decide)
  refine ⟨_, hcomes, hnodup, hback, ?_, ?_⟩
  · refine hserved.resolve_right ?_
    decide
  · have hpolled := hpoll _ .refl "second" (.acquire (.accepted 0)) rfl (by decide)
    obtain ⟨-, hfailed⟩ | ⟨htaken, -⟩ := hpolled
    · exact hfailed
    · cases htaken

end FairLock
