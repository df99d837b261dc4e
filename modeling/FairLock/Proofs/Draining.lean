import FairLock.Proofs.Chain
import FairLock.Proofs.Machine.Drains
import FairLock.Proofs.Machine.Returns

/-!
# A drain is worked off before its call returns

A release drains its lock at most once, but what it starts may release again, submit, and use other
locks, so the work list of a loop grows while the loop works it off.  Nothing of it is left behind:
what a thread has started of the waiting requests and what still lies on its run list is together
what it has drained, and a loop that returns leaves no run list.

## Main definitions

- `Machine.DrainsOn`: steps lead down to a stack, and on the way these requests are drained on a
  thread.
- `Machine.Releases`, `Machine.GrantsAtOnce`: a transition ends a grant, or grants one on the spot.

## Main statements

- `Machine.RunsLoop.worksOff`: a loop that returns has started all that was drained on its thread.
- `drain_complete`: what is true when a release or a submission returns.
-/

namespace FairLock

namespace Machine

variable {m m' : Machine} {thread : ThreadId} {lock : LockId} {g : Grant}

/-- What the next step drains of a lock, if it is made on the thread. -/
def drainedNext (lock : LockId) (thread : ThreadId) (m : Machine) : List Grant :=
  if m.world.thread = thread then m.world.drained m.step.world lock else []

/-- Steps lead down to a stack, as in `ComesTo`, and on the way these requests of a lock are drained
    on a thread, in this order. -/
inductive DrainsOn (lock : LockId) (thread : ThreadId) : Machine → List Grant → Machine → Prop where
  | here (m : Machine) : DrainsOn lock thread m [] m
  | step {m m' : Machine} {more : List Grant} (f : Frame) (above : List Frame)
      (hframes : m.frames = f :: above ++ m'.frames) (h : DrainsOn lock thread m.step more m') :
      DrainsOn lock thread m (m.drainedNext lock thread ++ more) m'

/-- The requests that lie on the run list of a thread for a lock. -/
def deferredOn (m : Machine) (lock : LockId) (thread : ThreadId) : List Grant :=
  ((m.world.lock lock).deferredOn thread).map (Request.grant lock)

/-- The requests of a lock that had to wait and were started on a thread, in that order. -/
def servedOn (m : Machine) (lock : LockId) (thread : ThreadId) : List Grant :=
  (m.world.journal lock).served thread

/-- A thread without a run list has nothing deferred. -/
theorem deferredOn_of_idle (hidle : (m.world.lock lock).isDispatching thread = false) :
    m.deferredOn lock thread = [] := by
  rw [deferredOn, Lock.deferredOn_of_not_isDispatching hidle, List.map_nil]

/-- What a transition starts and defers is what it drains. -/
theorem Reachable.servedOn_append_deferredOn (h : m.Reachable) (hn : Next m m')
    (hwhole : m.loop? = some (lock, true) → m.world.thread ≠ thread) :
    m'.servedOn lock thread ++ m'.deferredOn lock thread =
      m.servedOn lock thread ++ m.deferredOn lock thread ++
        if m.world.thread = thread then m.world.drained m'.world lock else [] := by
  obtain ⟨out, -, hsound⟩ := h.sound lock
  obtain ⟨out', -, hsound'⟩ := (h.reaches (.single hn)).sound lock
  exact (h.turn hn lock).served_append_deferredOn hsound hsound' hwhole

/-- A loop that returns has started all that was left on the run list and all that was drained on
    its thread until then, in that order, and its run list is gone. -/
theorem RunsLoop.worksOff {above rest : List Frame} {outcome : Option Reply}
    (hl : m.RunsLoop thread lock above outcome rest) (h : m.Reachable) (hc : m.ComesTo m')
    (hm' : m'.frames = rest) (hreturned : m'.HasReturned) :
    ∃ more, DrainsOn lock thread m more m' ∧
      m'.servedOn lock thread = m.servedOn lock thread ++ m.deferredOn lock thread ++ more ∧
      (m'.world.lock lock).isDispatching thread = false := by
  induction hc generalizing above outcome with
  | here m =>
    have hlength := congrArg List.length (hl.frames.symm.trans hm')
    simp only [List.length_append, List.length_cons] at hlength
    omega
  | @step m m' f covering hframes hc ih =>
    rcases hl.step_cases h with ⟨above', outcome', hl', hwhole⟩ |
      ⟨reply, hid, hloop, hstep⟩ | ⟨items, fault, hstep⟩
    · -- what the step drains comes before what the rest of the run drains
      obtain ⟨more, hdrains, hserved, hgone⟩ :=
        ih hl' (h.reaches (.single (.step m))) hm' hreturned
      refine ⟨_, .step f covering hframes hdrains, ?_, hgone⟩
      rw [hserved, h.servedOn_append_deferredOn (.step m) hwhole, List.append_assoc]
      rfl
    · -- the run list is empty, and the loop gives it up
      have hlast : m.step = m' := by
        apply hc.eq_of_frames
        rw [hstep, hm']
      have hgone : (m.step.world.lock lock).isDispatching thread = false := by
        rw [hstep, World.lock_setLock_self hid, Bool.eq_false_iff, Ne,
          Lock.isDispatching_close (h.threads_nodup lock)]
        exact fun hstill => hstill.2 rfl
      have hwhole : m.loop? = some (lock, true) → m.world.thread ≠ thread := by
        rw [hloop]
        simp
      have hbalance := h.servedOn_append_deferredOn (.step m) hwhole
      rw [deferredOn_of_idle hgone, List.append_nil] at hbalance
      rw [← hlast]
      refine ⟨_, .step f covering (hlast ▸ hframes) (.here _), ?_, hgone⟩
      rw [hbalance, List.append_nil]
      rfl
    · -- an unwound loop never returns
      have hrethrowing : m.step.frames =
          [.handingBack lock items] ++ .rethrowing fault :: m'.frames := by
        rw [hstep, hm']
        rfl
      exact absurd hrethrowing (hc.not_rethrowing hreturned _ _)

/-! ## Releases and submissions -/

/-- A transition ends a grant. -/
def Releases (m m' : Machine) (g : Grant) : Prop :=
  g ∉ (m.world.journal g.lock).ended ∧ g ∈ (m'.world.journal g.lock).ended

/-- A transition grants a request that it submits. -/
def GrantsAtOnce (m m' : Machine) (g : Grant) : Prop :=
  g ∉ (m.world.journal g.lock).immediate ∧ g ∈ (m'.world.journal g.lock).immediate

instance : Decidable (m.Releases m' g) := inferInstanceAs (Decidable (_ ∧ _))

instance : Decidable (m.GrantsAtOnce m' g) := inferInstanceAs (Decidable (_ ∧ _))

/-- Once a call has returned to the rest of the stack, the entry points of these requests and of all
    that were drained in between have been started on the thread, in that order, and nothing else
    that had to wait; and the thread has no run list. -/
def WorksOff (m : Machine) (lock : LockId) (thread : ThreadId) (requests : List Grant)
    (rest : List Frame) : Prop :=
  ∀ x, m.ComesTo x → x.frames = rest → x.HasReturned →
    ∃ more, DrainsOn lock thread m more x ∧ x.servedOn lock thread = requests ++ more ∧
      (x.world.lock lock).isDispatching thread = false

/-- What a release puts on the stack if its thread is not dispatching: a loop for what it drains. -/
def loopFor (lock : LockId) (drained : List Grant) : List Frame :=
  if drained = [] then [] else [.dispatching lock (some .nothing)]

/-- A call that leaves neither a loop nor a run list behind has nothing to work off. -/
theorem worksOff_of_idle (hidle : (m.world.lock lock).isDispatching thread = false) :
    m.WorksOff lock thread (m.servedOn lock thread ++ m.deferredOn lock thread) m.frames := by
  intro x hx hrest _
  obtain rfl := hx.eq_of_frames hrest.symm
  refine ⟨[], .here m, ?_, hidle⟩
  rw [deferredOn_of_idle hidle, List.append_nil, List.append_nil]

/-- What a thread without a run list starts and defers by a transition is what it drains. -/
theorem Reachable.served_of_idle (h : m.Reachable) (hn : Next m m')
    (hidle : (m.world.lock lock).isDispatching m.world.thread = false) :
    m'.servedOn lock m.world.thread ++ m'.deferredOn lock m.world.thread =
      m.servedOn lock m.world.thread ++ m.world.drained m'.world lock := by
  have hwhole : m.loop? = some (lock, true) → m.world.thread ≠ m.world.thread := by
    intro hloop
    rw [h.isDispatching_of_loop? hloop] at hidle
    cases hidle
  rw [h.servedOn_append_deferredOn hn hwhole, deferredOn_of_idle hidle, List.append_nil, if_pos rfl]

/-- Outside the loops of its thread for the lock a release is a call, and works off what it drains
    before it returns. -/
theorem Reachable.release_idle (h : m.Reachable) (hn : Next m m') (hg : m.Releases m' g)
    (hidle : (m.world.lock g.lock).isDispatching m.world.thread = false) :
    ∃ w rest, m.world.Apart w ∧ m' = ofMove (w.endUnended g) rest ∧
      m'.frames = loopFor g.lock (m.world.drained m'.world g.lock) ++ rest ∧
      m'.WorksOff g.lock m.world.thread
        (m.servedOn g.lock m.world.thread ++ m.world.drained m'.world g.lock) rest := by
  have hbalance := h.served_of_idle hn hidle
  cases h.tells hn with
  | nothing hnews => exact absurd ((hnews g).1 hg.2) (by simpa using hg.1)
  | granted hw hid hsubmit hm' hnews => exact absurd ((hnews g).1 hg.2) (by simpa using hg.1)
  | taken hloop hnews =>
    obtain rfl := List.mem_singleton.1 (((hnews g).1 hg.2).resolve_left hg.1)
    rw [hidle] at hloop
    cases hloop
  | @ended w g' rest hw hunended hm' hnews =>
    obtain rfl := List.mem_singleton.1 (((hnews g).1 hg.2).resolve_left hg.1)
    have hid := World.lock_lt_of_isUnended hunended
    have hbalanced := h.balanced g.lock
    rw [← hw.lock, ← hw.journal] at hbalanced
    rw [← hw.lock, ← hw.thread] at hidle
    cases hrelease : (w.lock g.lock).release g.id g.mode with
    | mk l batch =>
      obtain ⟨hworld, hpushed, -⟩ := World.endUnended_eq hid hrelease
      rw [hidle, Bool.or_false] at hpushed
      have hdrained : m.world.drained m'.world g.lock = batch.map (Request.grant g.lock) := by
        rw [← World.drained_endUnended hid hbalanced hrelease, hm', World.drained, World.drained,
          hw.lock]
        rfl
      have hframes : m'.frames = loopFor g.lock (m.world.drained m'.world g.lock) ++ rest := by
        rw [hdrained, hm']
        cases batch <;> simp [ofMove, hpushed, loopFor]
      refine ⟨w, rest, hw, hm', hframes, ?_⟩
      rw [← hbalance]
      rw [hdrained] at hframes
      cases batch with
      | nil =>
        -- nothing is drained, and the call has returned
        have hgone : (m'.world.lock g.lock).isDispatching m.world.thread = false := by
          have hlock : m'.world.lock g.lock = l := by
            rw [hm']
            exact (World.views_endUnended hid hrelease).1.1
          rw [hlock, ← hw.thread]
          simpa [Lock.isDispatching, (Lock.release_batch hrelease).2.2.1] using hidle
        obtain rfl : m'.frames = rest := hframes
        exact worksOff_of_idle hgone
      | cons front batch =>
        -- the release has put a loop on the stack, and returns when that does
        have hthread : m'.world.thread = m.world.thread := by
          rw [hm', ← hw.thread]
          show (w.endUnended g).world.thread = w.thread
          rw [hworld]
        have hl : m'.RunsLoop m.world.thread g.lock [] (some .nothing) rest := ⟨hframes, hthread⟩
        intro x hx hrest hreturned
        exact hl.worksOff (h.reaches (.single hn)) hx hrest hreturned

/-- Inside such a loop a release only defers what it drains, and the loop works it off before it
    returns. -/
theorem Reachable.release_dispatching (h : m.Reachable) (hn : Next m m') (hg : m.Releases m' g)
    (hloop : (m.world.lock g.lock).isDispatching m.world.thread = true) :
    m.world.drained m'.world g.lock <:+ m'.deferredOn g.lock m.world.thread ∧
      (∀ g' ∈ m.world.drained m'.world g.lock, g' ∉ (m'.world.journal g.lock).started) ∧
      ∃ above outcome rest, m'.RunsLoop m.world.thread g.lock above outcome rest ∧
        m'.WorksOff g.lock m.world.thread
          (m.servedOn g.lock m.world.thread ++ m.deferredOn g.lock m.world.thread ++
            m.world.drained m'.world g.lock) rest := by
  obtain ⟨above, outcome, rest, hl⟩ := h.exists_runsLoop hloop
  obtain ⟨above', outcome', hl', hwhole⟩ : ∃ above' outcome',
      m'.RunsLoop m.world.thread g.lock above' outcome' rest ∧
        (m.loop? = some (g.lock, true) → m.world.thread ≠ m.world.thread) := by
    cases hn with
    | call a hcontrol => simpa using congrArg List.length hl.frames
    | step =>
      rcases hl.step_cases h with hcovered | ⟨reply, hid, -, hstep⟩ | ⟨items, fault, hstep⟩
      · exact hcovered
      -- a loop that is left ends nothing by that
      all_goals
        have hended := hg.2
        rw [hstep] at hended
        exact absurd hended hg.1
  have hbalance := h.servedOn_append_deferredOn hn hwhole
  rw [if_pos rfl] at hbalance
  have hm' := h.reaches (.single hn)
  have hsuffix : m.world.drained m'.world g.lock <:+ m'.deferredOn g.lock m.world.thread := by
    obtain ⟨batch, hdrained, hsuffix, -⟩ := (h.turn hn g.lock).exists_batch (h.balanced g.lock)
    rw [World.drained, hdrained]
    exact hsuffix.map _
  refine ⟨hsuffix, ?_, above', outcome', rest, hl', ?_⟩
  · intro g' hg'
    obtain ⟨out, -, hsound⟩ := hm'.sound g.lock
    apply hsound.not_started_of_deferred
    have hdeferred := ((m'.world.lock g.lock).deferredOn_sublist m.world.thread).map
      (Request.grant g.lock)
    exact hdeferred.subset (hsuffix.subset hg')
  · intro x hx hframes hreturned
    obtain ⟨more, hdrains, hserved, hgone⟩ := hl'.worksOff hm' hx hframes hreturned
    refine ⟨more, hdrains, ?_, hgone⟩
    rw [hserved, hbalance]

/-- What is granted on the spot is started on the running thread. -/
theorem startedOn_of_grantsAtOnce (h : m.Reachable) (hn : Next m m') (hg : m.GrantsAtOnce m' g) :
    g ∈ (m'.world.journal g.lock).startedOn m.world.thread := by
  obtain ⟨out, -, hsound⟩ := h.sound g.lock
  obtain ⟨out', -, hsound'⟩ := (h.reaches (.single hn)).sound g.lock
  have hstart := hsound'.immediate g hg.2
  obtain ⟨new, hj, hnew⟩ := (h.turn hn g.lock).exists_new
  have hj' : (m'.world.ledger out' g.lock).journal = new ++ m.world.journal g.lock := hj
  rw [hj', Journal.started, occurrences_append, List.mem_append] at hstart
  rcases hstart with hstart | hstart
  · -- who was started before was told before whether to wait
    have haccepted := hsound.balanced.issued_sublist.subset (hsound.issued_of_started hstart)
    have hsuffix : m.world.journal g.lock <:+ m'.world.journal g.lock :=
      hj ▸ List.suffix_append _ _
    exact absurd (hsound'.immediate_before hsuffix haccepted hg.2) hg.1
  · obtain ⟨e, he, hpick⟩ := mem_occurrences.1 hstart
    cases e with
    | started g' t shown =>
      cases hpick
      obtain ⟨rfl, -⟩ := hnew _ _ _ he
      exact mem_occurrences.2 ⟨_, hj ▸ List.mem_append_left _ he, by simp⟩
    | _ => cases hpick

/-- A submission that is granted on the spot runs the entry point on its thread, and has run it to
    the end before it returns. -/
theorem Reachable.submission_granted (h : m.Reachable) (hn : Next m m')
    (hg : m.GrantsAtOnce m' g) :
    ∃ w mode entry rest body loop, m.world.Apart w ∧
      m' = ofMove (w.submit g.lock mode entry) rest ∧
      m'.frames = body ++ .invocation g :: (loop ++ rest) ∧
      loop = (if (m.world.lock g.lock).isDispatching m.world.thread then []
        else [.dispatching g.lock none]) ∧
      g ∈ (m'.world.journal g.lock).startedOn m.world.thread ∧
      ∀ x, m'.ComesTo x → x.frames = rest → x.HasReturned →
        ∃ y, m'.ComesTo y ∧ y.ComesTo x ∧ y.frames = loop ++ rest ∧ y.HasReturned := by
  have hstarted := startedOn_of_grantsAtOnce h hn hg
  cases h.tells hn with
  -- whatever else a transition issues, it issues no such grant: it was issued on the spot
  | nothing hnews => exact absurd ((hnews g).2 hg.2) (by simpa using hg.1)
  | ended hw hunended hm' hnews => exact absurd ((hnews g).2 hg.2) (by simpa using hg.1)
  | taken hloop hnews => exact absurd ((hnews g).2 hg.2) (by simpa using hg.1)
  | @granted w lock mode entry l r rest hw hid hsubmit hm' hnews =>
    obtain rfl := List.mem_singleton.1 (((hnews g).2 hg.2).resolve_left hg.1)
    obtain ⟨body, hbody⟩ := World.frames_submit_of_granted hid hsubmit
    rw [hw.lock, hw.thread] at hbody
    -- the loop is named, since what follows is the same with it and without it
    obtain ⟨loop, hloop⟩ : ∃ loop : List Frame, loop =
        if (m.world.lock lock).isDispatching m.world.thread then [] else [.dispatching lock none] :=
      ⟨_, rfl⟩
    rw [← hloop] at hbody
    have hframes : m'.frames = body ++ .invocation (r.grant lock) :: (loop ++ rest) := by
      rw [hm']
      simp [ofMove, hbody]
    refine ⟨w, mode, entry, rest, body, loop, hw, hm', hframes, hloop, hstarted, ?_⟩
    -- the submission may return at last only past the boundary of the entry point that it runs
    rintro x hx rfl hreturned
    have hcovered : m'.frames = (body ++ [.invocation (r.grant lock)]) ++ (loop ++ x.frames) := by
      rw [hframes, List.append_assoc]
      rfl
    have hcases : loop = [] ∨ loop = [.dispatching lock none] := by
      rw [hloop]
      split
      · exact .inl rfl
      · exact .inr rfl
    exact hx.of_invoked hcovered hcases hreturned

end Machine

/-- A release works off what it drains.  If its thread is not dispatching the lock, the call has
    started all of it, and whatever was drained on the thread in between, when it returns.  If the
    thread is dispatching the lock, the release only defers, and the loop of the thread has started
    all of it when it returns.  In both cases this is done on the thread and in the order of the
    drains, and no run list is left.  And a submission that is granted on the spot has run the entry
    point to the end when it returns. -/
theorem drain_complete {m m' : Machine} (h : m.Reachable) (hn : Machine.Next m m') (g : Grant) :
    (m.Releases m' g → (m.world.lock g.lock).isDispatching m.world.thread = false →
      ∃ w rest, m.world.Apart w ∧ m' = Machine.ofMove (w.endUnended g) rest ∧
        m'.frames = Machine.loopFor g.lock (m.world.drained m'.world g.lock) ++ rest ∧
        m'.WorksOff g.lock m.world.thread
          (m.servedOn g.lock m.world.thread ++ m.world.drained m'.world g.lock) rest) ∧
    (m.Releases m' g → (m.world.lock g.lock).isDispatching m.world.thread = true →
      m.world.drained m'.world g.lock <:+ m'.deferredOn g.lock m.world.thread ∧
        (∀ g' ∈ m.world.drained m'.world g.lock, g' ∉ (m'.world.journal g.lock).started) ∧
        ∃ above outcome rest, m'.RunsLoop m.world.thread g.lock above outcome rest ∧
          m'.WorksOff g.lock m.world.thread
            (m.servedOn g.lock m.world.thread ++ m.deferredOn g.lock m.world.thread ++
              m.world.drained m'.world g.lock) rest) ∧
    (m.GrantsAtOnce m' g →
      ∃ w mode entry rest body loop, m.world.Apart w ∧
        m' = Machine.ofMove (w.submit g.lock mode entry) rest ∧
        m'.frames = body ++ .invocation g :: (loop ++ rest) ∧
        loop = (if (m.world.lock g.lock).isDispatching m.world.thread then []
          else [.dispatching g.lock none]) ∧
        g ∈ (m'.world.journal g.lock).startedOn m.world.thread ∧
        ∀ x, m'.ComesTo x → x.frames = rest → x.HasReturned →
          ∃ y, m'.ComesTo y ∧ y.ComesTo x ∧ y.frames = loop ++ rest ∧ y.HasReturned) :=
  ⟨fun hg hidle => h.release_idle hn hg hidle,
    fun hg hloop => h.release_dispatching hn hg hloop,
    fun hg => h.submission_granted hn hg⟩

/-- A release from outside starts two readers, and the writer that the last of them drains, before
    it returns.  The loop in which a writer lets two readers wait has started both when it returns,
    and the third one, which is granted on the spot, has returned before its submission does. -/
theorem drain_complete_readers :
    (Machine.DrainsOn 0 0 (parkedWriterAfter 12) [⟨0, 4, .write⟩] (parkedWriterAfter 37) ∧
      (parkedWriterAfter 37).servedOn 0 0 = [⟨0, 2, .read⟩, ⟨0, 3, .read⟩, ⟨0, 4, .write⟩]) ∧
    (∃ more, Machine.DrainsOn 0 0 (writerAndReadersAfter {} [] 4) more
        (writerAndReadersAfter {} [] 22) ∧
      (writerAndReadersAfter {} [] 22).servedOn 0 0 = [⟨0, 2, .read⟩, ⟨0, 3, .read⟩] ++ more) ∧
    ∃ y, (writerAndReadersAfter {} [] 8).ComesTo y ∧ y.ComesTo (writerAndReadersAfter {} [] 12) ∧
      y.HasReturned := by
  refine ⟨?_, ?_, ?_⟩
  · have hm : (parkedWriterAfter 11).Reachable := Machine.reachable_iterate _ _ _ 11
    have hn : Machine.Next (parkedWriterAfter 11) (parkedWriterAfter 12) := .step _
    obtain ⟨w, rest, -, -, hframes, hworks⟩ :=
      (drain_complete hm hn ⟨0, 1, .write⟩).1 (by decide) (by decide)
    have hdrained : (parkedWriterAfter 11).world.drained (parkedWriterAfter 12).world 0 =
        [⟨0, 2, .read⟩, ⟨0, 3, .read⟩] := by decide
    have hnone : (parkedWriterAfter 11).servedOn 0 0 = [] := by decide
    have hthread : (parkedWriterAfter 11).world.thread = 0 := rfl
    rw [hdrained] at hframes hworks
    rw [hthread, hnone] at hworks
    obtain rfl : _ = rest := (List.cons.inj hframes).2
    have hcomes : (parkedWriterAfter 12).ComesTo (Machine.step^[25] (parkedWriterAfter 12)) :=
      .of_iterate hframes (by decide) rfl
    obtain ⟨more, hdrains, hserved, -⟩ := hworks _ hcomes rfl ⟨_, rfl⟩
    have hall : (parkedWriterAfter 37).servedOn 0 0 =
        [⟨0, 2, .read⟩, ⟨0, 3, .read⟩, ⟨0, 4, .write⟩] := by decide
    have hmore : [⟨0, 4, .write⟩] = more := by
      simpa using hall.symm.trans hserved
    exact ⟨hmore ▸ hdrains, hall⟩
  · have hm := reachable_writerAndReadersAfter {} [] 3
    have hn : Machine.Next (writerAndReadersAfter {} [] 3) (writerAndReadersAfter {} [] 4) := .step _
    obtain ⟨-, -, above, outcome, rest, hl, hworks⟩ :=
      (drain_complete hm hn ⟨0, 1, .write⟩).2.1 (by decide) (by decide)
    have hframes : (writerAndReadersAfter {} [] 4).frames =
        [.concluding none, .invocation ⟨0, 1, .write⟩, .dispatching 0 none] := rfl
    have hloop := hl.frames
    rw [hframes] at hloop
    obtain ⟨rfl, rfl, rfl⟩ : above = [.concluding none, .invocation ⟨0, 1, .write⟩] ∧
        outcome = none ∧ rest = [] := by simpa [List.cons_eq_append_iff] using hloop
    have hnone : (writerAndReadersAfter {} [] 3).servedOn 0 0 ++
        (writerAndReadersAfter {} [] 3).deferredOn 0 0 ++
        (writerAndReadersAfter {} [] 3).world.drained (writerAndReadersAfter {} [] 4).world 0 =
          [⟨0, 2, .read⟩, ⟨0, 3, .read⟩] := by decide
    have hthread : (writerAndReadersAfter {} [] 3).world.thread = 0 := rfl
    rw [hthread, hnone] at hworks
    have hcomes : (writerAndReadersAfter {} [] 4).ComesTo
        (Machine.step^[18] (writerAndReadersAfter {} [] 4)) :=
      .of_iterate (List.append_nil _).symm (by decide) rfl
    obtain ⟨more, hdrains, hserved, -⟩ := hworks _ hcomes rfl ⟨_, rfl⟩
    exact ⟨more, hdrains, hserved⟩
  · have hm := reachable_writerAndReadersAfter {} [] 7
    have hn : Machine.Next (writerAndReadersAfter {} [] 7) (writerAndReadersAfter {} [] 8) := .step _
    obtain ⟨w, mode, entry, rest, body, loop, -, -, hframes, hloop, -, hruns⟩ :=
      (drain_complete hm hn ⟨0, 4, .read⟩).2.2 (by decide)
    obtain rfl : loop = [] := hloop
    -- the entry point of the third reader is on the stack only once
    obtain ⟨last, acts, task, h8⟩ : ∃ last acts task, (writerAndReadersAfter {} [] 8).frames =
        .actions ⟨"third", some ⟨0, 4, .read⟩, true⟩ last acts :: .finishing ⟨0, 4, .read⟩ task ::
          .invocation ⟨0, 4, .read⟩ :: (writerAndReadersAfter {} [] 12).frames := ⟨_, _, _, rfl⟩
    obtain ⟨last', acts', task', outcome, h12⟩ : ∃ last acts task outcome,
        (writerAndReadersAfter {} [] 12).frames =
          [.actions ⟨"first", some ⟨0, 2, .read⟩, true⟩ last acts, .finishing ⟨0, 2, .read⟩ task,
            .invocation ⟨0, 2, .read⟩, .dispatching 0 outcome] := ⟨_, _, _, _, rfl⟩
    have hrest : rest = (writerAndReadersAfter {} [] 12).frames := by
      rw [h8, h12] at hframes
      simp [List.cons_eq_append_iff] at hframes
      rw [h12]
      exact hframes.2
    have hcomes : (writerAndReadersAfter {} [] 8).ComesTo
        (Machine.step^[4] (writerAndReadersAfter {} [] 8)) := by
      have hcovered : (writerAndReadersAfter {} [] 8).frames =
          (writerAndReadersAfter {} [] 8).frames.take 3 ++
            (Machine.step^[4] (writerAndReadersAfter {} [] 8)).frames := rfl
      exact .of_iterate hcovered (by decide) rfl
    obtain ⟨y, hdown, hup, -, hreturned⟩ := hruns _ hcomes hrest.symm ⟨_, rfl⟩
    exact ⟨y, hdown, hup, hreturned⟩

end FairLock
