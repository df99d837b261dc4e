import FairLock.Proofs.Machine.Subruns
import FairLock.Proofs.Machine.Threads
import FairLock.Proofs.Machine.Turns

/-!
# Calls that return

Whatever a transition tells about ends of grants and grants on the spot, it tells because it is a
call: the end of a grant, or a submission.  The stack below a call says where it returns to, and the
call has returned when that stack is bare and no fault arrives there.

A loop that is unwound leaves a frame behind that goes on unwinding.  So a call that returns was not
left through a loop by a fault: whatever loops and entry points it had put on the stack have been
worked off.

## Main definitions

- `Machine.HasReturned`: no fault is passed down the stack.
- `World.News`: the ends and the grants on the spot that one world tells and an earlier one does not.
- `Machine.Tells`: the call that a transition is.
- `Machine.RunsLoop`: a loop of a thread, somewhere on the stack.

## Main statements

- `Machine.Reachable.tells`: a transition is a call of one kind, or tells nothing.
- `Machine.RunsLoop.step_cases`: a loop stays, or it was on top and is left.
- `Machine.ComesTo.of_invoked`: what is granted on the spot is worked off first.
-/

namespace FairLock

/-! ## What is told -/

namespace World

variable {w v u : World} {g : Grant} {lock : LockId} {ended immediate : List Grant}

/-- What a later world tells and an earlier one does not: at most the given grants have ended, and
    at most the given ones were granted on the spot. -/
def News (w v : World) (ended immediate : List Grant) : Prop :=
  ∀ g, (g ∈ (v.journal g.lock).ended → g ∈ (w.journal g.lock).ended ∨ g ∈ ended) ∧
    (g ∈ (v.journal g.lock).immediate → g ∈ (w.journal g.lock).immediate ∨ g ∈ immediate)

theorem News.of_journal (h : ∀ id, v.journal id = w.journal id) :
    w.News v ended immediate := by
  intro g
  rw [h]
  exact ⟨.inl, .inl⟩

/-- What happens after something that is no news is all the news. -/
theorem News.trans (h : w.News v [] []) (h' : v.News u ended immediate) :
    w.News u ended immediate := by
  intro g
  obtain ⟨hended, himmediate⟩ := h g
  obtain ⟨hended', himmediate'⟩ := h' g
  refine ⟨fun hg => (hended' hg).imp_left fun hg => ?_,
    fun hg => (himmediate' hg).imp_left fun hg => ?_⟩
  · simpa using hended hg
  · simpa using himmediate hg

/-- What happens apart from the locks is no news. -/
theorem Apart.news (hw : w.Apart v) : w.News v [] [] := .of_journal hw.journal

/-- The news of one lock. -/
theorem News.of_views (new : Journal) (hown : v.journal lock = new ++ w.journal lock)
    (hothers : ∀ other, other ≠ lock → v.journal other = w.journal other) :
    w.News v new.ended new.immediate := by
  intro g
  by_cases hlock : g.lock = lock
  · rw [hlock, hown]
    simp
  · rw [hothers _ hlock]
    exact ⟨.inl, .inl⟩

/-- The end of a grant is news of this grant alone. -/
theorem news_endUnended (hunended : w.isUnended g = true) :
    w.News (w.endUnended g).world [g] [] := by
  have hid := lock_lt_of_isUnended hunended
  cases hrelease : (w.lock g.lock).release g.id g.mode with
  | mk l batch =>
    obtain ⟨⟨-, hjournal⟩, hothers⟩ := views_endUnended hid hrelease
    have hdrain := Ledger.issues_drainEvents g.lock batch l.pending (currentSpan w.entered) w.entered
    have hnews := News.of_views _ hjournal fun other hne => (hothers other hne).2
    -- how long the grant was held is told in one of two ways, and neither is the end
    have hhold : (w.lock g.lock).holdNotice g = .slow g ∨ (w.lock g.lock).holdNotice g = .closed g := by
      unfold Lock.holdNotice
      split
      · exact .inl rfl
      · exact .inr rfl
    rcases hhold with hhold | hhold
    all_goals
      rw [hhold] at hnews
      simpa [Journal.ended, Journal.immediate, hdrain.ended, hdrain.immediate] using hnews

theorem news_endGrant (w : World) (g : Grant) : w.News (w.endGrant g).world [g] [] := by
  unfold endGrant
  split
  · rename_i hunended
    exact news_endUnended hunended
  · intro g'
    exact ⟨.inl, .inl⟩

/-- A submission ends nothing, and what it grants on the spot is its own request. -/
theorem news_submit (hid : lock < w.locks.length) (mode : Mode) {entry : Entry}
    (hhears : w.Hears entry) :
    (∃ l r, (w.lock lock).submit mode entry = (l, .granted r) ∧
      w.News (w.submit lock mode entry).world [] [r.grant lock]) ∨
    w.News (w.submit lock mode entry).world [] [] := by
  cases hsubmit : (w.lock lock).submit mode entry with
  | mk l submission =>
    cases submission with
    | granted r =>
      -- granted on the spot: two reports of that, and the start, are all that there is
      obtain ⟨shown, ⟨-, hjournal⟩, hothers⟩ := views_submit_of_granted hid hhears hsubmit
      refine .inl ⟨l, r, rfl, ?_⟩
      have hnews := News.of_views [_, _, _] hjournal fun other hne =>
        (hothers other hne).2
      simpa using hnews
    | queued n pending =>
      rw [submit_of_queued hsubmit]
      -- what waits or is turned away ends nothing and is not granted
      generalize hv : (w.setLock lock l).notify (.queued ⟨lock, n, mode⟩ l.state pending) = v
      obtain ⟨⟨-, hjournal⟩, hothers⟩ := views_of_step (w := w) _ [_] hid
        (congrArg World.locks hv.symm) (congrArg World.history hv.symm)
        (by simp [Event.lock?, Notice.lock])
      have hnews := News.of_views _ hjournal fun other hne => (hothers other hne).2
      exact .inr (by simpa [World.reply] using hnews)
    | rejected refused limit =>
      obtain ⟨-, -, -, rfl⟩ := Lock.submit_rejected hsubmit
      rw [submit_of_rejected hsubmit]
      generalize hv : (w.setLock lock { w.lock lock with
        stats := (w.lock lock).stats.countRejected }).notify (.rejected lock mode limit) = v
      obtain ⟨⟨-, hjournal⟩, hothers⟩ := views_of_step (w := w) _ [_] hid
        (congrArg World.locks hv.symm) (congrArg World.history hv.symm)
        (by simp [Event.lock?, Notice.lock])
      -- the refused entry is dropped, which is no news for any lock
      have hjournal' := (journal_discard_none v entry lock).trans hjournal
      have hnews := News.of_views _ hjournal' fun other hne =>
        (journal_discard_none v entry other).trans (hothers other hne).2
      exact .inr (by simpa [World.reply] using hnews)

/-- The start of an entry point may end its grant, if nobody waits for the capability. -/
theorem news_start (w : World) (lock : LockId) (r : Request Entry) :
    w.News (w.start lock r).world [r.grant lock] [] := by
  -- the record of the start is about its own lock and ends nothing
  have hbegun : ∀ shown, w.News (w.begun (r.grant lock) shown) [] [] := by
    intro shown
    obtain ⟨hown, hothers⟩ := journal_begun (g := r.grant lock) rfl w shown
    have hnews := News.of_views [_] hown hothers
    simpa using hnews
  have hstarts := w.starts_start lock r
  generalize w.start lock r = m at hstarts
  cases hstarts with
  | task h shown body =>
    exact (hbegun shown).trans (.of_journal fun id => rfl)
  | @sent c waker h hc =>
    have hsent := (w.begun (r.grant lock) none).views_sent c (.sent (r.grant lock)) waker
    exact (hbegun none).trans (.of_journal fun id => (hsent id).2)
  -- only here the grant ends with its own start
  | unheard h hc => exact (hbegun none).trans (news_endGrant _ _)

/-- What starts an entry point puts its boundary at the bottom of all that it puts on the stack. -/
theorem frames_start (w : World) (lock : LockId) (r : Request Entry) :
    ∃ body, (w.start lock r).frames = body ++ [.invocation (r.grant lock)] := by
  have hstarts := w.starts_start lock r
  generalize w.start lock r = m at hstarts
  cases hstarts with
  | task h shown body => exact ⟨[_, _], rfl⟩
  | sent h hc => exact ⟨[], rfl⟩
  | unheard h hc => exact ⟨_, rfl⟩

/-- A submission that is granted on the spot puts the entry point on the stack, and below it the loop
    of the thread if there was none. -/
theorem frames_submit_of_granted {mode : Mode} {entry : Entry} {l : Lock Entry} {r : Request Entry}
    (hid : lock < w.locks.length) (h : (w.lock lock).submit mode entry = (l, .granted r)) :
    ∃ body, (w.submit lock mode entry).frames = body ++ .invocation (r.grant lock) ::
      if (w.lock lock).isDispatching w.thread then [] else [.dispatching lock none] := by
  rw [submit_of_granted hid h, Move.frames_before]
  generalize ({ w with
    locks := w.locks.set lock (l.dispatchOn w.thread)
    history :=
      .issued (r.grant lock) (currentSpan w.entered) ::
        .notice (.grantedImmediately (r.grant lock) l.state) w.entered :: w.history } :
    -- the task or its capability comes on top of the boundary, and the loop below that
    World) = v
  obtain ⟨body, hbody⟩ := v.frames_start lock r
  exact ⟨body, by rw [hbody, List.append_assoc]; rfl⟩

end World

/-! ## Calls -/

namespace Machine

variable {m m' : Machine} {may : Call → Prop}

/-- No fault is passed down the stack, and the machine was not aborted. -/
def HasReturned (m : Machine) : Prop := ∃ reply, m.control = .returned reply

/-- What a transition comes to, as far as ends of grants and grants on the spot are concerned.  The
    frames below a call are those to which it returns. -/
inductive Tells (m m' : Machine) : Prop where
  | nothing (hnews : m.world.News m'.world [] [])
  /-- A grant is ended. -/
  | ended {w : World} {g : Grant} {rest : List Frame} (hw : m.world.Apart w)
      (hunended : w.isUnended g = true) (hm' : m' = ofMove (w.endUnended g) rest)
      (hnews : m.world.News m'.world [g] [])
  /-- A submission is granted. -/
  | granted {w : World} {lock : LockId} {mode : Mode} {entry : Entry} {l : Lock Entry}
      {r : Request Entry} {rest : List Frame} (hw : m.world.Apart w) (hid : lock < w.locks.length)
      (hsubmit : (w.lock lock).submit mode entry = (l, .granted r))
      (hm' : m' = ofMove (w.submit lock mode entry) rest)
      (hnews : m.world.News m'.world [] [r.grant lock])
  /-- A loop starts an entry point; its grant ends if nobody waits for the capability. -/
  | taken {g : Grant} (hloop : (m.world.lock g.lock).isDispatching m.world.thread = true)
      (hnews : m.world.News m'.world [g] [])

end Machine

namespace World

variable {may : Call → Prop} {w : World} {m : Move}

/-- The one thing done with a lock is a call, or tells nothing. -/
theorem Deed.tells (h : Deed may w m) :
    w.News m.world [] [] ∨
    (∃ v g, w.Apart v ∧ v.isUnended g = true ∧ m = v.endUnended g ∧ w.News m.world [g] []) ∨
    ∃ v lock mode entry l r, w.Apart v ∧ lock < v.locks.length ∧
      (v.lock lock).submit mode entry = (l, .granted r) ∧ m = v.submit lock mode entry ∧
      w.News m.world [] [r.grant lock] := by
  -- a grant that ends is ended in a world that differs in channels and futures at most
  have hended : ∀ {v : World} {g : Grant}, w.Apart v → v.isUnended g = true →
      ∃ v' g', w.Apart v' ∧ v'.isUnended g' = true ∧ v.endUnended g = v'.endUnended g' ∧
        w.News (v.endUnended g).world [g'] [] := fun hv hunended =>
    ⟨_, _, hv, hunended, rfl, hv.news.trans (news_endUnended hunended)⟩
  -- deed by deed: it ends a grant, grants a request, or says nothing of the kind
  cases h with
  | done control => exact .inl (.of_journal fun id => rfl)
  | ended h => exact .inr (.inl (hended (.refl w) h))
  | @dropped c g h =>
    have hv : w.Apart (w.setChannel c .gone) := .of_eq rfl rfl rfl rfl
    unfold endGrant
    split
    · rename_i hunended
      exact .inr (.inl (hended hv hunended))
    · exact .inl (.of_journal fun id => rfl)
  | @refused g hmay hid h =>
    left
    have hrefused : (w.release g).1.world =
        (w.setLock g.lock (w.lock g.lock).countRedundant).notify (.redundant g) := by
      simp [release, h]
    generalize (w.release g).1.world = v at hrefused ⊢
    obtain ⟨⟨-, hjournal⟩, hothers⟩ := views_of_step (w := w) _ [_] hid
      (congrArg World.locks hrefused) (congrArg World.history hrefused)
      (by simp [Event.lock?, Notice.lock])
    have hnews := News.of_views _ hjournal fun other hne => (hothers other hne).2
    simpa using hnews
  | @submitted lock hid mode task =>
    have hhears : w.Hears (.task task) := trivial
    rcases news_submit hid mode hhears with ⟨l, r, hsubmit, hnews⟩ | hnews
    · exact .inr (.inr ⟨w, lock, mode, _, l, r, .refl w, hid, hsubmit, rfl, hnews⟩)
    · exact .inl hnews
  | @requested lock hid mode =>
    have hv : w.Apart w.newChannel.1 := .of_eq rfl rfl rfl rfl
    have hhears : w.newChannel.1.Hears (.sender w.newChannel.2) :=
      ⟨none, by simp [newChannel, channel]⟩
    rcases news_submit (w := w.newChannel.1) hid mode hhears with ⟨l, r, hsubmit, hnews⟩ | hnews
    · exact .inr (.inr ⟨_, lock, mode, _, l, r, hv, hid, hsubmit, rfl, hv.news.trans hnews⟩)
    · exact .inl (hv.news.trans hnews)
  | @reported g hid failure =>
    left
    have hworld := reportFailure_eq hid failure
    generalize (w.reportFailure g failure).world = v at hworld ⊢
    obtain ⟨⟨-, hjournal⟩, hothers⟩ := views_of_step (w := w) _ _ hid
      (congrArg World.locks hworld) (congrArg World.history hworld) (failureEvents_lock _ _ _ _)
    have hnews := News.of_views _ hjournal fun other hne => (hothers other hne).2
    have hissues := Ledger.issues_failureEvents (w.lock g.lock) g failure w.entered
    simpa [Journal.ended, Journal.immediate, hissues.ended, hissues.immediate] using hnews
  | threaded context body => exact .inl (.of_journal fun id => rfl)

end World

namespace Machine

variable {m m' : Machine} {may : Call → Prop}

/-- A transition is a call of one kind, or tells nothing. -/
theorem Acts.tells (h : m.Acts may m') : m.Tells m' := by
  cases h with
  | rests => exact .nothing (.of_journal fun id => rfl)
  | @moves w t below control move htop h =>
    obtain ⟨hbefore, hdeed, covering, -⟩ := h
    -- what is done before and after the deed tells nothing
    have hv := World.apart_of_receives hbefore
    have hframes : ∀ deed : Move, ofMove (deed.before covering) below =
        ofMove deed (covering ++ below) := by
      intro deed
      simp [ofMove]
    rcases hdeed.tells with hnews | ⟨u, g, hu, hunended, rfl, hnews⟩ |
      ⟨u, lock, mode, entry, l, r, hu, hid, hsubmit, rfl, hnews⟩
    · exact .nothing (hv.news.trans hnews)
    · exact .ended (hv.trans hu) hunended (hframes _) (hv.news.trans hnews)
    · exact .granted (hv.trans hu) hid hsubmit (hframes _) (hv.news.trans hnews)
  | @takes w lock outcome below reply r l hid hnext =>
    -- a request was taken off the run list, so the thread has one
    have hloop : (w.lock lock).isDispatching w.thread = true := by
      obtain ⟨before, deferred, after, -, hl, -⟩ := Lock.next_cases hnext
      have hrun : (⟨w.thread, r :: deferred⟩ : RunList Entry) ∈ (w.lock lock).runLists := by
        simp [hl]
      exact Lock.isDispatching_eq_true_iff.2 ⟨_, hrun, rfl⟩
    have hset : w.News (w.setLock lock l) [] [] := .of_journal fun id => rfl
    exact .taken (g := r.grant lock) hloop (hset.trans (World.news_start _ lock r))
  | closes hid hnext => exact .nothing (.of_journal fun id => rfl)
  | unwinds hid => exact .nothing (.of_journal fun id => rfl)
  | @handsBack w lock r items below reply hid =>
    unfold World.endGrant
    split
    · rename_i hunended
      exact .ended (.refl w) hunended rfl (World.news_endUnended hunended)
    · exact .nothing (.of_journal fun id => rfl)
  | @discards w g entry below reply hid =>
    obtain ⟨tag, hjournal, hothers⟩ := w.journal_discard g entry
    have hnews := World.News.of_views [_] hjournal hothers
    exact .nothing (by simpa using hnews)
  | leaves hf hout => exact .nothing (.of_journal fun id => rfl)
  | joins reply => exact .nothing (.of_journal fun id => rfl)

theorem Reachable.tells (h : m.Reachable) (hn : Next m m') : m.Tells m' := (h.acts hn).tells

/-! ## Down to a stack without a fault -/

/-- A frame that goes on unwinding lets no call return. -/
theorem ComesTo.not_rethrowing (h : m.ComesTo m') (hreturned : m'.HasReturned)
    (above : List Frame) (fault : Fault) : m.frames ≠ above ++ .rethrowing fault :: m'.frames := by
  intro hm
  obtain ⟨last, hlast⟩ := hreturned
  have hsplit : m.frames = above ++ ([.rethrowing fault] ++ m'.frames) := hm
  -- the run passes the moment when this frame is on top
  obtain ⟨⟨v, frames, control⟩, hframes, -, hrest⟩ := h.split hsplit
  obtain rfl : frames = .rethrowing fault :: m'.frames := hframes
  have hcovered : Frame.rethrowing fault :: m'.frames = .rethrowing fault :: [] ++ m'.frames := rfl
  -- returned to, the frame goes on unwinding, and the call does not return there
  cases control with
  | returned reply =>
    have hpassed : ComesTo ⟨v, m'.frames, .unwinding fault⟩ m' := hrest.next hcovered
    have hsame := hpassed.eq_of_frames rfl
    rw [← hsame] at hlast
    cases hlast
  | unwinding another =>
    -- a second fault makes it abort, and after that nothing returns
    have hpassed : ComesTo ⟨v, m'.frames, .aborted⟩ m' := hrest.next hcovered
    have hsame := hpassed.eq_of_frames rfl
    rw [← hsame] at hlast
    cases hlast
  | aborted =>
    have hnot := hrest.not_aborted (by rw [hlast]; simp)
    exact absurd rfl hnot

/-- What is granted on the spot is worked off before anything below it goes on, and no fault leaves
    it, if the call returns in the end. -/
theorem ComesTo.of_invoked {above loop : List Frame} {lock : LockId} (h : m.ComesTo m')
    (hm : m.frames = above ++ (loop ++ m'.frames))
    (hloop : loop = [] ∨ loop = [.dispatching lock none]) (hreturned : m'.HasReturned) :
    ∃ x : Machine, m.ComesTo x ∧ x.ComesTo m' ∧ x.frames = loop ++ m'.frames ∧ x.HasReturned := by
  obtain ⟨⟨v, frames, control⟩, hframes, hdown, hrest⟩ := h.split hm
  refine ⟨_, hdown, hrest, hframes, ?_⟩
  obtain rfl : frames = loop ++ m'.frames := hframes
  cases control with
  | returned reply => exact ⟨reply, rfl⟩
  | aborted =>
    obtain ⟨last, hlast⟩ := hreturned
    have hnot := hrest.not_aborted (by rw [hlast]; simp)
    exact absurd rfl hnot
  | unwinding fault =>
    rcases hloop with rfl | rfl
    · have hsame := hrest.eq_of_frames rfl
      rw [← hsame] at hreturned
      exact hreturned
    · -- the fault would unwind the loop and go on
      have hcovered : Frame.dispatching lock none :: m'.frames =
          .dispatching lock none :: [] ++ m'.frames := rfl
      have hunwound := hrest.next hcovered
      exact absurd rfl (hunwound.not_rethrowing hreturned [_] fault)

/-! ## A loop on the stack -/

/-- A thread runs a loop for a lock, with some frames above it and the rest below. -/
structure RunsLoop (m : Machine) (thread : ThreadId) (lock : LockId) (above : List Frame)
    (outcome : Option Reply) (rest : List Frame) : Prop where
  frames : m.frames = above ++ .dispatching lock outcome :: rest
  /-- The threads above it were started from it. -/
  thread : ThreadsOn (· = thread) (fun _ => True) m.world.thread above

end Machine

section Loops

variable {thread t : ThreadId} {lock : LockId} {frames above rest : List Frame}
  {outcome : Option Reply}

/-- A loop that is listed lies on the stack. -/
theorem exists_loop_of_mem_loopsOf (h : (t, lock) ∈ loopsOf thread frames) :
    ∃ above outcome rest, frames = above ++ .dispatching lock outcome :: rest ∧
      ThreadsOn (· = t) (fun _ => True) thread above := by
  -- down the stack, with the thread of each frame: at a join it is the waiting one from there on
  induction frames generalizing thread with
  | nil => cases h
  | cons f frames ih =>
    have hcons : ∀ thread', (t, lock) ∈ loopsOf thread' frames →
        (∀ above, ThreadsOn (· = t) (fun _ => True) thread' above →
          ThreadsOn (· = t) (fun _ => True) thread (f :: above)) →
        ∃ above outcome rest, f :: frames = above ++ .dispatching lock outcome :: rest ∧
          ThreadsOn (· = t) (fun _ => True) thread above := by
      intro thread' hmem hthreads
      obtain ⟨above, outcome, rest, hframes, habove⟩ := ih hmem
      exact ⟨f :: above, outcome, rest, by rw [hframes, List.cons_append], hthreads above habove⟩
    cases f with
    | dispatching lock' outcome =>
      rcases List.mem_cons.1 h with heq | h
      · cases heq
        exact ⟨[], outcome, frames, rfl, rfl⟩
      · exact hcons thread h fun above => id
    | joining waiting entered => exact hcons waiting h fun above habove => ⟨trivial, habove⟩
    | _ => exact hcons thread h fun above => id

/-- A loop that lies on the stack is listed. -/
theorem mem_loopsOf_of_threadsOn (h : ThreadsOn (· = t) (fun _ => True) thread above) :
    (t, lock) ∈ loopsOf thread (above ++ .dispatching lock outcome :: rest) := by
  -- the loop is listed under the thread that runs where it lies
  induction above generalizing thread with
  | nil =>
    obtain rfl : thread = t := h
    exact List.mem_cons_self
  | cons f above ih =>
    cases f with
    | dispatching lock' outcome' => exact List.mem_cons_of_mem _ (ih h)
    | joining waiting entered => exact ih h.2
    | _ => exact ih h

end Loops

namespace Machine

variable {m m' : Machine} {thread : ThreadId} {lock : LockId} {above rest : List Frame}
  {outcome : Option Reply}

/-- A thread that has a run list runs a loop. -/
theorem Reachable.exists_runsLoop (h : m.Reachable)
    (hloop : (m.world.lock lock).isDispatching thread = true) :
    ∃ above outcome rest, m.RunsLoop thread lock above outcome rest := by
  obtain ⟨above, outcome, rest, hframes, hthreads⟩ :=
    exists_loop_of_mem_loopsOf ((h.looped.lists lock thread).1 hloop)
  exact ⟨above, outcome, rest, hframes, hthreads⟩

/-- A thread that runs a loop has a run list. -/
theorem RunsLoop.isDispatching (hl : m.RunsLoop thread lock above outcome rest)
    (h : m.Reachable) : (m.world.lock lock).isDispatching thread = true := by
  rw [h.looped.lists, hl.frames]
  exact mem_loopsOf_of_threadsOn hl.thread

/-- A loop on top is one of the running thread. -/
theorem Reachable.isDispatching_of_loop? (h : m.Reachable) {unwound : Bool}
    (hloop : m.loop? = some (lock, unwound)) :
    (m.world.lock lock).isDispatching m.world.thread = true := by
  obtain ⟨w, frames, control⟩ := m
  cases frames with
  | nil => simp [loop?] at hloop
  | cons f rest =>
    cases f with
    | dispatching lock' outcome =>
      -- whether the loop is left by a fault or goes on, it is for this lock
      obtain rfl : lock' = lock := by
        cases control <;> simp_all [loop?]
      have hl : RunsLoop ⟨w, .dispatching lock' outcome :: rest, control⟩ w.thread lock' []
          outcome rest := ⟨rfl, rfl⟩
      exact hl.isDispatching h
    | _ => simp [loop?] at hloop

/-- A loop stays where it is, as long as it is not on top or finds something on its run list.  A
    fault that arrives at another loop of the lock arrives on another thread. -/
theorem RunsLoop.step_cases (hl : m.RunsLoop thread lock above outcome rest) (h : m.Reachable) :
    (∃ above' outcome', m.step.RunsLoop thread lock above' outcome' rest ∧
      (m.loop? = some (lock, true) → m.world.thread ≠ thread)) ∨
    (∃ reply, lock < m.world.locks.length ∧ m.loop? = some (lock, false) ∧
      m.step = ⟨m.world.setLock lock ((m.world.lock lock).close thread).1, rest,
        .returned reply⟩) ∨
    ∃ items fault, m.step = ⟨m.world.setLock lock ((m.world.lock lock).close thread).1,
      .handingBack lock items :: .rethrowing fault :: rest, .returned .nothing⟩ := by
  have hacts := h.acts (.step m)
  cases above with
  | cons f above =>
    obtain ⟨above', hframes, hthreads⟩ := hacts.threadsOn hl.frames hl.thread fun _ _ _ => trivial
    refine .inl ⟨above', outcome, ⟨hframes, hthreads⟩, ?_⟩
    -- two loops for one lock cannot be run by one thread
    intro hloop hthread
    have honce := h.looped.once
    obtain ⟨w, frames, control⟩ := m
    obtain rfl : frames = f :: above ++ .dispatching lock outcome :: rest := hl.frames
    cases f with
    | dispatching lock' outcome' =>
      cases control with
      | unwinding fault =>
        obtain rfl : lock' = lock := by
          simpa [loop?] using hloop
        obtain rfl : w.thread = thread := hthread
        exact (List.nodup_cons.1 honce).1 (mem_loopsOf_of_threadsOn hl.thread)
      | _ => simp [loop?] at hloop
    | _ => simp [loop?] at hloop
  | nil =>
    obtain ⟨w, frames, control⟩ := m
    obtain rfl : frames = .dispatching lock outcome :: rest := hl.frames
    obtain rfl : w.thread = thread := hl.thread
    cases control with
    | aborted =>
      refine .inl ⟨[], outcome, ?_, by simp [loop?]⟩
      rw [step_aborted]
      exact hl
    | unwinding fault => exact .inr (.inr ⟨_, fault, rfl⟩)
    | returned reply =>
      have hid : lock < w.locks.length := by
        cases h.exists_ledger.1.stack with
        | frame hf _ => exact hf
      cases hnext : (w.lock lock).next w.thread with
      | none =>
        refine .inr (.inl ⟨outcome.getD reply, hid, rfl, ?_⟩)
        simp [Frame.resume, World.dispatch, hnext, ofMove, World.reply]
      | some found =>
        obtain ⟨r, l⟩ := found
        have hbase : ThreadsOn (· = w.thread) (fun _ => True) (w.setLock lock l).thread [] := rfl
        have hthreads := (World.makes_taken hid hnext).threadsOn hbase fun _ _ _ => trivial
        rw [List.append_nil] at hthreads
        refine .inl ⟨((w.setLock lock l).start lock r).frames, some (outcome.getD reply),
          ⟨?_, ?_⟩, by simp [loop?]⟩
        · simp [Frame.resume, World.dispatch, hnext, ofMove]
        · simpa [Frame.resume, World.dispatch, hnext, ofMove] using hthreads

end Machine

end FairLock
