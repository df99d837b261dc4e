import FairLock.Proofs.Machine.Subruns

/-!
# How moves are put together

A move records events, passes capabilities around, puts frames on the stack, and at some point may
touch run lists: it opens one, together with the loop that works it off, or puts a batch on one.
Here it is said for every operation on grants how its move is put together from such parts.  What
the parts keep, on top of any stack, every move keeps.

## Main definitions

- `World.SameLists`: nothing was done to threads and run lists.
- `World.Makes`: a move is put together from parts.

## Main statements

- `World.makes_submit`, `World.makes_start`, `World.makes_endGrant`: the operations on grants.
-/

namespace FairLock

/-- Is the frame no loop, no end of a thread and no entry point? -/
def Frame.isPlain : Frame → Bool
  | .dispatching _ _ => false
  | .joining _ _ => false
  | .invocation _ => false
  | _ => true

/-- Is the frame a loop or the end of a thread?  These two are taken off with more than themselves:
    a loop with its run list, the end of a thread with the thread. -/
def Frame.isLoopOrJoin : Frame → Bool
  | .dispatching _ _ => true
  | .joining _ _ => true
  | _ => false

namespace Lock

/-- A thread that is given a run list has one. -/
theorem isDispatching_openRunList (l : Lock Entry) (thread other : ThreadId)
    (batch : List (Request Entry)) :
    (l.openRunList thread batch).isDispatching other = true ↔
      l.isDispatching other = true ∨ other = thread := by
  simp only [isDispatching_eq_true_iff, openRunList, List.mem_append, List.mem_singleton]
  -- the new list is at the end of the others
  constructor
  · rintro ⟨run, hrun | rfl, ht⟩
    · exact .inl ⟨run, hrun, ht⟩
    · exact .inr ht.symm
  · rintro (⟨run, hrun, ht⟩ | rfl)
    · exact ⟨run, .inl hrun, ht⟩
    · exact ⟨_, .inr rfl, rfl⟩

end Lock

namespace World

/-- Threads and run lists are the same in both worlds. -/
structure SameLists (w v : World) : Prop where
  thread : v.thread = w.thread
  threads : v.threads = w.threads
  locks : v.locks.length = w.locks.length
  lists : ∀ id, (v.lock id).runLists = (w.lock id).runLists

/-- How a move is put together, as far as run lists, loops and threads are concerned. -/
inductive Makes : World → Move → Prop where
  | done {w : World} (control : Control) : Makes w { world := w, control := control }
  /-- First something happens that concerns no run list. -/
  | quiet {w v : World} {m : Move} (hm : Makes v m) (h : w.SameLists v) : Makes w m
  /-- A frame is put below all others. -/
  | under {w : World} {m : Move} {f : Frame} (hm : Makes w m) (hf : f.isPlain = true) :
      Makes w (m.before [f])
  /-- The boundary around an entry point is put below all others. -/
  | invoked {w : World} {m : Move} {g : Grant} (hm : Makes w m)
      (hloop : (w.lock g.lock).isDispatching w.thread = true) : Makes w (m.before [.invocation g])
  | scheduled {w : World} {lock : LockId} (hid : lock < w.locks.length)
      (batch : List (Request Entry)) : Makes w (w.schedule lock batch)
  /-- A loop is opened around everything. -/
  | looped {w : World} {m : Move} {lock : LockId} (hid : lock < w.locks.length)
      (h : (w.lock lock).isDispatching w.thread = false)
      (hm : Makes (w.setLock lock ((w.lock lock).openRunList w.thread [])) m) :
      Makes w (m.before [.dispatching lock none])
  | threaded {w : World} (context : Context) (body : Body) : Makes w (w.startThread context body)

/-! ## What concerns no run list -/

namespace SameLists

variable {w v : World}

theorem of_locks (hlocks : v.locks = w.locks) (hthread : v.thread = w.thread)
    (hthreads : v.threads = w.threads) : w.SameLists v := by
  refine ⟨hthread, hthreads, congrArg List.length hlocks, ?_⟩
  intro id
  rw [lock, hlocks]
  rfl

theorem setLock {id : LockId} {l : Lock Entry} (hruns : l.runLists = (w.lock id).runLists) :
    w.SameLists (w.setLock id l) := by
  refine ⟨rfl, rfl, w.length_locks_setLock id l, ?_⟩
  intro other
  by_cases hother : id = other
  · subst hother
    by_cases hid : id < w.locks.length
    · rw [lock_setLock_self hid, hruns]
    · -- there is no such lock, so nothing was put anywhere
      rw [lock, World.setLock, List.set_eq_of_length_le (Nat.le_of_not_lt hid)]
      rfl
  · rw [lock_setLock_of_ne hother]

theorem trans {u : World} (h : w.SameLists v) (h' : v.SameLists u) : w.SameLists u :=
  ⟨h'.thread.trans h.thread, h'.threads.trans h.threads, h'.locks.trans h.locks,
    fun id => (h'.lists id).trans (h.lists id)⟩

theorem isDispatching (h : w.SameLists v) (id : LockId) (thread : ThreadId) :
    (v.lock id).isDispatching thread = (w.lock id).isDispatching thread := by
  simp only [Lock.isDispatching, h.lists id]

end SameLists

theorem sameLists_emit (w : World) (e : Event) : w.SameLists (w.emit e) := .of_locks rfl rfl rfl

/-! ## The operations on grants -/

section Grants

variable {w : World} {g : Grant} {lock : LockId}

/-- Frames are put below all others. -/
theorem Makes.before {m : Move} (h : w.Makes m) {frames : List Frame}
    (hframes : ∀ f ∈ frames, f.isPlain = true) : w.Makes (m.before frames) := by
  induction frames generalizing m with
  | nil => simpa [Move.before] using h
  | cons f rest ih =>
    have hsplit : m.before (f :: rest) = (m.before [f]).before rest := by simp [Move.before]
    rw [hsplit]
    exact ih (h.under (hframes f (by simp))) fun f' hf' => hframes f' (by simp [hf'])

theorem makes_endUnended (hid : g.lock < w.locks.length) : w.Makes (w.endUnended g) := by
  cases hrelease : (w.lock g.lock).release g.id g.mode with
  | mk l batch =>
    -- neither way of a release writes to the run lists
    have hruns : l.runLists = (w.lock g.lock).runLists := by
      rcases Lock.release_cases hrelease with ⟨-, -, rfl⟩ | ⟨-, -, rfl⟩ <;> rfl
    have hlock : (w.reportHold g).lock g.lock = w.lock g.lock := rfl
    -- without a batch nothing is scheduled, and with one the thread gets it
    cases batch with
    | nil =>
      simp only [endUnended, hlock, hrelease]
      exact .quiet (.done _) ((SameLists.setLock hruns).trans (.of_locks rfl rfl rfl))
    | cons front rest =>
      simp only [endUnended, hlock, hrelease, issue_eq]
      refine .quiet (.scheduled ?_ _) ((SameLists.setLock hruns).trans (.of_locks rfl rfl rfl))
      simpa [notify, emit, setLock, reportHold] using hid

theorem makes_endGrant (w : World) (g : Grant) : w.Makes (w.endGrant g) := by
  unfold endGrant
  split
  · rename_i hunended
    exact makes_endUnended (lock_lt_of_isUnended hunended)
  · exact .done _

theorem makes_release (w : World) (g : Grant) : w.Makes (w.release g).1 := by
  unfold release
  split
  · rename_i hunended
    exact makes_endUnended (lock_lt_of_isUnended hunended)
  · have hcount : w.SameLists (w.setLock g.lock (w.lock g.lock).countRedundant) := .setLock rfl
    exact .quiet (.done _) (hcount.trans (sameLists_emit _ _))

theorem sameLists_discard (w : World) (grant : Option Grant) (entry : Entry) :
    w.SameLists (w.discard grant entry) := by
  obtain ⟨tag, channels, woken, heq, -, -⟩ := w.discard_eq grant entry
  rw [heq]
  exact .of_locks rfl rfl rfl

theorem sameLists_wake (w : World) (waker : Option String) : w.SameLists (w.wake waker) := by
  cases waker with
  | none => exact .of_locks rfl rfl rfl
  | some future => exact sameLists_emit w _

theorem makes_startTask (hloop : (w.lock g.lock).isDispatching w.thread = true) (t : Task) :
    w.Makes (w.startTask g t) := by
  refine .quiet (v := (w.startTask g t).world) ?_ (.of_locks rfl rfl rfl)
  have hplain : ∀ f ∈ [Frame.actions ⟨t.tag, some g, t.quiet⟩ none (w.actionsOf t.body),
      .finishing g t], f.isPlain = true := by simp [Frame.isPlain]
  have hbody := Makes.done (w := (w.startTask g t).world) (.returned .nothing)
  exact (hbody.before hplain).invoked hloop

theorem makes_startSender (hloop : (w.lock g.lock).isDispatching w.thread = true) (c : ChannelId) :
    w.Makes (w.startSender g c) := by
  unfold startSender
  refine .quiet (v := w.emit (.started g w.thread none)) ?_ (sameLists_emit _ _)
  -- the start is in a loop: what it puts down is its boundary,
  -- alone or above the drain of its own end
  dsimp only
  split
  · rename_i waker _
    refine .quiet ((Makes.done (.returned .nothing)).invoked ?_)
      (SameLists.trans ?_ (sameLists_wake _ waker))
    · cases waker <;> exact hloop
    · exact .of_locks rfl rfl rfl
  · exact Makes.invoked (makes_endGrant _ g) hloop

theorem makes_start {r : Request Entry} (hloop : (w.lock lock).isDispatching w.thread = true) :
    w.Makes (w.start lock r) := by
  unfold start
  refine .quiet (v := { w with entered := r.grant lock :: w.entered }) ?_ (.of_locks rfl rfl rfl)
  cases r.payload with
  | task t => exact makes_startTask hloop t
  | sender c => exact makes_startSender hloop c

/-- What a thread takes off its run list is started inside its loop. -/
theorem makes_taken {r : Request Entry} {l : Lock Entry} (hid : lock < w.locks.length)
    (hnext : (w.lock lock).next w.thread = some (r, l)) :
    (w.setLock lock l).Makes ((w.setLock lock l).start lock r) := by
  refine makes_start ?_
  obtain ⟨before, deferred, after, -, -, rfl⟩ := Lock.next_cases hnext
  rw [lock_setLock_self hid, Lock.isDispatching_eq_true_iff]
  exact ⟨⟨w.thread, deferred⟩, by simp, rfl⟩

theorem makes_startGranted {r : Request Entry} (hid : lock < w.locks.length) :
    w.Makes (w.startGranted lock r) := by
  unfold startGranted
  split
  · rename_i hloop
    exact makes_start hloop
  · rename_i hidle
    refine .looped hid (by simpa using hidle) (makes_start ?_)
    rw [lock_setLock_self hid, Lock.isDispatching_openRunList]
    exact .inr rfl

theorem makes_submit (hid : lock < w.locks.length) (mode : Mode) (entry : Entry) :
    w.Makes (w.submit lock mode entry) := by
  cases hsubmit : (w.lock lock).submit mode entry with
  | mk l submission =>
    -- whatever the lock answers, its run lists stay
    have hruns : l.runLists = (w.lock lock).runLists := by
      rcases Lock.submit_cases (w.lock lock) mode entry with
        ⟨_, _, h⟩ | ⟨_, _, _, h⟩ | ⟨_, _, h⟩
      all_goals
        rw [h] at hsubmit
        cases hsubmit
        rfl
    have hset : w.SameLists (w.setLock lock l) := .setLock hruns
    unfold submit
    simp only [hsubmit]
    cases submission with
    | granted r =>
      refine .quiet (makes_startGranted ?_) (hset.trans (.of_locks rfl rfl rfl))
      simpa [issue_eq, notify, emit] using hid
    | queued id pending => exact .quiet (.done _) (hset.trans (sameLists_emit _ _))
    | rejected refused limit =>
      exact .quiet (.done _) ((hset.trans (sameLists_emit _ _)).trans (sameLists_discard _ _ _))

theorem makes_reportFailure (w : World) (g : Grant) (failure : Failure) :
    w.Makes (w.reportFailure g failure) := by
  -- a failure that is counted changes no run list
  have hcount : w.SameLists (w.setLock g.lock (w.lock g.lock).countFailure) := .setLock rfl
  refine .quiet (.done _) (hcount.trans ?_)
  split
  · exact sameLists_emit _ _
  · exact .of_locks rfl rfl rfl

end Grants

end World

end FairLock
