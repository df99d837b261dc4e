import FairLock.Proofs.Machine.Acts

/-!
# What a transition does to one lock

Seen from one of its locks, a transition is next to nothing: the lock and its journal stay as they
are, or one operation of the lock has been performed on the running thread.  Only a capability that
nobody waits for any more makes it two, since its grant ends as soon as it is started.

`Machine.Turn` lists what can happen, like `Ledger.Step`, but with the thread that does it, and so
that a transition is one entry of the list.  Invariants of run lists and counters that speak of
threads or of single calls are read off it.

## Main definitions

- `World.Starts`: what starting an entry point comes down to.
- `Lock.Ends`: what becomes of a lock when one of its grants is ended.
- `Machine.Turn`: what a transition does to one lock.

## Main statements

- `World.starts_start`, `World.submit_of_granted`, `World.submit_of_queued`.
- `Machine.Acts.turn`: nothing else happens to a lock.
-/

namespace FairLock

/-! ## Starting and submitting, spelled out -/

namespace World

variable {w : World} {g : Grant} {lock : LockId} {r : Request Entry}

/-- The start of an entry point is recorded on its thread, with its span entered. -/
def begun (w : World) (g : Grant) (shown : Option (String × Option State)) : World :=
  { w with entered := g :: w.entered, history := .started g w.thread shown :: w.history }

/-- What starting an entry point comes down to. -/
inductive Starts (w : World) (lock : LockId) (r : Request Entry) : Move → Prop where
  | task {t : Task} (h : r.payload = .task t) (shown : Option (String × Option State))
      (body : List Action) :
      Starts w lock r
        { world := { w.begun (r.grant lock) shown with owned := r.grant lock :: w.owned }
          frames :=
            [.actions ⟨t.tag, some (r.grant lock), t.quiet⟩ none body,
              .finishing (r.grant lock) t, .invocation (r.grant lock)] }
  /-- The capability is sent. -/
  | sent {c : ChannelId} {waker : Option String} (h : r.payload = .sender c)
      (hc : w.channel c = .open waker) :
      Starts w lock r
        { world :=
            ((w.begun (r.grant lock) none).setChannel c (.sent (r.grant lock))).wake waker
          frames := [.invocation (r.grant lock)] }
  /-- Nobody waits for the capability, and its grant ends at once. -/
  | unheard {c : ChannelId} (h : r.payload = .sender c)
      (hc : ∀ waker, w.channel c ≠ .open waker) :
      Starts w lock r
        (((w.begun (r.grant lock) none).endGrant (r.grant lock)).before
          [.invocation (r.grant lock)])

theorem starts_start (w : World) (lock : LockId) (r : Request Entry) :
    w.Starts lock r (w.start lock r) := by
  unfold start
  cases h : r.payload with
  -- a task runs; a sender finds its receiver waiting or not
  | task t => exact .task h _ _
  | sender c =>
    unfold startSender
    dsimp only
    split
    · rename_i waker hc
      exact .sent h hc
    · rename_i hc
      exact .unheard h hc

/-- The entry is a task, or its capability is waited for. -/
def Hears (w : World) : Entry → Prop
  | .task _ => True
  | .sender c => ∃ waker, w.channel c = .open waker

/-- What is granted by its own submission is started where it stands; the loop of the thread is put
    below it if there is none yet. -/
theorem submit_of_granted {mode : Mode} {entry : Entry} {l : Lock Entry}
    (hid : lock < w.locks.length)
    (h : (w.lock lock).submit mode entry = (l, .granted r)) :
    w.submit lock mode entry =
      (({ w with
          locks := w.locks.set lock (l.dispatchOn w.thread)
          history :=
            .issued (r.grant lock) (currentSpan w.entered) ::
              .notice (.grantedImmediately (r.grant lock) l.state) w.entered :: w.history } :
        World).start lock r).before
        (if (w.lock lock).isDispatching w.thread then [] else [.dispatching lock none]) := by
  -- the lock that grants keeps its run lists, so the thread is in its loop or not, as before
  have hruns : l.isDispatching w.thread = (w.lock lock).isDispatching w.thread := by
    obtain ⟨-, -, -, rfl⟩ := Lock.submit_granted h
    rfl
  have hself : ∀ history, ({ w with
      locks := w.locks.set lock l, history := history } : World).lock lock = l := by
    intro history
    simpa only [World.lock, setLock] using lock_setLock_self hid l
  unfold submit
  simp only [h, issue_eq, notify, emit, setLock, startGranted, hself]
  rw [hruns]
  -- with a loop of its own the thread goes on in it, and without one it begins one
  cases hloop : (w.lock lock).isDispatching w.thread with
  | true =>
    have hsame : l.dispatchOn w.thread = l := by simp [Lock.dispatchOn, hruns, hloop]
    simp [hsame, Move.before, Request.grant]
  | false =>
    have hopened : l.dispatchOn w.thread = l.openRunList w.thread [] := by
      simp [Lock.dispatchOn, hruns, hloop]
    simp [hopened, Request.grant]

theorem submit_of_queued {mode : Mode} {entry : Entry} {l : Lock Entry} {n pending : Nat}
    (h : (w.lock lock).submit mode entry = (l, .queued n pending)) :
    w.submit lock mode entry =
      ((w.setLock lock l).notify (.queued ⟨lock, n, mode⟩ l.state pending)).reply .ok := by
  unfold submit
  simp only [h]

end World

/-! ## One lock -/

/-- What becomes of a lock when one of its grants is ended on a thread. -/
inductive Lock.Ends (id : LockId) (thread : ThreadId) (g : Grant) :
    Lock Entry → Journal → Lock Entry → Journal → Prop where
  /-- It had ended before, or belongs to another lock. -/
  | same {l : Lock Entry} {j : Journal} : Ends id thread g l j l j
  | ended {l l' : Lock Entry} {j : Journal} {batch : List (Request Entry)}
      (parent : Option Grant) (entered : List Grant) (hlock : g.lock = id)
      (hunended : l.isUnended g.id = true) (h : l.release g.id g.mode = (l', batch)) :
      Ends id thread g l j (l'.deferBatch thread batch)
        (drainEvents id batch l'.pending parent entered ++
          .notice (.released g l'.state l'.pending) entered ::
            .notice (l.holdNotice g) (g :: entered) :: j)

/-- The end of a grant is no news for another lock. -/
theorem Lock.Ends.eq_of_ne {id : LockId} {thread : ThreadId} {g : Grant} {l l' : Lock Entry}
    {j j' : Journal} (h : Lock.Ends id thread g l j l' j') (hne : g.lock ≠ id) :
    l' = l ∧ j' = j := by
  cases h with
  | same => exact ⟨rfl, rfl⟩
  | ended parent entered hlock hunended h => exact absurd hlock hne

/-- The end of a grant accepts, starts and hands back nothing. -/
theorem Lock.Ends.exists_new {id : LockId} {thread : ThreadId} {g : Grant} {l l' : Lock Entry}
    {j j' : Journal} (h : Lock.Ends id thread g l j l' j') :
    ∃ new, j' = new ++ j ∧ new.accepted = [] ∧ new.immediate = [] ∧ new.queued = [] ∧
      new.started = [] ∧ new.handedBack = [] := by
  cases h with
  | same => exact ⟨[], rfl, rfl, rfl, rfl, rfl, rfl⟩
  | ended parent entered hlock hunended h =>
    rename_i freed batch
    -- neither the report of the drain nor those of the release accept, start or hand back anybody
    have hdrain := Ledger.issues_drainEvents id batch freed.pending parent entered
    have hhold := Ledger.issues_holdNotice l g (g :: entered)
    refine ⟨drainEvents id batch freed.pending parent entered ++
      ([.notice (.released g freed.state freed.pending) entered] ++
        [.notice (l.holdNotice g) (g :: entered)]), by simp, ?_, ?_, ?_, ?_, ?_⟩
    all_goals
      simp only [Journal.accepted, Journal.immediate, Journal.queued, Journal.started,
        Journal.handedBack, occurrences_append, hdrain.accepted, hdrain.immediate, hdrain.queued,
        hdrain.started, hdrain.handedBack, hhold.accepted, hhold.immediate, hhold.queued,
        hhold.started, hhold.handedBack]
      rfl

namespace Machine

/-- The lock of the loop that is on top, if one is, and whether a fault arrives there. -/
def loop? (m : Machine) : Option (LockId × Bool) :=
  match m.frames, m.control with
  | .dispatching lock _ :: _, .unwinding _ => some (lock, true)
  | .dispatching lock _ :: _, _ => some (lock, false)
  | _, _ => none

/-- What a transition does on the running thread to a lock and its journal, if the calls that it
    makes are among the given ones and the given loop is on top. -/
inductive Turn (may : Call → Prop) (loop : Option (LockId × Bool)) (id : LockId) (thread : ThreadId) :
    Lock Entry → Journal → Lock Entry → Journal → Prop where
  | same {l : Lock Entry} {j : Journal} : Turn may loop id thread l j l j
  | granted {l l' : Lock Entry} {j : Journal} {mode : Mode} {entry : Entry} {r : Request Entry}
      (parent : Option Grant) (entered : List Grant) (shown : Option (String × Option State))
      (h : l.submit mode entry = (l', .granted r)) :
      Turn may loop id thread l j (l'.dispatchOn thread)
        (.started (r.grant id) thread shown :: .issued (r.grant id) parent ::
          .notice (.grantedImmediately (r.grant id) l'.state) entered :: j)
  | queued {l l' : Lock Entry} {j : Journal} {mode : Mode} {entry : Entry} {n pending : Nat}
      (entered : List Grant) (h : l.submit mode entry = (l', .queued n pending)) :
      Turn may loop id thread l j l' (.notice (.queued ⟨id, n, mode⟩ l'.state pending) entered :: j)
  | rejected {l l' : Lock Entry} {j : Journal} {mode : Mode} {entry refused : Entry} {limit : Nat}
      (entered : List Grant) (h : l.submit mode entry = (l', .rejected refused limit)) :
      Turn may loop id thread l j l' (.notice (.rejected id mode limit) entered :: j)
  | ended {l l' : Lock Entry} {j j' : Journal} {g : Grant}
      (h : Lock.Ends id thread g l j l' j') : Turn may loop id thread l j l' j'
  /-- A release is refused: the grant has ended before. -/
  | redundant {l : Lock Entry} {j : Journal} {g : Grant} (entered : List Grant)
      (hlock : g.lock = id) (hmay : may (.release g)) (hended : l.isUnended g.id = false) :
      Turn may loop id thread l j l.countRedundant (.notice (.redundant g) entered :: j)
  | failed {l : Lock Entry} {j : Journal} {g : Grant} (failure : Failure) (entered : List Grant)
      (hlock : g.lock = id) :
      Turn may loop id thread l j l.countFailure (l.failureEvents g failure entered ++ j)
  /-- The loop takes a request off its run list; a grant that nobody waits for ends at once. -/
  | taken {l l₁ l' : Lock Entry} {j j' : Journal} {r : Request Entry}
      (shown : Option (String × Option State)) (hloop : loop = some (id, false))
      (h : l.next thread = some (r, l₁))
      (hend : Lock.Ends id thread (r.grant id) l₁ (.started (r.grant id) thread shown :: j) l' j') :
      Turn may loop id thread l j l' j'
  /-- The loop has nothing left to do, and gives up its run list. -/
  | closed {l : Lock Entry} {j : Journal} (hloop : loop = some (id, false))
      (h : l.next thread = none) : Turn may loop id thread l j (l.close thread).1 j
  /-- The loop is unwound, and gives up its run list with what is on it. -/
  | unwound {l : Lock Entry} {j : Journal} (hloop : loop = some (id, true)) :
      Turn may loop id thread l j (l.close thread).1 j
  | dropped {l : Lock Entry} {j : Journal} {g : Grant} (tag : Option String)
      (hlock : g.lock = id) : Turn may loop id thread l j l (.discarded (some g) tag :: j)

/-- What a turn records.  An entry point that it starts runs on the running thread; it was granted
    on the spot, or the loop on top has taken its request off the run list. -/
theorem Turn.exists_new {may : Call → Prop} {loop : Option (LockId × Bool)} {id : LockId}
    {thread : ThreadId} {l l' : Lock Entry} {j j' : Journal} (h : Turn may loop id thread l j l' j') :
    ∃ new, j' = new ++ j ∧ ∀ g t shown, .started g t shown ∈ new →
      t = thread ∧ (g ∈ new.immediate ∨
        loop = some (id, false) ∧ ∃ r l₁, l.next thread = some (r, l₁) ∧ g = r.grant id) := by
  have hnone : ∀ {new : Journal}, new.started = [] → ∀ g t shown, .started g t shown ∉ new := by
    intro new hnew g t shown hmem
    have hstarted : g ∈ new.started := mem_occurrences.2 ⟨_, hmem, rfl⟩
    simp [hnew] at hstarted
  cases h with
  | same => exact ⟨[], rfl, by simp⟩
  | granted parent entered shown h =>
    refine ⟨[_, _, _], rfl, ?_⟩
    intro g t shown' hstart
    simp only [List.mem_cons, List.not_mem_nil, or_false, reduceCtorEq, Event.started.injEq] at hstart
    obtain ⟨rfl, rfl, -⟩ := hstart
    exact ⟨rfl, .inl (by simp)⟩
  | queued entered h => exact ⟨[_], rfl, by simp⟩
  | rejected entered h => exact ⟨[_], rfl, by simp⟩
  | ended h =>
    obtain ⟨new, hnew, -, -, -, hstarted, -⟩ := h.exists_new
    exact ⟨new, hnew, fun g t shown hmem => absurd hmem (hnone hstarted g t shown)⟩
  | redundant entered hlock hmay hended => exact ⟨[_], rfl, by simp⟩
  | failed failure entered hlock =>
    refine ⟨_, rfl, fun g t shown hmem => absurd hmem (hnone ?_ g t shown)⟩
    exact (Ledger.issues_failureEvents _ _ _ _).started
  | taken shown hloop h hend =>
    obtain ⟨new, hnew, -, -, -, hstarted, -⟩ := hend.exists_new
    refine ⟨new ++ [_], by rw [hnew, List.append_assoc]; rfl, ?_⟩
    intro g t shown' hmem
    -- nothing is started but what was taken off the list
    rcases List.mem_append.1 hmem with hmem | hmem
    · exact absurd hmem (hnone hstarted g t shown')
    · simp only [List.mem_singleton, Event.started.injEq] at hmem
      obtain ⟨rfl, rfl, -⟩ := hmem
      exact ⟨rfl, .inr ⟨hloop, _, _, h, rfl⟩⟩
  | closed hloop h => exact ⟨[], rfl, by simp⟩
  | unwound hloop => exact ⟨[], rfl, by simp⟩
  | dropped tag hlock => exact ⟨[_], rfl, by simp⟩

end Machine

namespace World

variable {may : Call → Prop} {loop : Option (LockId × Bool)} {w v : World} {g : Grant} {lock id : LockId}

/-- A world as one of its locks shows it goes over into another one. -/
def Turns (may : Call → Prop) (loop : Option (LockId × Bool)) (w v : World) (id : LockId) : Prop :=
  Machine.Turn may loop id w.thread (w.lock id) (w.journal id) (v.lock id) (v.journal id)

/-- The step of one lock is one for all of them. -/
theorem turns_of_views {l' : Lock Entry} {j' : Journal}
    (hviews : (v.lock lock = l' ∧ v.journal lock = j') ∧
      ∀ other, other ≠ lock → v.lock other = w.lock other ∧ v.journal other = w.journal other)
    (hturn : Machine.Turn may loop lock w.thread (w.lock lock) (w.journal lock) l' j') (id : LockId) :
    w.Turns may loop v id := by
  obtain ⟨⟨hlock, hjournal⟩, hothers⟩ := hviews
  unfold Turns
  -- the lock that moves takes its turn, and any other one stands still
  by_cases hid : id = lock
  · subst hid
    rw [hlock, hjournal]
    exact hturn
  · obtain ⟨hlock', hjournal'⟩ := hothers id hid
    rw [hlock', hjournal']
    exact .same

theorem views_setLock (hid : lock < w.locks.length) (l : Lock Entry) :
    ((w.setLock lock l).lock lock = l ∧ (w.setLock lock l).journal lock = w.journal lock) ∧
      ∀ other, other ≠ lock → (w.setLock lock l).lock other = w.lock other ∧
        (w.setLock lock l).journal other = w.journal other :=
  views_of_step l [] hid rfl rfl (by simp)

theorem ends_endGrant (w : World) (g : Grant) (id : LockId) :
    Lock.Ends id w.thread g (w.lock id) (w.journal id) ((w.endGrant g).world.lock id)
      ((w.endGrant g).world.journal id) := by
  unfold endGrant
  split
  · rename_i hunended
    have hid := lock_lt_of_isUnended hunended
    cases hrelease : (w.lock g.lock).release g.id g.mode with
    | mk l batch =>
      obtain ⟨⟨hlock, hjournal⟩, hothers⟩ := views_endUnended hid hrelease
      -- the grant ends on its own lock
      by_cases hg : id = g.lock
      · subst hg
        rw [hlock, hjournal, List.append_assoc]
        exact .ended _ _ rfl hunended hrelease
      · obtain ⟨hlock', hjournal'⟩ := hothers id hg
        rw [hlock', hjournal']
        exact .same
  · exact .same

theorem journal_begun (hlock : g.lock = lock) (w : World)
    (shown : Option (String × Option State)) :
    (w.begun g shown).journal lock = .started g w.thread shown :: w.journal lock ∧
      ∀ other, other ≠ lock → (w.begun g shown).journal other = w.journal other := by
  subst hlock
  constructor
  · simp [journal, begun, Event.lock?]
  · intro other hother
    simp [journal, begun, Event.lock?, Ne.symm hother]

/-- Sending a capability changes no lock, and is recorded in no journal. -/
theorem views_sent (w : World) (c : ChannelId) (channel : Channel) (waker : Option String)
    (id : LockId) :
    (((w.setChannel c channel).wake waker).lock id = w.lock id) ∧
      ((w.setChannel c channel).wake waker).journal id = w.journal id := by
  cases waker with
  | none => exact ⟨rfl, rfl⟩
  | some future => exact ⟨rfl, by simp [journal, wake, emit, setChannel, Event.lock?]⟩

/-- The start of an entry point, as the locks show it. -/
theorem views_start (w : World) (lock : LockId) (r : Request Entry) :
    ∃ shown,
      Lock.Ends lock w.thread (r.grant lock) (w.lock lock)
          (.started (r.grant lock) w.thread shown :: w.journal lock)
          ((w.start lock r).world.lock lock) ((w.start lock r).world.journal lock) ∧
        (∀ other, other ≠ lock → (w.start lock r).world.lock other = w.lock other ∧
          (w.start lock r).world.journal other = w.journal other) ∧
        (w.Hears r.payload → (w.start lock r).world.lock lock = w.lock lock ∧
          (w.start lock r).world.journal lock =
            .started (r.grant lock) w.thread shown :: w.journal lock) := by
  have hstarts := w.starts_start lock r
  generalize w.start lock r = m at hstarts
  cases hstarts with
  | task h shown body =>
    -- a start records itself; only if nobody waits the grant ends on top of it
    obtain ⟨hown, hother⟩ := journal_begun (rfl : (r.grant lock).lock = lock) w shown
    refine ⟨shown, ?_, fun other hne => ⟨rfl, hother other hne⟩, fun _ => ⟨rfl, hown⟩⟩
    show Lock.Ends lock w.thread _ _ _ (w.lock lock) ((w.begun (r.grant lock) shown).journal lock)
    exact hown ▸ .same
  | @sent c waker h hc =>
    obtain ⟨hown, hother⟩ := journal_begun (rfl : (r.grant lock).lock = lock) w none
    have hviews := (w.begun (r.grant lock) none).views_sent c (.sent (r.grant lock)) waker
    refine ⟨none, ?_, fun other hne => ⟨(hviews other).1, (hviews other).2.trans (hother other hne)⟩,
      fun _ => ⟨(hviews lock).1, (hviews lock).2.trans hown⟩⟩
    simp only [(hviews lock).1, (hviews lock).2]
    exact hown ▸ .same
  | @unheard c h hc =>
    obtain ⟨hown, hother⟩ := journal_begun (rfl : (r.grant lock).lock = lock) w none
    have hends := (w.begun (r.grant lock) none).ends_endGrant (r.grant lock)
    refine ⟨none, hown ▸ hends lock, ?_, ?_⟩
    · intro other hne
      obtain ⟨hlock, hjournal⟩ := (hends other).eq_of_ne (Ne.symm hne)
      exact ⟨hlock, hjournal.trans (hother other hne)⟩
    -- who is heard does not come to this
    · intro hhears
      rw [h] at hhears
      obtain ⟨waker, hopen⟩ := hhears
      exact absurd hopen (hc waker)

/-! ## Deeds -/

/-- A submission that is granted on the spot, as the locks show it. -/
theorem views_submit_of_granted {mode : Mode} {entry : Entry} {l : Lock Entry} {r : Request Entry}
    (hid : lock < w.locks.length) (hhears : w.Hears entry)
    (hsubmit : (w.lock lock).submit mode entry = (l, .granted r)) :
    ∃ shown,
      ((w.submit lock mode entry).world.lock lock = l.dispatchOn w.thread ∧
        (w.submit lock mode entry).world.journal lock =
          .started (r.grant lock) w.thread shown ::
            .issued (r.grant lock) (currentSpan w.entered) ::
              .notice (.grantedImmediately (r.grant lock) l.state) w.entered :: w.journal lock) ∧
      ∀ other, other ≠ lock → (w.submit lock mode entry).world.lock other = w.lock other ∧
        (w.submit lock mode entry).world.journal other = w.journal other := by
  have hr : r.payload = entry := by
    obtain ⟨-, -, rfl, -⟩ := Lock.submit_granted hsubmit
    rfl
  rw [submit_of_granted hid hsubmit]
  generalize hv : ({ w with
    locks := w.locks.set lock (l.dispatchOn w.thread)
    history :=
      .issued (r.grant lock) (currentSpan w.entered) ::
        .notice (.grantedImmediately (r.grant lock) l.state) w.entered :: w.history } :
    World) = v
  obtain ⟨⟨hlock, hjournal⟩, hothers⟩ := views_of_step (w := w) (l.dispatchOn w.thread) [_, _] hid
    (congrArg World.locks hv.symm) (congrArg World.history hv.symm)
    (by simp [Event.lock?, Notice.lock])
  -- the world that grants has the same channels, so the entry is heard there too
  have hheard : v.Hears r.payload := by
    subst hv
    exact hr ▸ hhears
  have hthread : v.thread = w.thread := by rw [← hv]
  obtain ⟨shown, -, hothers', hown⟩ := v.views_start lock r
  obtain ⟨hlock', hjournal'⟩ := hown hheard
  rw [hlock] at hlock'
  rw [hjournal, hthread] at hjournal'
  refine ⟨shown, ⟨hlock', hjournal'⟩, ?_⟩
  intro other hne
  exact ⟨(hothers' other hne).1.trans (hothers other hne).1,
    (hothers' other hne).2.trans (hothers other hne).2⟩

theorem turns_submit (hid : lock < w.locks.length) (mode : Mode) {entry : Entry}
    (hhears : w.Hears entry) (id : LockId) :
    w.Turns may loop (w.submit lock mode entry).world id := by
  cases hsubmit : (w.lock lock).submit mode entry with
  | mk l submission =>
    -- the three answers of the lock, each with its own turn
    cases submission with
    | granted r =>
      obtain ⟨shown, hviews⟩ := views_submit_of_granted hid hhears hsubmit
      exact turns_of_views hviews (.granted _ _ shown hsubmit) id
    | queued n pending =>
      rw [submit_of_queued hsubmit]
      refine turns_of_views (views_of_step _ [_] hid rfl rfl ?_) (.queued _ hsubmit) id
      simp [Event.lock?, Notice.lock]
    | rejected refused limit =>
      obtain ⟨-, -, -, rfl⟩ := Lock.submit_rejected hsubmit
      rw [submit_of_rejected hsubmit]
      generalize hv : (w.setLock lock { w.lock lock with
        stats := (w.lock lock).stats.countRejected }).notify (.rejected lock mode limit) = v
      obtain ⟨⟨hlock, hjournal⟩, hothers⟩ := views_of_step (w := w) _ [_] hid
        (congrArg World.locks hv.symm) (congrArg World.history hv.symm)
        (by simp [Event.lock?, Notice.lock])
      -- the refused entry is dropped, and that is seen on no lock
      have hlock' := (lock_discard v none entry lock).trans hlock
      have hjournal' := (journal_discard_none v entry lock).trans hjournal
      refine turns_of_views ⟨⟨hlock', hjournal'⟩, ?_⟩ (.rejected w.entered hsubmit) id
      intro other hne
      obtain ⟨hlock, hjournal⟩ := hothers other hne
      exact ⟨(lock_discard _ _ _ _).trans hlock, (journal_discard_none _ _ _).trans hjournal⟩

theorem Deed.turns {m : Move} (h : Deed may w m) (loop : Option (LockId × Bool)) (id : LockId) :
    w.Turns may loop m.world id := by
  -- the one deed of a move is what is seen on the lock, if it is the lock of the deed
  cases h with
  | done control => exact .same
  | @ended g h =>
    have hends := w.ends_endGrant g id
    rw [endGrant, if_pos h] at hends
    exact .ended hends
  | @dropped c g h => exact .ended ((w.setChannel c .gone).ends_endGrant g id)
  | @refused g hmay hid h =>
    have hrefused : (w.release g).1.world =
        (w.setLock g.lock (w.lock g.lock).countRedundant).notify (.redundant g) := by
      simp [release, h]
    rw [hrefused]
    refine turns_of_views (views_of_step _ [_] hid rfl rfl ?_) (.redundant _ rfl hmay h) id
    simp [Event.lock?, Notice.lock]
  | submitted hid mode task =>
    have hhears : w.Hears (.task task) := trivial
    exact turns_submit hid mode hhears id
  | requested hid mode =>
    refine turns_submit (w := w.newChannel.1) hid mode ?_ id
    exact ⟨none, by simp [newChannel, channel]⟩
  | @reported g hid failure =>
    have hworld := reportFailure_eq hid failure
    refine turns_of_views (views_of_step _ _ hid (by rw [hworld]) (by rw [hworld])
      (failureEvents_lock _ _ _ _)) (.failed failure w.entered rfl) id
  | threaded context body => exact .same

theorem Deals.turns {m : Move} (h : w.Deals may m) (loop : Option (LockId × Bool)) (id : LockId) :
    w.Turns may loop m.world id := by
  obtain ⟨hbefore, hdeed, below, -⟩ := h
  have hapart := apart_of_receives hbefore
  have hturns := hdeed.turns loop id
  unfold Turns at hturns ⊢
  rw [hapart.thread, hapart.lock, hapart.journal] at hturns
  exact hturns

end World

namespace Machine

variable {may : Call → Prop} {m m' : Machine}

/-- Nothing else happens to a lock. -/
theorem Acts.turn (h : m.Acts may m') (id : LockId) : m.world.Turns may m.loop? m'.world id := by
  cases h with
  | rests => exact .same
  | moves htop h => exact h.turns _ id
  | @takes w lock outcome below reply r l hid hnext =>
    -- the request leaves the run list first, and then the entry point is started
    have hset := World.views_setLock hid l
    obtain ⟨shown, hends, hothers, -⟩ := (w.setLock lock l).views_start lock r
    rw [hset.1.1, hset.1.2] at hends
    refine World.turns_of_views ⟨⟨rfl, rfl⟩, ?_⟩ (.taken shown rfl hnext hends) id
    intro other hne
    obtain ⟨hlock, hjournal⟩ := hothers other hne
    obtain ⟨hlock', hjournal'⟩ := hset.2 other hne
    exact ⟨hlock.trans hlock', hjournal.trans hjournal'⟩
  | @closes w lock outcome below reply hid hnext =>
    exact World.turns_of_views (World.views_setLock hid _) (.closed rfl hnext) id
  | @unwinds w lock outcome below fault hid =>
    exact World.turns_of_views (World.views_setLock hid _) (.unwound rfl) id
  | @handsBack w lock r items below reply hid => exact .ended (w.ends_endGrant (r.grant lock) id)
  | @discards w g entry below reply hid =>
    obtain ⟨tag, hjournal, hothers⟩ := w.journal_discard g entry
    refine World.turns_of_views ⟨⟨w.lock_discard _ _ _, hjournal⟩, ?_⟩ (.dropped tag rfl) id
    exact fun other hne => ⟨w.lock_discard _ _ _, hothers other hne⟩
  | leaves hf hout => exact .same
  | joins reply => exact .same

theorem Reachable.turn (h : m.Reachable) (hn : Next m m') (id : LockId) :
    m.world.Turns (m.Calls m') m.loop? m'.world id :=
  (h.acts hn).turn id

end Machine

end FairLock
