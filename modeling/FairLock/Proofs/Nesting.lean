import FairLock.Proofs.Machine.Loops
import FairLock.Proofs.Machine.Turns
import FairLock.Proofs.StartOrder

/-!
# Entry points inside one another

An entry point that is granted from the queue is started by the loop that lies right below it, and
a thread has one loop of a lock at most.  Every entry point of the lock on that thread runs inside
this loop, so none of them lies below it: the new one is the only one.  What does run inside an
entry point of the same lock and thread was granted on the spot.

## Main definitions

- `entriesOf`, `Machine.entries`: the entry points at work on a stack, and those of one thread.
- `World.Nests`: the invariant.

## Main statements

- `World.Deals.brings`: a move puts entry points on the stack only if it grants them on the spot.
- `Machine.Acts.nests`, `Machine.Reachable.nests`.
- `run_lists_nest`: run lists, loops and entry points of a reachable machine.
-/

namespace FairLock

/-! ## Entry points on a stack -/

/-- The entry points at work on a stack, the innermost first, each with the thread that runs it. -/
def entriesOf (thread : ThreadId) : List Frame → List (ThreadId × Grant)
  | [] => []
  | .invocation g :: rest => (thread, g) :: entriesOf thread rest
  | .joining waiting _ :: rest => entriesOf waiting rest
  | _ :: rest => entriesOf thread rest

/-- The entry points at work on a thread, the innermost first. -/
def Machine.entries (m : Machine) (thread : ThreadId) : List Grant :=
  ((entriesOf m.world.thread m.frames).filter fun e => e.1 == thread).map (·.2)

/-- Is the frame neither an entry point nor the end of a thread? -/
def Frame.isBare : Frame → Bool
  | .invocation _ => false
  | .joining _ _ => false
  | _ => true

theorem Frame.isBare_of_isPlain {f : Frame} (h : f.isPlain = true) : f.isBare = true := by
  cases f <;> first | rfl | cases h

section Entries

variable {thread t : ThreadId} {frames : List Frame} {g : Grant}

theorem entriesOf_append_bare {pushed : List Frame} (h : ∀ f ∈ pushed, f.isBare = true)
    (rest : List Frame) : entriesOf thread (pushed ++ rest) = entriesOf thread rest := by
  induction pushed with
  | nil => rfl
  | cons f pushed ih =>
    have hf : f.isBare = true := h f (by simp)
    have hrest := ih fun f' hf' => h f' (by simp [hf'])
    cases f with
    | invocation g => cases hf
    | joining waiting entered => cases hf
    | _ => exact hrest

/-- Where entry points run inside their loops, a thread without a loop runs none. -/
theorem mem_loopsOf_of_mem_entriesOf (h : Sheltered thread frames)
    (hg : (t, g) ∈ entriesOf thread frames) : (t, g.lock) ∈ loopsOf thread frames := by
  -- down the stack: an entry point is recorded at its boundary, and there its loop lies below
  induction frames generalizing thread with
  | nil => cases hg
  | cons f rest ih =>
    cases f with
    | invocation outer =>
      rcases List.mem_cons.1 hg with heq | hg
      · cases heq
        exact h.1
      · exact ih h.2 hg
    | joining waiting entered => exact ih h hg
    | dispatching lock outcome => exact List.mem_cons_of_mem _ (ih h hg)
    | _ => exact ih h hg

end Entries

/-! ## What a move puts on the stack -/

namespace World

variable {may : Call → Prop} {w v : World} {m : Move} {g : Grant} {lock : LockId}

/-- The move puts these entry points on the stack, the innermost first, all on the running
    thread. -/
def Brings (w : World) (m : Move) (grants : List Grant) : Prop :=
  ∀ below, entriesOf m.world.thread (m.frames ++ below) =
    (grants.map fun g => (w.thread, g)) ++ entriesOf w.thread below

theorem Brings.of_bare (hthread : m.world.thread = w.thread)
    (hframes : ∀ f ∈ m.frames, f.isBare = true) : w.Brings m [] := by
  intro below
  rw [entriesOf_append_bare hframes, hthread]
  rfl

theorem Brings.entries {grants : List Grant} (h : w.Brings m grants) (below : List Frame) :
    entriesOf (Machine.ofMove m below).world.thread (Machine.ofMove m below).frames =
      (grants.map fun g => (w.thread, g)) ++ entriesOf w.thread below :=
  h below

/-- Frames are put below all others. -/
theorem Brings.before {grants : List Grant} (h : w.Brings m grants) {frames : List Frame}
    (hframes : ∀ f ∈ frames, f.isBare = true) : w.Brings (m.before frames) grants := by
  intro below
  have hbelow := h (frames ++ below)
  rw [entriesOf_append_bare hframes] at hbelow
  simpa [List.append_assoc] using hbelow

theorem brings_endGrant (w : World) (g : Grant) : w.Brings (w.endGrant g) [] := by
  unfold endGrant
  split
  · rename_i hunended
    have hid := lock_lt_of_isUnended hunended
    -- what an end puts on the stack is a loop, which is no entry point
    apply Brings.of_bare
    · cases hrelease : (w.lock g.lock).release g.id g.mode with
      | mk l batch => rw [(endUnended_eq hid hrelease).1]
    · intro f hf
      rw [loop_of_mem_endUnended hid hf]
      rfl
  · exact .of_bare rfl (by simp)

theorem brings_start (w : World) (lock : LockId) (r : Request Entry) :
    w.Brings (w.start lock r) [r.grant lock] := by
  have hstarts := w.starts_start lock r
  generalize w.start lock r = m at hstarts
  -- a start puts the boundary of its own grant on the stack, and no other
  cases hstarts with
  | task h shown body => exact fun below => rfl
  | @sent c waker h hc =>
    intro below
    cases waker <;> rfl
  | unheard h hc =>
    intro below
    have hend := (w.begun (r.grant lock) none).brings_endGrant (r.grant lock)
    show entriesOf _ (_ ++ [.invocation (r.grant lock)] ++ below) = _
    rw [Move.world_before, List.append_assoc, List.singleton_append, hend]
    rfl

/-- A submission puts an entry point on the stack only if it grants it on the spot. -/
theorem brings_submit (hid : lock < w.locks.length) (mode : Mode) {entry : Entry}
    (hhears : w.Hears entry) :
    ∃ grants, w.Brings (w.submit lock mode entry) grants ∧
      ∀ g ∈ grants, g ∈ ((w.submit lock mode entry).world.journal g.lock).immediate := by
  cases hsubmit : (w.lock lock).submit mode entry with
  | mk l submission =>
    -- only a granted submission starts somebody, and then its own request
    cases submission with
    | granted r =>
      obtain ⟨shown, ⟨-, hjournal⟩, -⟩ := views_submit_of_granted hid hhears hsubmit
      refine ⟨[r.grant lock], ?_, ?_⟩
      · rw [submit_of_granted hid hsubmit]
        apply Brings.before
        · exact brings_start _ lock r
        · split <;> simp [Frame.isBare]
      · intro g hg
        obtain rfl := List.mem_singleton.1 hg
        rw [Request.grant_lock, hjournal]
        simp
    | queued n pending =>
      refine ⟨[], ?_, by simp⟩
      rw [submit_of_queued hsubmit]
      exact .of_bare rfl (by simp [World.reply])
    | rejected refused limit =>
      refine ⟨[], ?_, by simp⟩
      obtain ⟨-, -, -, rfl⟩ := Lock.submit_rejected hsubmit
      rw [submit_of_rejected hsubmit]
      exact .of_bare (sameLists_discard _ _ _).thread (by simp [World.reply])

theorem Deed.brings (h : Deed may w m) :
    ∃ grants, w.Brings m grants ∧ ∀ g ∈ grants, g ∈ (m.world.journal g.lock).immediate := by
  have hnone : ∀ {m : Move}, w.Brings m [] →
      ∃ grants, w.Brings m grants ∧ ∀ g ∈ grants, g ∈ (m.world.journal g.lock).immediate :=
    fun hm => ⟨[], hm, by simp⟩
  -- the other deeds put no boundary on the stack
  cases h with
  | done control => exact hnone (.of_bare rfl (by simp))
  | @ended g h =>
    have hend := w.brings_endGrant g
    rw [endGrant, if_pos h] at hend
    exact hnone hend
  | @dropped c g h => exact hnone ((w.setChannel c .gone).brings_endGrant g)
  | refused hmay hid h =>
    apply hnone
    rw [release, h]
    exact .of_bare rfl (by simp)
  | submitted hid mode task =>
    have hhears : w.Hears (.task task) := trivial
    exact brings_submit hid mode hhears
  | requested hid mode =>
    have hhears : w.newChannel.1.Hears (.sender w.newChannel.2) :=
      ⟨none, by simp [newChannel, channel]⟩
    exact brings_submit (w := w.newChannel.1) hid mode hhears
  | reported hid failure =>
    apply hnone
    apply Brings.of_bare
    · rw [reportFailure_eq hid failure]
    · simp [reportFailure, World.reply]
  | threaded context body => exact hnone fun below => rfl

/-- A move puts entry points on the stack only if it grants them on the spot. -/
theorem Deals.brings (h : w.Deals may m) :
    ∃ grants, w.Brings m grants ∧ ∀ g ∈ grants, g ∈ (m.world.journal g.lock).immediate := by
  obtain ⟨hbefore, hdeed, below, hbelow⟩ := h
  obtain ⟨grants, hbrings, himmediate⟩ := hdeed.brings
  refine ⟨grants, ?_, himmediate⟩
  have hbare : ∀ f ∈ below, f.isBare = true := fun f hf => Frame.isBare_of_isPlain (hbelow f hf).2
  intro stack
  rw [hbrings.before hbare stack, (apart_of_receives hbefore).thread]

/-! ## Entry points inside entry points -/

/-- Whatever runs inside an entry point of the same lock and thread was granted on the spot. -/
def Nests (w : World) (entries : List (ThreadId × Grant)) : Prop :=
  entries.Pairwise fun inner outer => inner.1 = outer.1 → inner.2.lock = outer.2.lock →
    inner.2 ∈ (w.journal inner.2.lock).immediate

theorem Nests.mono {entries : List (ThreadId × Grant)} (h : w.Nests entries)
    (hjournal : ∀ id, w.journal id <:+ v.journal id) : v.Nests entries := by
  apply h.imp
  intro inner outer himmediate hthread hlock
  exact mem_occurrences_of_suffix (hjournal _) (himmediate hthread hlock)

/-- What was granted on the spot may run inside anything. -/
theorem Nests.granted {entries : List (ThreadId × Grant)} (h : w.Nests entries)
    {grants : List Grant} (hgrants : ∀ g ∈ grants, g ∈ (w.journal g.lock).immediate)
    (thread : ThreadId) : w.Nests ((grants.map fun g => (thread, g)) ++ entries) := by
  induction grants with
  | nil => exact h
  | cons g grants ih =>
    apply List.Pairwise.cons
    · intro outer _ _ _
      exact hgrants g (by simp)
    · exact ih fun g' hg' => hgrants g' (by simp [hg'])

/-- On the thread of a loop, nothing of its lock runs below the loop. -/
theorem Looped.ne_lock {outcome : Option Reply} {below : List Frame}
    (h : w.Looped (.dispatching lock outcome :: below))
    (hg : (w.thread, g) ∈ entriesOf w.thread below) : g.lock ≠ lock := by
  obtain ⟨hnew, -⟩ := List.nodup_cons.1 h.once
  rintro rfl
  exact hnew (mem_loopsOf_of_mem_entriesOf h.sheltered hg)

theorem Looped.none_of_lock {outcome : Option Reply} {below : List Frame}
    (h : w.Looped (.dispatching lock outcome :: below)) :
    (((entriesOf w.thread below).filter fun e => e.1 == w.thread).map (·.2)).filter
      (fun g => g.lock == lock) = [] := by
  rw [List.filter_eq_nil_iff]
  intro g hg hlock
  obtain ⟨⟨t, g⟩, he, rfl⟩ := List.mem_map.1 hg
  obtain ⟨hmem, hthread⟩ := List.mem_filter.1 he
  -- an entry point of this lock would need a second loop for it below
  obtain rfl : t = w.thread := by simpa using hthread
  exact h.ne_lock hmem (by simpa using hlock)

end World

/-! ## Transitions -/

namespace Machine

variable {m m' : Machine} {may : Call → Prop}

/-- A transition starts something inside another entry point of the same lock and thread only if it
    grants it on the spot. -/
theorem Acts.nests (h : m.Acts may m') (hlooped : m.world.Looped m.frames)
    (hjournal : ∀ id, m.world.journal id <:+ m'.world.journal id)
    (hn : m.world.Nests (entriesOf m.world.thread m.frames)) :
    m'.world.Nests (entriesOf m'.world.thread m'.frames) := by
  have hlater := hn.mono hjournal
  cases h with
  | rests => exact hn
  | @moves w top below control move htop h =>
    obtain ⟨grants, hbrings, himmediate⟩ := h.brings
    rw [hbrings.entries]
    apply World.Nests.granted _ himmediate
    -- the frame on top may be an entry point, and then it is gone
    cases top with
    | none => exact hlater
    | some f =>
      cases f with
      | invocation g => exact hlater.of_cons
      | joining waiting entered => exact absurd (htop _ rfl) (by simp [Frame.isSimple])
      | _ => exact hlater
  | @takes w lock outcome below reply r l hid hnext =>
    have hbrings := (w.setLock lock l).brings_start lock r
    rw [hbrings.entries]
    apply List.Pairwise.cons
    · intro outer houter hthread hlock
      obtain ⟨t, g⟩ := outer
      obtain rfl : w.thread = t := hthread
      exact absurd hlock.symm (hlooped.ne_lock houter)
    · exact hlater
  | closes hid hnext => exact hlater
  | unwinds hid => exact hlater
  | @handsBack w lock r items below reply hid =>
    have hbrings := w.brings_endGrant (r.grant lock)
    rw [hbrings.entries]
    exact hlater
  | @discards w g entry below reply hid =>
    rw [(w.sameLists_discard (some g) entry).thread]
    exact hlater
  | @leaves w f below control control' hf hout =>
    have hbare : ∀ f' ∈ [f], f'.isBare = true :=
      List.forall_mem_singleton.2 (Frame.isBare_of_isPlain hf)
    have hgone : entriesOf w.thread (f :: below) = entriesOf w.thread below :=
      entriesOf_append_bare hbare below
    exact hgone ▸ hlater
  | joins reply => exact hlater

/-- What runs inside an entry point of the same lock and thread was granted on the spot. -/
theorem Reachable.nests (h : m.Reachable) :
    m.world.Nests (entriesOf m.world.thread m.frames) := by
  obtain ⟨configs, procedures, hr⟩ := h
  induction hr with
  | refl => exact List.Pairwise.nil
  | @tail m m' hbefore hn ih =>
    have hm : m.Reachable := ⟨configs, procedures, hbefore⟩
    apply (hm.acts hn).nests hm.looped _ ih
    intro id
    exact (hm.history_suffix (.single hn)).filter _

/-- The events that a transition adds to a history, as the journal of a lock shows them. -/
theorem journal_of_history {w v : World} {new : List Event}
    (hnew : v.history = new ++ w.history) (id : LockId) :
    v.journal id = (new.filter fun e => e.lock? == some id) ++ w.journal id := by
  rw [World.journal, hnew, List.filter_append]
  rfl

section Started

variable {new : List Event} {g : Grant} {thread : ThreadId} {shown : Option (String × Option State)}
  (hnew : m'.world.history = new ++ m.world.history) (hstart : .started g thread shown ∈ new)
include hnew hstart

/-- An entry point that was not granted on the spot is started off the run list of a loop. -/
theorem next_of_started {loop : Option (LockId × Bool)}
    (hturn : m.world.Turns may loop m'.world g.lock)
    (hnot : g ∉ (m'.world.journal g.lock).immediate) :
    thread = m.world.thread ∧ loop = some (g.lock, false) ∧
      ∃ r l, (m.world.lock g.lock).next m.world.thread = some (r, l) ∧ g = r.grant g.lock := by
  have hjournal := journal_of_history hnew g.lock
  have hstart' : .started g thread shown ∈ new.filter fun e => e.lock? == some g.lock :=
    List.mem_filter.2 ⟨hstart, by simp [Event.lock?]⟩
  obtain ⟨more, hmore, hstarts⟩ := hturn.exists_new
  obtain rfl := List.append_cancel_right (hmore.symm.trans hjournal)
  -- started on the spot, the grant would be an immediate one
  obtain ⟨hthread, himmediate | hloop⟩ := hstarts g thread shown hstart'
  · apply absurd _ hnot
    rw [hjournal, Journal.immediate, FairLock.occurrences_append]
    exact List.mem_append_right _ himmediate
  · exact ⟨hthread, hloop⟩

/-- An entry point that had to wait is the only one of its lock on its thread when it is started. -/
theorem Reachable.alone_of_started (h : m.Reachable) (hn : Next m m')
    (hqueued : g ∈ (m'.world.journal g.lock).queued) :
    thread = m.world.thread ∧ ((m'.entries thread).filter fun g' => g'.lock == g.lock) = [g] := by
  have hnot : g ∉ (m'.world.journal g.lock).immediate := by
    intro himmediate
    obtain ⟨out, -, hsound⟩ := (h.reaches (.single hn)).sound g.lock
    exact hsound.not_immediate_and_queued himmediate hqueued
  have hnone : ∀ {may}, m.world.Turns may none m'.world g.lock →
      thread = m.world.thread ∧
        ((m'.entries thread).filter fun g' => g'.lock == g.lock) = [g] := by
    intro may hturn
    obtain ⟨-, hloop, -⟩ := next_of_started hnew hstart hturn hnot
    cases hloop
  have hsilent : m'.world.history = m.world.history → False := by
    intro hsame
    obtain rfl : new = [] := List.append_cancel_right (hnew.symm.trans hsame)
    cases hstart
  have hlooped := h.looped
  have hacts := h.acts hn
  have hturn := hacts.turn g.lock
  -- only a loop that takes a request off its run list can have started the entry point
  cases hacts with
  | rests => exact (hsilent rfl).elim
  | moves htop h => exact hnone (h.turns none g.lock)
  | @takes w lock outcome below reply r l hid hnext =>
    obtain ⟨rfl, hloop, r', l', hnext', hg⟩ := next_of_started hnew hstart hturn hnot
    obtain rfl : lock = g.lock := congrArg Prod.fst (Option.some.inj hloop)
    have hsame : (r, l) = (r', l') := Option.some.inj (hnext.symm.trans hnext')
    cases hsame
    refine ⟨rfl, ?_⟩
    have hbrings := (w.setLock g.lock l).brings_start g.lock r
    rw [entries, hbrings.entries, ← hg]
    show ((((w.thread, g) :: entriesOf w.thread below).filter fun e => e.1 == w.thread).map
      (·.2)).filter (fun g' => g'.lock == g.lock) = [g]
    simpa using hlooped.none_of_lock
  | closes hid hnext => exact (hsilent rfl).elim
  | unwinds hid => exact (hsilent rfl).elim
  | @handsBack w lock r items below reply hid => exact hnone hturn
  | discards hid => exact hnone hturn
  | leaves hf hout => exact (hsilent rfl).elim
  | joins reply => exact (hsilent rfl).elim

end Started

/-- The entry points of one thread that had to wait belong to different locks. -/
theorem Reachable.locks_nodup (h : m.Reachable) (thread : ThreadId) :
    (((m.entries thread).filter fun g => g ∈ (m.world.journal g.lock).queued).map
      (·.lock)).Nodup := by
  have hthread : ((entriesOf m.world.thread m.frames).filter fun e => e.1 == thread).Pairwise
      fun inner outer => inner.2.lock = outer.2.lock →
        inner.2 ∈ (m.world.journal inner.2.lock).immediate := by
    apply (h.nests.filter _).imp_of_mem
    intro inner outer hinner houter himmediate
    have hi : inner.1 = thread := by simpa using (List.mem_filter.1 hinner).2
    have ho : outer.1 = thread := by simpa using (List.mem_filter.1 houter).2
    exact himmediate (hi.trans ho.symm)
  have hentries : (m.entries thread).Pairwise fun inner outer => inner.lock = outer.lock →
      inner ∈ (m.world.journal inner.lock).immediate := List.pairwise_map.2 hthread
  apply List.pairwise_map.2
  apply (hentries.filter _).imp_of_mem
  intro inner outer hinner _ himmediate hlock
  -- the inner one had to wait, so it was not granted on the spot
  have hqueued : inner ∈ (m.world.journal inner.lock).queued := by
    simpa using (List.mem_filter.1 hinner).2
  obtain ⟨out, -, hsound⟩ := h.sound inner.lock
  exact hsound.not_immediate_and_queued (himmediate hlock) hqueued

/-- So there are no more of them than locks. -/
theorem Reachable.length_queued_le (h : m.Reachable) (thread : ThreadId) :
    ((m.entries thread).filter fun g => g ∈ (m.world.journal g.lock).queued).length ≤
      m.world.locks.length := by
  -- an entry point lies in a loop of its lock, and that lock is there
  have hlocks : ((m.entries thread).filter fun g =>
      g ∈ (m.world.journal g.lock).queued).map (·.lock) ⊆ List.range m.world.locks.length := by
    intro lock hlock
    obtain ⟨g, hg, rfl⟩ := List.mem_map.1 hlock
    obtain ⟨⟨t, g⟩, he, rfl⟩ := List.mem_map.1 (List.mem_of_mem_filter hg)
    have hloop := mem_loopsOf_of_mem_entriesOf h.looped.sheltered (List.mem_of_mem_filter he)
    rw [← h.looped.lists, Lock.isDispatching_eq_true_iff] at hloop
    obtain ⟨run, hrun, -⟩ := hloop
    apply List.mem_range.2
    by_contra hid
    rw [World.lock_of_not_lt hid] at hrun
    cases hrun
  -- one entry point per lock, so counting them is counting different locks
  calc ((m.entries thread).filter fun g => g ∈ (m.world.journal g.lock).queued).length
    _ = (((m.entries thread).filter fun g =>
          g ∈ (m.world.journal g.lock).queued).map (·.lock)).length := (List.length_map _).symm
    _ ≤ (List.range m.world.locks.length).length :=
      ((h.locks_nodup thread).subperm hlocks).length_le
    _ = m.world.locks.length := List.length_range

end Machine

/-- Take any machine that can come about.  Each lock has one run list for a thread at most, and a
    thread has one for a lock exactly while a loop of that lock on that thread lies on the stack, of
    which there is one at most.  So once an action at top level is done, returned or unwound, no
    run list is left.

    If a transition starts an entry point that had to wait, then on the thread that is running, and
    there no other entry point of the same lock is at work.  So the entry points on the stack of one
    thread that had to wait are no more than there are locks. -/
theorem run_lists_nest {m : Machine} (h : m.Reachable) :
    (∀ id, ((m.world.lock id).runLists.map (·.thread)).Nodup) ∧
    (∀ id thread, (m.world.lock id).isDispatching thread = true ↔
      (thread, id) ∈ loopsOf m.world.thread m.frames) ∧
    (loopsOf m.world.thread m.frames).Nodup ∧
    (m.frames = [] → ∀ id, (m.world.lock id).runLists = []) ∧
    (∀ m', m.Next m' → ∀ new, m'.world.history = new ++ m.world.history →
      ∀ g thread shown, .started g thread shown ∈ new →
        g ∈ (m'.world.journal g.lock).queued →
        thread = m.world.thread ∧
          ((m'.entries thread).filter fun g' => g'.lock == g.lock) = [g]) ∧
    (∀ thread, ((m.entries thread).filter fun g => g ∈ (m.world.journal g.lock).queued).length ≤
      m.world.locks.length) := by
  have hlooped := h.looped
  refine ⟨h.threads_nodup, hlooped.lists, hlooped.once, ?done, ?starts, h.length_queued_le⟩
  case done =>
    -- a run list that is left would have its loop on the stack
    intro hframes id
    apply List.eq_nil_iff_forall_not_mem.2
    intro run hrun
    have hloop := (hlooped.lists id run.thread).1 (Lock.isDispatching_eq_true_iff.2 ⟨run, hrun, rfl⟩)
    rw [hframes] at hloop
    cases hloop
  case starts =>
    intro m' hn new hnew g thread shown hstart hqueued
    exact h.alone_of_started hnew hstart hn hqueued

/-- The first reader is taken off the run list when the writer has left the stack.  Later the third
    one runs inside the first, and only the first had to wait.  In the end no run list is left. -/
theorem run_lists_nest_writerAndReaders :
    (((writerAndReadersAfter {} [] 6).step.entries 0).filter fun g => g.lock == 0) =
        [⟨0, 2, .read⟩] ∧
    (writerAndReadersAfter {} [] 8).entries 0 = [⟨0, 4, .read⟩, ⟨0, 2, .read⟩] ∧
    (((writerAndReadersAfter {} [] 8).entries 0).filter fun g =>
      g ∈ ((writerAndReadersAfter {} [] 8).world.journal g.lock).queued).length ≤ 1 ∧
    ((writerAndReadersAfter {} [] 22).world.lock 0).runLists = [] := by
  obtain ⟨-, -, -, -, hstarts, -⟩ :=
    run_lists_nest (reachable_writerAndReadersAfter {} [] 6)
  obtain ⟨-, -, -, -, -, hbound⟩ := run_lists_nest (reachable_writerAndReadersAfter {} [] 8)
  obtain ⟨-, -, -, hdone, -, -⟩ := run_lists_nest (reachable_writerAndReadersAfter {} [] 22)
  refine ⟨?_, by decide, hbound 0, hdone rfl 0⟩
  have hnew : (writerAndReadersAfter {} [] 6).step.world.history =
      [.started ⟨0, 2, .read⟩ 0 none] ++ (writerAndReadersAfter {} [] 6).world.history := rfl
  exact (hstarts _ (.step _) _ hnew ⟨0, 2, .read⟩ 0 none (by simp) (by decide)).2

end FairLock
