import FairLock.Proofs.Machine.Worlds

/-!
# What a move leaves behind

A move is right if it leaves a well-formed world, leads every ledger on, and puts on the stack only
frames that the world supports: a frame that is to end a grant knows it, and a frame that works on
a lock works on one that exists.  One lemma for each operation on grants says that its move is
right; later modules never open these operations again.

The frames that hand grants back are not among the supported ones: they hold grants that were taken
off a run list, and only the unwinding of a loop makes them.

## Main definitions

- `Frame.Supported`, `Move.Ok`.

## Main statements

- `World.endGrant_ok`, `World.release_ok`, `World.submit_ok`, `World.start_ok`: the operations on
  grants.
-/

namespace FairLock

/-- The frame can rely on the world for what it does. -/
def Frame.Supported (w : World) : Frame → Prop
  | .invocation g => w.Knows g
  | .reporting g _ => w.Knows g
  | .dispatching lock _ => lock < w.locks.length
  | .handingBack _ _ => False
  | .discarding _ _ => False
  | .awaiting _ work _ => work.lock < w.locks.length
  | .working _ work g _ _ => work.lock < w.locks.length ∧ w.Knows g
  | _ => True

theorem Frame.Supported.mono {w w' : World} {f : Frame} (h : f.Supported w)
    (hlocks : w'.locks.length = w.locks.length) (hhistory : w.history <:+ w'.history) :
    f.Supported w' := by
  -- a frame needs its lock or the grant it is about, and neither goes away
  cases f with
  | invocation g => exact World.Knows.mono h hlocks hhistory
  | reporting g failure => exact World.Knows.mono h hlocks hhistory
  | dispatching lock outcome => exact Nat.lt_of_lt_of_eq h hlocks.symm
  | handingBack lock items => exact h
  | discarding g entry => exact h
  | awaiting future work channel => exact Nat.lt_of_lt_of_eq h hlocks.symm
  | working future work g last rest => exact ⟨hlocks ▸ h.1, World.Knows.mono h.2 hlocks hhistory⟩
  | _ => trivial

/-- The move is right in the given world, while unwound loops hold the given grants. -/
structure Move.Ok (m : Move) (w : World) (out : List Grant) : Prop where
  wellFormed : m.world.WellFormed
  leads : w.Leads out m.world out
  frames : ∀ f ∈ m.frames, f.Supported m.world

namespace Move.Ok

variable {m : Move} {w w' : World} {out : List Grant}

/-- What is right after some change is right with the change. -/
theorem after (h : m.Ok w' out) (hl : w.Leads out w' out) : m.Ok w out :=
  ⟨h.wellFormed, hl.trans h.leads, h.frames⟩

theorem before (h : m.Ok w out) {frames : List Frame} (hf : ∀ f ∈ frames, f.Supported m.world) :
    (m.before frames).Ok w out := by
  refine ⟨h.wellFormed, h.leads, ?_⟩
  intro f hmem
  rw [Move.frames_before, List.mem_append] at hmem
  exact hmem.elim (h.frames f) (hf f)

/-- One more frame below the others. -/
theorem under (h : m.Ok w out) {f : Frame} (hf : f.Supported m.world) : (m.before [f]).Ok w out :=
  h.before (List.forall_mem_singleton.2 hf)

theorem answering (h : m.Ok w out) {reply : Reply} : (m.answering reply).Ok w out :=
  h.under trivial

/-- A move that only changes the world. -/
theorem of_world (hw : w'.WellFormed) (hl : w.Leads out w' out) {control : Control} :
    Move.Ok { world := w', control := control } w out :=
  ⟨hw, hl, by simp⟩

/-- A move that changes the world and puts one frame on the stack. -/
theorem of_frame (hw : w'.WellFormed) (hl : w.Leads out w' out) {f : Frame}
    (hf : f.Supported w') : Move.Ok { world := w', frames := [f] } w out :=
  ⟨hw, hl, List.forall_mem_singleton.2 hf⟩

theorem reply (hw : w'.WellFormed) (hl : w.Leads out w' out) {reply : Reply} :
    (w'.reply reply).Ok w out :=
  of_world hw hl

end Move.Ok

namespace World

variable {w : World} {out : List Grant} {g : Grant} {lock : LockId}

/-! ## Ending -/

theorem issue_eq (w : World) (lock : LockId) (batch : List (Request Entry)) :
    w.issue lock batch =
      { w with
        history :=
          (batch.map fun r => Event.issued (r.grant lock) (currentSpan w.entered)).reverse ++
            w.history } := by
  unfold issue
  -- one issue after the other, so the last one of the batch is the latest
  induction batch generalizing w with
  | nil => rfl
  | cons r rest ih =>
    rw [List.foldl_cons, ih]
    simp [emit, Request.grant]

/-- What ending a grant does to the world, and that a loop is opened for what is drained if the
    thread has none. -/
theorem endUnended_eq {l' : Lock Entry} {batch : List (Request Entry)}
    (hid : g.lock < w.locks.length) (h : (w.lock g.lock).release g.id g.mode = (l', batch)) :
    (w.endUnended g).world =
      { w with
        locks := w.locks.set g.lock (l'.deferBatch w.thread batch)
        history :=
          drainEvents g.lock batch l'.pending (currentSpan w.entered) w.entered ++
            .notice (.released g l'.state l'.pending) w.entered ::
              .notice ((w.lock g.lock).holdNotice g) (g :: w.entered) :: w.history } ∧
    (w.endUnended g).frames =
      (if batch.isEmpty || (w.lock g.lock).isDispatching w.thread then []
      else [.dispatching g.lock (some .nothing)]) ∧
    (w.endUnended g).control = .returned .nothing := by
  have hlock : (w.reportHold g).lock g.lock = w.lock g.lock := rfl
  cases batch with
  | nil =>
    simp only [endUnended, hlock, h]
    exact ⟨rfl, rfl, trivial⟩
  | cons front rest =>
    simp only [endUnended, hlock, h, issue_eq, schedule]
    -- the lock that gets the batch is the one that was just put back
    have hself : ∀ history, ({ w with
        locks := w.locks.set g.lock l', history := history } : World).lock g.lock = l' := by
      intro history
      simpa only [lock, setLock] using lock_setLock_self hid l'
    refine ⟨?_, ?_, trivial⟩
    · simp only [notify, emit, setLock, reportHold, hself, List.set_set, Lock.deferBatch,
        drainEvents, Lock.holdNotice, List.append_assoc, List.singleton_append]
    · -- the release has left the run lists alone
      have hruns : l'.isDispatching w.thread = (w.lock g.lock).isDispatching w.thread := by
        rcases Lock.release_cases h with ⟨-, -, rfl⟩ | ⟨-, -, rfl⟩ <;> rfl
      simp only [notify, emit, setLock, reportHold, hself, Lock.schedule, hruns, List.isEmpty_cons,
        Bool.false_or]
      cases (w.lock g.lock).isDispatching w.thread <;> rfl

theorem loop_of_mem_endUnended (hid : g.lock < w.locks.length) {f : Frame}
    (hf : f ∈ (w.endUnended g).frames) : f = .dispatching g.lock (some .nothing) := by
  cases hrelease : (w.lock g.lock).release g.id g.mode with
  | mk l batch =>
    obtain ⟨-, hframes, -⟩ := endUnended_eq hid hrelease
    rw [hframes] at hf
    split at hf
    · cases hf
    · exact List.mem_singleton.1 hf

theorem drainEvents_lock {id : LockId} {batch : List (Request Entry)} {pending : Nat}
    {parent : Option Grant} {entered : List Grant} :
    ∀ e ∈ drainEvents id batch pending parent entered, e.lock? = some id := by
  cases batch with
  | nil => simp [drainEvents]
  | cons front rest =>
    intro e he
    simp only [drainEvents, List.mem_append, List.mem_reverse, List.mem_map,
      List.mem_singleton] at he
    rcases he with ⟨r, -, rfl⟩ | rfl <;> rfl

theorem drainAndEndEvents_lock {l l' : Lock Entry} {batch : List (Request Entry)}
    {parent : Option Grant} {entered : List Grant} :
    ∀ e ∈ drainEvents g.lock batch l'.pending parent entered ++
        [.notice (.released g l'.state l'.pending) entered,
          .notice (l.holdNotice g) (g :: entered)], e.lock? = some g.lock := by
  intro e he
  -- the report of the drain, or one of the two of the end
  rcases List.mem_append.1 he with he | he
  · exact drainEvents_lock e he
  · simp only [List.mem_cons, List.not_mem_nil, or_false] at he
    rcases he with rfl | rfl
    · rfl
    · unfold Lock.holdNotice
      split <;> rfl

/-- The end of a grant, as its lock and the others show it. -/
theorem views_endUnended {l : Lock Entry} {batch : List (Request Entry)}
    (hid : g.lock < w.locks.length) (h : (w.lock g.lock).release g.id g.mode = (l, batch)) :
    ((w.endUnended g).world.lock g.lock = l.deferBatch w.thread batch ∧
      (w.endUnended g).world.journal g.lock =
        (drainEvents g.lock batch l.pending (currentSpan w.entered) w.entered ++
          [.notice (.released g l.state l.pending) w.entered,
            .notice ((w.lock g.lock).holdNotice g) (g :: w.entered)]) ++ w.journal g.lock) ∧
      ∀ other, other ≠ g.lock → (w.endUnended g).world.lock other = w.lock other ∧
        (w.endUnended g).world.journal other = w.journal other := by
  -- the locks and the history of the result are known, so the two views can be read off them
  obtain ⟨hworld, -⟩ := endUnended_eq hid h
  refine views_of_step _ _ hid (by rw [hworld]) ?_ drainAndEndEvents_lock
  simp [hworld]

/-- Ending a grant is right if its entry point was started, or if it is being handed back. -/
theorem endUnended_ok (h : w.WellFormed) (hid : g.lock < w.locks.length)
    (hsource : g ∈ (w.journal g.lock).started ∨ g ∈ out) (hunended : w.isUnended g = true) :
    (w.endUnended g).Ok w out := by
  cases hrelease : (w.lock g.lock).release g.id g.mode with
  | mk l' batch =>
    obtain ⟨hworld, -⟩ := endUnended_eq hid hrelease
    refine ⟨?wellFormed, ?leads, ?frames⟩
    case wellFormed =>
      rw [hworld]
      refine h.mono (by simp) ?_ rfl rfl rfl rfl rfl
      exact ((List.suffix_cons _ _).trans (List.suffix_cons _ _)).trans (List.suffix_append _ _)
    case leads =>
      -- the reports, the end and the drain are one step of the ledger
      rw [hworld]
      refine Leads.of_step (l'.deferBatch w.thread batch)
        (drainEvents g.lock batch l'.pending (currentSpan w.entered) w.entered ++
          [.notice (.released g l'.state l'.pending) w.entered,
            .notice ((w.lock g.lock).holdNotice g) (g :: w.entered)])
        hid rfl (by simp) ?_ (fun _ _ => rfl) ?_
      · exact drainAndEndEvents_lock
      · rw [List.append_assoc]
        refine .ended w.thread (currentSpan w.entered) w.entered rfl hunended ?_ hrelease
        exact hsource.imp_right fun ho => List.mem_filter.2 ⟨ho, by simp⟩
    case frames =>
      intro f hf
      rw [loop_of_mem_endUnended hid hf, Frame.Supported, hworld]
      simpa using hid

theorem endGrant_ok_of_source (h : w.WellFormed) (hid : g.lock < w.locks.length)
    (hsource : g ∈ (w.journal g.lock).started ∨ g ∈ out) : (w.endGrant g).Ok w out := by
  unfold endGrant
  split
  · rename_i hunended
    exact endUnended_ok h hid hsource hunended
  · exact .of_world h (.refl _ _)

theorem endGrant_ok (h : w.WellFormed) (hg : w.Knows g) : (w.endGrant g).Ok w out :=
  endGrant_ok_of_source h hg.1 (.inl hg.2)

/-- A release through a capability ends the grant or is counted as redundant. -/
theorem release_ok (h : w.WellFormed) (hg : w.Knows g) : (w.release g).1.Ok w out := by
  unfold release
  split
  · rename_i hunended
    exact endUnended_ok h hg.1 (.inl hg.2) hunended
  · rename_i hended
    refine .of_world ((h.setLock _ _).emit _) ?_
    refine Leads.of_step _ [_] hg.1 rfl rfl ?_ (fun _ _ => rfl) ?_
    · simp [Event.lock?, Notice.lock]
    · exact .redundant _ rfl (by simpa [isUnended] using hended)

/-! ## Waking and dropping -/

theorem leads_setChannel (w : World) (c : ChannelId) (channel : Channel) (out : List Grant) :
    w.Leads out (w.setChannel c channel) out :=
  .of_eq rfl rfl

theorem leads_wake (w : World) (waker : Option String) (out : List Grant) :
    w.Leads out (w.wake waker) out := by
  cases waker with
  | none => exact .refl _ _
  | some future => exact .emit rfl

/-- Dropping an entry uncalled records it and may close a channel; nothing of a lock is touched. -/
theorem discard_eq (w : World) (grant : Option Grant) (entry : Entry) :
    ∃ tag channels woken,
      w.discard grant entry =
        { w with channels := channels, history := woken ++ .discarded grant tag :: w.history } ∧
      (∀ e ∈ woken, e.lock? = none) ∧
      ∀ c ∈ channels, c ∈ w.channels ∨ c.held = [] := by
  cases entry with
  | task t => exact ⟨some t.tag, w.channels, [], rfl, by simp, fun c hc => .inl hc⟩
  | sender c =>
    unfold discard
    cases hc : (w.emit (.discarded grant none)).channel c with
    | «open» waker =>
      have hclosed : ∀ c' ∈ w.channels.set c .abandoned, c' ∈ w.channels ∨ c'.held = [] := by
        intro c' hc'
        rcases List.mem_or_eq_of_mem_set hc' with hc' | rfl
        · exact .inl hc'
        · exact .inr rfl
      simp only [hc]
      -- whoever waits at the other end is woken
      cases waker with
      | none => exact ⟨none, _, [], rfl, by simp, hclosed⟩
      | some future => exact ⟨none, _, [.woken future], rfl, by simp [Event.lock?], hclosed⟩
    | _ =>
      simp only [hc]
      exact ⟨none, w.channels, [], rfl, by simp, fun c hc => .inl hc⟩

theorem lock_discard (w : World) (grant : Option Grant) (entry : Entry) (id : LockId) :
    (w.discard grant entry).lock id = w.lock id := by
  obtain ⟨tag, channels, woken, heq, -, -⟩ := w.discard_eq grant entry
  rw [heq]
  rfl

/-- The drop of the entry of a grant is news for the lock of the grant, and for no other. -/
theorem journal_discard (w : World) (g : Grant) (entry : Entry) :
    ∃ tag, (w.discard (some g) entry).journal g.lock =
        .discarded (some g) tag :: w.journal g.lock ∧
      ∀ other, other ≠ g.lock → (w.discard (some g) entry).journal other = w.journal other := by
  obtain ⟨tag, channels, woken, heq, hwoken, -⟩ := w.discard_eq (some g) entry
  -- besides the drop there is only the waking of a task, which is about no lock
  have hdropped : ∀ id, (w.discard (some g) entry).journal id =
      (w.emit (.discarded (some g) tag)).journal id :=
    journal_of_silent (by rw [heq]; rfl) hwoken
  refine ⟨tag, ?_, ?_⟩
  · rw [hdropped]
    simp [journal, emit, Event.lock?]
  · intro other hother
    rw [hdropped]
    simp [journal, emit, Event.lock?, Ne.symm hother]

theorem discard_wellFormed (h : w.WellFormed) (grant : Option Grant) (entry : Entry) :
    (w.discard grant entry).WellFormed := by
  obtain ⟨tag, channels, woken, heq, -, hchannels⟩ := w.discard_eq grant entry
  -- what a channel holds afterwards was in it before, or the channel was given up
  have hwell : ({ w with channels := channels } : World).WellFormed :=
    { h with
      channels := by
        intro c hc g hg
        rcases hchannels c hc with hc | hc
        · exact h.channels c hc g hg
        · simp [hc] at hg }
  rw [heq]
  refine hwell.mono rfl ?_ rfl rfl rfl rfl rfl
  exact (List.suffix_cons _ _).trans (List.suffix_append _ _)

/-- The entry of a request that was turned away has no grant, so no ledger notices its end. -/
theorem leads_discard_none (w : World) (entry : Entry) (out : List Grant) :
    w.Leads out (w.discard none entry) out := by
  obtain ⟨tag, channels, woken, heq, hwoken, -⟩ := w.discard_eq none entry
  rw [heq]
  refine (Leads.emit (e := .discarded none tag) rfl).trans ?_
  exact .silent rfl rfl hwoken

/-- Dropping the entry of a request that has no grant is no news about any lock. -/
theorem journal_discard_none (w : World) (entry : Entry) (id : LockId) :
    (w.discard none entry).journal id = w.journal id := by
  obtain ⟨tag, channels, woken, heq, hwoken, -⟩ := w.discard_eq none entry
  -- the drop names no grant, so it is filtered out of every journal
  have hhistory : (w.discard none entry).history =
      (woken ++ [.discarded none tag]) ++ w.history := by
    rw [heq, List.append_assoc]
    rfl
  refine journal_of_silent hhistory ?_ id
  intro e he
  rcases List.mem_append.1 he with he | he
  · exact hwoken e he
  · rw [List.mem_singleton.1 he]
    rfl

/-- With the entry of a grant that is handed back the loop lets go of the grant. -/
theorem leads_discard_some (hid : g.lock < w.locks.length) (entry : Entry) (out : List Grant) :
    w.Leads (g :: out) (w.discard (some g) entry) out := by
  obtain ⟨tag, channels, woken, heq, hwoken, -⟩ := w.discard_eq (some g) entry
  rw [heq]
  have hdropped : w.Leads (g :: out) (w.emit (.discarded (some g) tag)) out := by
    refine Leads.of_step (w.lock g.lock) [_] hid ?_ rfl ?_ ?_ ?_
    · -- the lock itself stays
      rw [lock, List.getD_eq_getElem?_getD, List.getElem?_eq_getElem hid, Option.getD_some]
      exact (List.set_getElem_self hid).symm
    · simp [Event.lock?]
    · intro other hother
      simp [Ne.symm hother]
    · have hout : ((g :: out).filter fun g' => g'.lock == g.lock) =
          g :: out.filter fun g' => g'.lock == g.lock := by simp
      rw [ledger, hout]
      exact .dropped tag rfl
  exact hdropped.trans (.silent rfl rfl hwoken)

/-! ## Starting -/

section Start

variable {base : World}

/-- The start of an entry point is right if recording it is: the capability that comes with it is
    then worth something. -/
theorem startTask_ok (h : w.WellFormed) (hid : g.lock < w.locks.length)
    (hstart : ∀ shown, base.Leads out (w.emit (.started g w.thread shown)) out) (t : Task) :
    (w.startTask g t).Ok base out := by
  have hknows : ∀ shown, (w.emit (.started g w.thread shown)).Knows g := fun shown =>
    knows_of_started hid
  refine ⟨(h.emit _).addOwned (hknows _), (hstart _).trans (.of_eq rfl rfl), ?_⟩
  -- of the three frames only the boundary needs the grant
  intro f hf
  simp only [startTask, List.mem_cons, List.not_mem_nil, or_false] at hf
  rcases hf with rfl | rfl | rfl
  · trivial
  · trivial
  · exact hknows _

theorem startSender_ok (h : w.WellFormed) (hid : g.lock < w.locks.length)
    (hstart : ∀ shown, base.Leads out (w.emit (.started g w.thread shown)) out) (c : ChannelId) :
    (w.startSender g c).Ok base out := by
  have hwell := h.emit (.started g w.thread none)
  have hknows : (w.emit (.started g w.thread none)).Knows g := knows_of_started hid
  have hleads := hstart none
  unfold startSender
  generalize w.emit (.started g w.thread none) = started at hwell hknows hleads
  cases hc : started.channel c with
  | «open» waker =>
    have hsent : ∀ g' ∈ (Channel.sent g).held, started.Knows g' := by
      intro g' hg'
      rw [List.mem_singleton.1 hg']
      exact hknows
    have hwake : started.Leads out ((started.setChannel c (.sent g)).wake waker) out :=
      (leads_setChannel _ _ _ _).trans (leads_wake _ _ _)
    simp only [hc]
    exact .of_frame ((hwell.setChannel c hsent).wake waker) (hleads.trans hwake)
      (hknows.leads hwake)
  | _ =>
    -- the future is gone: the capability is dropped on the spot
    have hend : (started.endGrant g).Ok started out := endGrant_ok hwell hknows
    simp only [hc]
    exact (hend.after hleads).under (hknows.leads hend.leads)

theorem start_ok {r : Request Entry} (h : w.WellFormed) (hid : lock < w.locks.length)
    (hstart : ∀ shown, base.Leads out (w.emit (.started (r.grant lock) w.thread shown)) out) :
    (w.start lock r).Ok base out := by
  have hwell : ({ w with entered := r.grant lock :: w.entered } : World).WellFormed :=
    h.mono rfl (List.suffix_refl _) rfl rfl rfl rfl rfl
  have hleads : ∀ shown, base.Leads out
      (({ w with entered := r.grant lock :: w.entered } : World).emit
        (.started (r.grant lock) w.thread shown)) out := fun shown =>
    (hstart shown).trans (.of_eq rfl rfl)
  unfold start
  -- a task runs and a sender sends, and the span that is entered shows in neither
  cases hpayload : r.payload with
  | task t => exact startTask_ok hwell hid hleads t
  | sender c => exact startSender_ok hwell hid hleads c

/-- A request that its own submission has granted is started in place. -/
theorem startGranted_ok {r : Request Entry} (h : w.WellFormed) (hid : lock < w.locks.length)
    (hstart : ∀ shown, base.Leads out
      ((w.setLock lock ((w.lock lock).dispatchOn w.thread)).emit
        (.started (r.grant lock) w.thread shown)) out) :
    (w.startGranted lock r).Ok base out := by
  unfold startGranted
  unfold Lock.dispatchOn at hstart
  split
  · -- the loop of the thread goes on; nothing is opened
    rename_i hdispatching
    have hsame : w.setLock lock (w.lock lock) = w := by
      rw [setLock, World.lock, List.getD_eq_getElem?_getD, List.getElem?_eq_getElem hid,
        Option.getD_some, List.set_getElem_self hid]
    rw [if_pos hdispatching, hsame] at hstart
    exact start_ok h hid hstart
  · -- a loop is opened below the entry point
    rename_i hidle
    rw [if_neg hidle] at hstart
    have hok := start_ok (h.setLock _ _) (by simpa using hid) hstart
    have hlength : w.locks.length = base.locks.length := by
      have := (hstart none).locks
      simpa only [setLock, emit, List.length_set] using this
    exact hok.under (hok.leads.lock_lt (Nat.lt_of_lt_of_eq hid hlength))

end Start

/-! ## Submitting -/

/-- A submission that is turned away is reported, its entry dropped, and the submitter told. -/
theorem submit_of_rejected {lock : LockId} {mode : Mode} {entry refused : Entry} {limit : Nat}
    {l : Lock Entry} (h : (w.lock lock).submit mode entry = (l, .rejected refused limit)) :
    w.submit lock mode entry =
      (((w.setLock lock { w.lock lock with stats := (w.lock lock).stats.countRejected }).notify
        (.rejected lock mode limit)).discard none entry).reply (.failed (.queueFull limit)) := by
  obtain ⟨-, -, rfl, rfl⟩ := Lock.submit_rejected h
  unfold submit
  rw [h]

/-- A submission that is granted records the grant and its start in one go. -/
theorem submit_ok (h : w.WellFormed) (hid : lock < w.locks.length) (mode : Mode) (entry : Entry) :
    (w.submit lock mode entry).Ok w out := by
  unfold submit
  cases hsubmit : (w.lock lock).submit mode entry with
  | mk l submission =>
    have hwell := h.setLock lock l
    cases submission with
    | granted r =>
      -- notice, grant and start are one step, so the start has to be looked at with them
      have hself : (w.setLock lock l).lock lock = l := lock_setLock_self hid l
      refine startGranted_ok ((hwell.emit _).emit _) ?_ ?_
      · simpa [issue_eq, notify, emit] using hid
      intro shown
      refine Leads.of_step (l.dispatchOn w.thread) [_, _, _] hid ?_ rfl ?_
        (fun _ _ => rfl) ?_
      · show (w.locks.set lock l).set lock _ = _
        rw [List.set_set]
        exact congrArg (fun l => w.locks.set lock (l.dispatchOn w.thread)) hself
      · simp [Event.lock?, Notice.lock]
      · exact .granted w.thread (currentSpan w.entered) w.entered shown hsubmit
    | queued id pending =>
      refine .reply (hwell.emit _) ?_
      refine Leads.of_step _ [_] hid rfl rfl ?_ (fun _ _ => rfl) ?_
      · simp [Event.lock?, Notice.lock]
      · exact .queued w.entered hsubmit
    | rejected refused limit =>
      have hrejected : w.Leads out ((w.setLock lock l).notify (.rejected lock mode limit)) out := by
        refine Leads.of_step _ [_] hid rfl rfl ?_ (fun _ _ => rfl) ?_
        · simp [Event.lock?, Notice.lock]
        · exact .rejected w.entered hsubmit
      exact .reply (discard_wellFormed (hwell.emit _) none refused)
        (hrejected.trans (leads_discard_none _ refused out))

/-! ## Dropping capabilities -/

theorem dropOwned_ok (h : w.WellFormed) (g : Grant) : (w.dropOwned g).Ok w out := by
  unfold dropOwned
  split
  · rename_i howned
    have hg : w.Knows g := h.owned g (by simpa using howned)
    exact (endGrant_ok (h.eraseOwned g) hg).after (.of_eq rfl rfl)
  · exact .of_world h (.refl _ _)

theorem keep_ok (h : w.WellFormed) (name : String) (hg : w.Knows g) : (w.keep name g).Ok w out := by
  have hkept := h.putStore name hg
  have hleads : w.Leads out { w with store := w.store.put name g } out := .of_eq rfl rfl
  unfold keep
  -- a capability that was stored before under the name ends, and it was worthy too
  cases hold : w.store.get? name with
  | none => exact .of_world hkept hleads
  | some old =>
    have hknows : w.Knows old := h.store _ (Table.mem_of_get? hold)
    exact (endGrant_ok hkept hknows).after hleads

end World

end FairLock
