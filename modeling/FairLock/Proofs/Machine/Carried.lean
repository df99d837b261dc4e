import FairLock.Proofs.Machine.Traffic
import FairLock.Proofs.Machine.Turns

/-!
# Entries that have not been started

Until its entry point is started or dropped, an entry lies with its request: in the queue of its
lock, on a run list, or with the frames that clean up after an unwound loop.  Entries go from one of
these places to another, always together with their requests, and the only new ones come from
submissions that have to wait.  So what is started or dropped in the end is what was submitted.

## Main definitions

- `Lock.requests`: the requests of a lock whose entries have not been started.
- `carriedBy`: the entries that frames hold.
- `Machine.Carries`: an entry lies with the request of a grant.

## Main statements

- `World.requests_endGrant`, `World.requests_start`, `World.requests_submit`.
- `Machine.Acts.carries`: where an entry comes from.
-/

namespace FairLock

/-! ## The requests of a lock -/

namespace Lock

variable {l l' : Lock Entry} {thread : ThreadId}

/-- The requests that wait, and those on the run lists. -/
def requests (l : Lock Entry) : List (Request Entry) := l.core.queue ++ deferredIn l.runLists

theorem requests_dispatchOn (l : Lock Entry) (thread : ThreadId) :
    (l.dispatchOn thread).requests = l.requests := by
  have hcore : (l.dispatchOn thread).core = l.core := by rw [l.dispatchOn_eq thread]
  rw [requests, requests, l.deferredIn_dispatchOn thread, hcore]

/-- What is drained goes from the queue to a run list. -/
theorem requests_release {id : GrantId} {mode : Mode} {batch : List (Request Entry)}
    (h : l.release id mode = (l', batch)) (thread : ThreadId) :
    (l'.deferBatch thread batch).requests.Perm l.requests := by
  have hcore : (l'.deferBatch thread batch).core = l'.core := by
    rw [l'.deferBatch_eq thread batch]
  have hdeferred := (l'.deferredIn_deferBatch thread batch).append_left l'.core.queue
  rw [requests, hcore]
  refine hdeferred.trans ?_
  rcases release_cases h with ⟨-, rfl, rfl⟩ | ⟨-, rfl, rfl⟩
  · simp [requests]
  · -- the batch was at the front, and is behind everything now
    have hqueue : l.requests =
        batchOf l.core.queue ++ (restOf l.core.queue ++ deferredIn l.runLists) := by
      rw [requests, ← List.append_assoc, batchOf_append_rest]
    rw [hqueue, ← List.append_assoc]
    exact List.perm_append_comm

theorem Ends.requests {id : LockId} {g : Grant} {j j' : Journal}
    (h : Lock.Ends id thread g l j l' j') : l'.requests.Perm l.requests := by
  cases h with
  | same => exact .refl _
  | ended parent entered hlock hunended h => exact requests_release h thread

/-- What is taken off a run list is one of the requests, and the others stay. -/
theorem requests_next {r : Request Entry} (h : l.next thread = some (r, l')) :
    r ∈ l.requests ∧ ∀ r' ∈ l'.requests, r' ∈ l.requests := by
  obtain ⟨before, deferred, after, -, hl, rfl⟩ := next_cases h
  simp only [requests, hl, deferredIn_append, deferredIn_cons, List.mem_append, List.mem_cons]
  refine ⟨.inr (.inr (.inl (.inl trivial))), ?_⟩
  rintro r' (hr' | hr' | hr' | hr')
  · exact .inl hr'
  · exact .inr (.inl hr')
  · exact .inr (.inr (.inl (.inr hr')))
  · exact .inr (.inr (.inr hr'))

/-- So it is with a run list that is given up. -/
theorem requests_close (l : Lock Entry) (thread : ThreadId) :
    ∀ r ∈ (l.close thread).1.requests, r ∈ l.requests := by
  intro r hr
  rcases l.close_cases thread with ⟨before, deferred, after, -, hl, he⟩ | ⟨-, he⟩
  · simp only [he, requests, deferredIn_append, List.mem_append] at hr
    simp only [requests, hl, deferredIn_append, deferredIn_cons, List.mem_append]
    exact hr.imp_right fun hr => hr.imp_right .inr
  · rwa [he] at hr

theorem mem_requests_of_deferredOn {r : Request Entry} (h : r ∈ l.deferredOn thread) :
    r ∈ l.requests :=
  List.mem_append_right _ ((l.deferredOn_sublist thread).subset h)

end Lock

/-! ## Operations on grants -/

namespace World

variable {w : World} {g : Grant} {lock id : LockId} {r : Request Entry}

theorem requests_endGrant (w : World) (g : Grant) (id : LockId) :
    (((w.endGrant g).world.lock id).requests).Perm (w.lock id).requests :=
  (w.ends_endGrant g id).requests

theorem requests_start (w : World) (lock : LockId) (r : Request Entry) (id : LockId) :
    (((w.start lock r).world.lock id).requests).Perm (w.lock id).requests := by
  obtain ⟨shown, hends, hothers, -⟩ := w.views_start lock r
  by_cases hid : id = lock
  · subst hid
    exact hends.requests
  · rw [(hothers id hid).1]

/-- Nothing is added where one lock adds nothing and the others stay as they are. -/
theorem requests_of_own {v : World} (hown : ∀ r ∈ (v.lock lock).requests, r ∈ (w.lock lock).requests)
    (hothers : ∀ other, other ≠ lock → v.lock other = w.lock other)
    (hr : r ∈ (v.lock id).requests) : r ∈ (w.lock id).requests := by
  by_cases hid : id = lock
  · subst hid
    exact hown r hr
  · rwa [hothers id hid] at hr

/-- A lock is replaced by one with no other requests. -/
theorem requests_setLock {l : Lock Entry} (hid : lock < w.locks.length)
    (hl : ∀ r ∈ l.requests, r ∈ (w.lock lock).requests)
    (hr : r ∈ ((w.setLock lock l).lock id).requests) : r ∈ (w.lock id).requests := by
  obtain ⟨⟨hown, -⟩, hothers⟩ := views_setLock hid l
  exact requests_of_own (by rwa [hown]) (fun other hne => (hothers other hne).1) hr

/-- A submission adds its own request at most, with its entry, and that is accepted then. -/
theorem requests_submit (hid : lock < w.locks.length) (mode : Mode) {entry : Entry}
    (hhears : w.Hears entry)
    (hr : r ∈ ((w.submit lock mode entry).world.lock id).requests) :
    r ∈ (w.lock id).requests ∨ id = lock ∧ r.payload = entry ∧
      ((w.submit lock mode entry).world.journal id).accepted =
        (w.journal id).accepted ++ [r.grant id] := by
  cases hsubmit : (w.lock lock).submit mode entry with
  | mk l submission =>
    cases submission with
    | granted granted =>
      obtain ⟨shown, ⟨hlock, -⟩, hothers⟩ := views_submit_of_granted hid hhears hsubmit
      refine .inl (requests_of_own ?_ (fun other hne => (hothers other hne).1) hr)
      obtain ⟨-, -, -, rfl⟩ := Lock.submit_granted hsubmit
      rw [hlock, Lock.requests_dispatchOn]
      exact fun r hr => hr
    | rejected refused limit =>
      obtain ⟨-, -, -, rfl⟩ := Lock.submit_rejected hsubmit
      rw [submit_of_rejected hsubmit] at hr
      have hr' : r ∈ (World.lock (World.discard _ _ _) id).requests := hr
      rw [lock_discard, lock_notify] at hr'
      refine .inl (requests_setLock hid ?_ hr')
      exact fun r hr => hr
    | queued n pending =>
      -- the new request is the one at the end of the queue
      obtain ⟨-, -, rfl, -, hl⟩ := Lock.submit_queued hsubmit
      rw [submit_of_queued hsubmit] at hr ⊢
      generalize hv : (w.setLock lock l).notify
        (.queued ⟨lock, (w.lock lock).core.nextId, mode⟩ l.state pending) = v at hr ⊢
      obtain ⟨⟨hlock, hjournal⟩, hothers⟩ := views_of_step (w := w) _ [_] hid
        (congrArg World.locks hv.symm) (congrArg World.history hv.symm)
        (by simp [Event.lock?, Notice.lock])
      by_cases hne : id = lock
      · subst hne
        have hnew : r ∈ (w.lock id).requests ∨ r = ⟨(w.lock id).core.nextId, mode, entry⟩ := by
          have hmem : r ∈ (v.lock id).requests := hr
          rw [hlock, hl] at hmem
          simp only [Lock.requests, List.mem_append, List.mem_singleton] at hmem ⊢
          tauto
        refine hnew.imp_right ?_
        rintro rfl
        refine ⟨rfl, rfl, ?_⟩
        show (v.journal id).accepted = _
        rw [hjournal]
        simp [Request.grant]
      · have hmem : r ∈ (v.lock id).requests := hr
        rw [(hothers id hne).1] at hmem
        exact .inl hmem

end World

/-! ## Frames -/

/-- The entries that a frame holds, with the grants of their requests. -/
def Frame.carried : Frame → List (Grant × Entry)
  | .handingBack lock items => items.map fun r => (r.grant lock, r.payload)
  | .discarding g entry => [(g, entry)]
  | _ => []

/-- The entries that frames hold. -/
def carriedBy (frames : List Frame) : List (Grant × Entry) := frames.flatMap Frame.carried

@[simp] theorem carriedBy_nil : carriedBy [] = [] := rfl

@[simp] theorem carriedBy_cons (f : Frame) (rest : List Frame) :
    carriedBy (f :: rest) = f.carried ++ carriedBy rest := rfl

@[simp] theorem carriedBy_append (frames more : List Frame) :
    carriedBy (frames ++ more) = carriedBy frames ++ carriedBy more := by
  simp [carriedBy]

theorem carriedBy_eq_nil {frames : List Frame} (h : ∀ f ∈ frames, f.carried = []) :
    carriedBy frames = [] := List.flatMap_eq_nil_iff.2 h

theorem Frame.carried_of_isSimple {f : Frame} (h : f.isSimple = true) : f.carried = [] := by
  cases f <;> first | rfl | cases h

namespace World

variable {w : World} {g : Grant} {may : Call → Prop} {m : Move}

theorem carriedBy_endGrant (w : World) (g : Grant) : carriedBy (w.endGrant g).frames = [] := by
  unfold endGrant
  split
  · rename_i hunended
    refine carriedBy_eq_nil fun f hf => ?_
    rw [loop_of_mem_endUnended (lock_lt_of_isUnended hunended) hf]
    rfl
  · rfl

theorem carriedBy_start (w : World) (lock : LockId) (r : Request Entry) :
    carriedBy (w.start lock r).frames = [] := by
  have hstarts := w.starts_start lock r
  generalize w.start lock r = m at hstarts
  cases hstarts with
  | task h shown body => rfl
  | sent h hc => rfl
  | unheard h hc => simp [carriedBy_endGrant, Frame.carried]

theorem carriedBy_submit {lock : LockId} (hid : lock < w.locks.length) (mode : Mode)
    (entry : Entry) : carriedBy (w.submit lock mode entry).frames = [] := by
  -- a submission makes frames for a start at most, and a start carries no entry
  cases hsubmit : (w.lock lock).submit mode entry with
  | mk l submission =>
    cases submission with
    | granted r =>
      rw [submit_of_granted hid hsubmit, Move.frames_before, carriedBy_append, carriedBy_start]
      split <;> rfl
    | queued n pending =>
      rw [submit_of_queued hsubmit]
      rfl
    | rejected refused limit =>
      rw [submit_of_rejected hsubmit]
      rfl

theorem Deed.carriedBy_eq_nil (h : Deed may w m) : carriedBy m.frames = [] := by
  -- no deed leaves an entry on the stack: what is started is told by its channel or runs
  cases h with
  | done control => rfl
  | @ended g h =>
    have hends := w.carriedBy_endGrant g
    rwa [endGrant, if_pos h] at hends
  | @dropped c g h => exact carriedBy_endGrant _ g
  | refused hmay hid h => simp [release, h]
  | submitted hid mode task => exact carriedBy_submit hid mode _
  | requested hid mode => exact carriedBy_submit (w := w.newChannel.1) hid mode _
  | reported hid failure => rfl
  | threaded context body => rfl

/-! ## Where entries come from -/

/-- A request is accepted, and if its entry is a sender, its channel is new. -/
structure Enters (w v : World) (g : Grant) (entry : Entry) : Prop where
  accepted : (v.journal g.lock).accepted = (w.journal g.lock).accepted ++ [g]
  fresh : ∀ c, entry = .sender c → w.channels.length ≤ c ∧ c < v.channels.length

theorem Receives.length_channels {v : World} (h : Receives may w v) :
    v.channels.length = w.channels.length := by
  cases h with
  | apart h hchannels => rw [hchannels]
  | _ => exact List.length_set

theorem length_channels_of_receives {v : World}
    (h : Relation.ReflTransGen (Receives may) w v) : v.channels.length = w.channels.length := by
  induction h with
  | refl => rfl
  | tail _ hr ih => exact hr.length_channels.trans ih

/-- What is done with a lock adds a request at most that is accepted by it. -/
theorem Deed.requests (h : Deed may w m) {id : LockId} {r : Request Entry}
    (hr : r ∈ (m.world.lock id).requests) :
    r ∈ (w.lock id).requests ∨ w.Enters m.world (r.grant id) r.payload := by
  -- a request is new only where something was submitted
  cases h with
  | done control => exact .inl hr
  | @ended g h =>
    have hends := w.requests_endGrant g id
    rw [endGrant, if_pos h] at hends
    exact .inl (hends.mem_iff.1 hr)
  | @dropped c g h => exact .inl ((requests_endGrant (w.setChannel c .gone) g id).mem_iff.1 hr)
  | @refused g hmay hid h =>
    have hworld : (w.release g).1.world =
        (w.setLock g.lock (w.lock g.lock).countRedundant).notify (.redundant g) := by
      simp [release, h]
    rw [hworld, lock_notify] at hr
    refine .inl (requests_setLock hid ?_ hr)
    exact fun r hr => hr
  | submitted hid mode task =>
    have hhears : w.Hears (.task task) := trivial
    refine (requests_submit hid mode hhears hr).imp_right ?_
    rintro ⟨rfl, hpayload, haccepted⟩
    refine ⟨haccepted, fun c hc => ?_⟩
    rw [hpayload] at hc
    cases hc
  -- the sender of a new channel is told from others by the number of that channel
  | @requested lock hid mode =>
    have hhears : w.newChannel.1.Hears (.sender w.newChannel.2) :=
      ⟨none, by simp [newChannel, channel]⟩
    refine (requests_submit (w := w.newChannel.1) hid mode hhears hr).imp_right ?_
    rintro ⟨rfl, hpayload, haccepted⟩
    refine ⟨haccepted, fun c hc => ?_⟩
    rw [hpayload] at hc
    cases hc
    have hlength : w.newChannel.1.channels.length ≤ _ :=
      (passes_submit w.newChannel.1 id mode (.sender w.newChannel.2) 0 0).length_le
    have hnew : w.newChannel.1.channels.length = w.channels.length + 1 := by simp [newChannel]
    rw [hnew] at hlength
    exact ⟨Nat.le_refl _, hlength⟩
  | @reported g hid failure =>
    have hworld := reportFailure_eq hid failure
    obtain ⟨⟨hown, -⟩, hothers⟩ := views_of_step (w := w) _ _ hid
      (congrArg World.locks hworld) (congrArg World.history hworld) (failureEvents_lock _ _ _ _)
    refine .inl (requests_of_own ?_ (fun other hne => (hothers other hne).1) hr)
    rw [hown]
    exact fun r hr => hr
  | threaded context body => exact .inl hr

theorem Deals.requests (h : w.Deals may m) {id : LockId} {r : Request Entry}
    (hr : r ∈ (m.world.lock id).requests) :
    r ∈ (w.lock id).requests ∨ w.Enters m.world (r.grant id) r.payload := by
  obtain ⟨hbefore, hdeed, below, -⟩ := h
  have hapart := apart_of_receives hbefore
  rcases hdeed.requests hr with hr | ⟨haccepted, hfresh⟩
  · exact .inl (hapart.lock id ▸ hr)
  · rw [hapart.journal] at haccepted
    rw [length_channels_of_receives hbefore] at hfresh
    exact .inr ⟨haccepted, hfresh⟩

theorem Deals.carriedBy_eq_nil (h : w.Deals may m) : carriedBy m.frames = [] := by
  obtain ⟨hbefore, hdeed, below, hbelow⟩ := h
  -- the frames of the asker are simple, so they carry nothing
  have hsimple : carriedBy below = [] :=
    FairLock.carriedBy_eq_nil fun f hf => Frame.carried_of_isSimple (hbelow f hf).1
  rw [Move.frames_before, carriedBy_append, hdeed.carriedBy_eq_nil, hsimple]
  rfl

end World

namespace Machine

variable {m m' : Machine} {may : Call → Prop} {g : Grant} {entry : Entry}

/-- An entry that has neither been started nor dropped, and the grant of its request. -/
inductive Carries (m : Machine) : Grant → Entry → Prop where
  | requested {id : LockId} {r : Request Entry} (h : r ∈ (m.world.lock id).requests) :
      Carries m (r.grant id) r.payload
  | held {g : Grant} {entry : Entry} (h : (g, entry) ∈ carriedBy m.frames) : Carries m g entry

/-- An entry was there before, or its request has just been accepted. -/
theorem Acts.carries (h : m.Acts may m') (hc : m'.Carries g entry) :
    m.Carries g entry ∨ m.world.Enters m'.world g entry := by
  -- most locks keep their requests, or lose some
  have hlock : ∀ {id : LockId} {r : Request Entry}, r ∈ (m.world.lock id).requests →
      m.Carries (r.grant id) r.payload ∨ m.world.Enters m'.world (r.grant id) r.payload :=
    fun hr => .inl (.requested hr)
  cases hc with
  | requested hr =>
    cases h with
    | rests => exact hlock hr
    | moves htop h => exact (h.requests hr).imp_left .requested
    | @takes w lock outcome below reply r l hid hnext =>
      have hr' := (World.requests_start _ lock r _).mem_iff.1 hr
      exact hlock (World.requests_setLock hid (Lock.requests_next hnext).2 hr')
    | closes hid hnext => exact hlock (World.requests_setLock hid (Lock.requests_close _ _) hr)
    | unwinds hid => exact hlock (World.requests_setLock hid (Lock.requests_close _ _) hr)
    | handsBack hid => exact hlock ((World.requests_endGrant _ _ _).mem_iff.1 hr)
    | discards hid =>
      have hr' : _ ∈ (World.lock (World.discard _ _ _) _).requests := hr
      rw [World.lock_discard] at hr'
      exact hlock hr'
    | leaves hf hout => exact hlock hr
    | joins reply => exact hlock hr
  | held hheld =>
    refine .inl ?_
    cases h with
    | rests => exact .held hheld
    | @moves w top below control move htop h =>
      simp only [Machine.ofMove, carriedBy_append, h.carriedBy_eq_nil, List.nil_append] at hheld
      refine .held ?_
      rw [carriedBy_append]
      exact List.mem_append_right _ hheld
    | takes hid hnext =>
      simp only [Machine.ofMove, carriedBy_append, World.carriedBy_start, List.nil_append] at hheld
      exact .held hheld
    | closes hid hnext => exact .held (List.mem_append_right _ hheld)
    | @unwinds w lock outcome below fault hid =>
      -- the frame that cleans up takes what was left on the run list
      rcases List.mem_append.1 hheld with hheld | hheld
      · obtain ⟨r, hr, heq⟩ := List.mem_map.1 hheld
        cases heq
        exact .requested (Lock.mem_requests_of_deferredOn hr)
      · exact .held (List.mem_append_right _ hheld)
    | @handsBack w lock r items below reply hid =>
      simp only [Machine.ofMove, carriedBy_append, World.carriedBy_endGrant, List.nil_append] at hheld
      exact .held hheld
    | discards hid => exact .held (List.mem_append_right _ hheld)
    | leaves hf hout => exact .held (List.mem_append_right _ hheld)
    | joins reply => exact .held (List.mem_append_right _ hheld)

/-- Who carries an entry is an accepted request, and the channel of a sender has been made. -/
theorem Reachable.carries (h : m.Reachable) (hc : m.Carries g entry) :
    g ∈ (m.world.journal g.lock).accepted ∧
      ∀ c, entry = .sender c → c < m.world.channels.length := by
  obtain ⟨configs, procedures, hr⟩ := h
  induction hr with
  | refl =>
    have hcreated := World.justCreated_initial configs procedures
    cases hc with
    -- a lock that was just created has no requests
    | @requested id r hr =>
      obtain ⟨config, hlock⟩ := (hcreated.fresh id).lock
      have hlock' : (idle (World.initial configs procedures)).world.lock id =
          { config := config } := hlock
      rw [hlock'] at hr
      cases hr
    | held hheld => cases hheld
  | @tail m m' hbefore hn ih =>
    have hm : m.Reachable := ⟨configs, procedures, hbefore⟩
    rcases (hm.acts hn).carries hc with hc | ⟨haccepted, hfresh⟩
    -- carried before, or new with this transition
    · obtain ⟨haccepted, hbound⟩ := ih hc
      refine ⟨hm.mem_occurrences (.single hn) haccepted, fun c hentry => ?_⟩
      exact Nat.lt_of_lt_of_le (hbound c hentry) hn.traffic.length_le
    · refine ⟨?_, fun c hentry => (hfresh c hentry).2⟩
      rw [haccepted]
      simp

end Machine

end FairLock
