import FairLock.Proofs.Machine.Drains
import FairLock.Proofs.Machine.Refused
import FairLock.Proofs.Serving

/-!
# Futures for access

A future for access is made by submitting its request.  If that is turned away, the future has the
failure to give.  Otherwise it waits for the grant that comes next at the lock: whatever the machine
does from then on, and whenever the future is polled or dropped, the first poll that does not leave
it pending gives this very capability, or tells that the entry point was dropped uncalled.  Wherever
the future is dropped, its grant does not stay held.

## Main definitions

- `World.nextGrant`: the grant that the next request is for.
- `Machine.Requests`: a request whose capability will come through a new channel is submitted next.
- `Machine.Refuses`, `Machine.Honours`: what is true of a future from when it was made.
- `Machine.Answered`: a run, with the answers to the polls of a future.

## Main statements

- `World.submits`: what the submission comes down to.
- `Machine.Requests.linked`: the sender of the new channel goes with the new request.
- `Machine.Requests.answers`: what a request that is accepted leaves behind.
- `Machine.Begins.yields`: the future is made.
- `Machine.Answered.serves`: it is served all along.
- `acquired_future_settles`.
-/

namespace FairLock

/-! ## Making a future -/

theorem Lock.next_dispatchOn {l : Lock Entry} {thread : ThreadId}
    (h : l.isDispatching thread = false) : (l.dispatchOn thread).next thread = none := by
  cases hnext : (l.dispatchOn thread).next thread with
  | none => rfl
  -- a loop that was just entered has nothing on its run list that somebody could take out
  | some found =>
    obtain ⟨r, l'⟩ := found
    have hdeferred := deferredOn_of_next hnext
    rw [deferredOn_dispatchOn, deferredOn_of_not_isDispatching h] at hdeferred
    cases hdeferred

namespace World

variable {w : World} {lock : LockId} {mode : Mode} {name : String} {c : ChannelId}

/-- The grant that the next request to a lock is for. -/
def nextGrant (w : World) (lock : LockId) (mode : Mode) : Grant :=
  ⟨lock, (w.lock lock).core.nextId, mode⟩

/-- What the submission for a future comes down to, unless the request is turned away. -/
inductive Submits (w : World) (lock : LockId) (mode : Mode) : Move → Prop where
  /-- The capability is sent at once.  If the thread has no loop for the lock, one is put on the stack
      and finds nothing to do. -/
  | granted {v : World} (hchannel : v.channel w.channels.length = .sent (w.nextGrant lock mode))
      (hstarted : w.nextGrant lock mode ∈ (v.journal lock).started)
      (haccepted : (v.journal lock).accepted = (w.journal lock).accepted ++ [w.nextGrant lock mode])
      (hothers : ∀ other, other ≠ lock → v.journal other = w.journal other)
      (hnext : (w.lock lock).isDispatching w.thread = false → (v.lock lock).next v.thread = none) :
      Submits w lock mode
        { world := v
          frames := .invocation (w.nextGrant lock mode) ::
            (if (w.lock lock).isDispatching w.thread then [] else [.dispatching lock none]) }
  /-- The request waits. -/
  | queued {v : World} (hchannel : v.channel w.channels.length = .open none)
      (hissued : (v.journal lock).issued = (w.journal lock).issued)
      (haccepted : (v.journal lock).accepted = (w.journal lock).accepted ++ [w.nextGrant lock mode])
      (hothers : ∀ other, other ≠ lock → v.journal other = w.journal other) :
      Submits w lock mode (v.reply .ok)

/-- A capability that somebody waits for is sent. -/
theorem start_of_open {v : World} {r : Request Entry} {waker : Option String} (lock : LockId)
    (h : r.payload = .sender c) (hc : v.channel c = .open waker) :
    v.start lock r =
      { world := ((v.begun (r.grant lock) none).setChannel c (.sent (r.grant lock))).wake waker
        -- the channel is looked at after the start has been recorded, which leaves it open
        frames := [.invocation (r.grant lock)] } := by
  have hopen : (v.begun (r.grant lock) none).channel c = .open waker := hc
  have hsender : v.start lock r =
      { v with entered := r.grant lock :: v.entered }.startSender (r.grant lock) c := by
    simp only [start, h]
    rfl
  have hsame : { v with entered := r.grant lock :: v.entered }.emit
      (.started (r.grant lock) v.thread none) = v.begun (r.grant lock) none := rfl
  rw [hsender, startSender, hsame]
  simp only [hopen]

section Submits

variable (hid : lock < w.locks.length)
include hid

/-- The sender finds its receiver waiting. -/
theorem submits_of_granted {l : Lock Entry} {r : Request Entry}
    (hsubmit : (w.newChannel.1.lock lock).submit mode (.sender w.channels.length) = (l, .granted r)) :
    w.Submits lock mode (w.newChannel.1.submit lock mode (.sender w.channels.length)) := by
  have hopen : w.newChannel.1.channel w.channels.length = .open none := w.channel_newChannel_self
  have hhears : w.newChannel.1.Hears (.sender w.channels.length) := ⟨none, hopen⟩
  have hid' : lock < w.newChannel.1.locks.length := hid
  have hjournal₁ : w.newChannel.1.journal lock = w.journal lock := rfl
  obtain ⟨shown, ⟨hlock, hjournal⟩, hothers⟩ := views_submit_of_granted hid' hhears hsubmit
  obtain ⟨-, -, hr, hl⟩ := Lock.submit_granted hsubmit
  have hgrant : r.grant lock = w.nextGrant lock mode := by
    rw [hr]
    rfl
  rw [submit_of_granted hid' hsubmit] at hlock hjournal hothers ⊢
  -- what the submission did before the entry is started touches no channel
  generalize hv : ({ w.newChannel.1 with
    locks := w.newChannel.1.locks.set lock (l.dispatchOn w.newChannel.1.thread)
    history :=
      .issued (r.grant lock) (currentSpan w.newChannel.1.entered) ::
        .notice (.grantedImmediately (r.grant lock) l.state) w.newChannel.1.entered ::
          w.newChannel.1.history } : World) = v at hlock hjournal hothers ⊢
  have hsent := start_of_open lock (show r.payload = .sender w.channels.length by rw [hr])
    (show v.channel w.channels.length = .open none from hv ▸ hopen)
  rw [hsent, hgrant, Move.world_before] at hlock hjournal
  rw [hsent, hgrant] at hothers ⊢
  refine .granted ?_ ?_ ?_ (fun other hother => (hothers other hother).2) fun hidle => ?_
  · apply channel_setChannel_self
    rw [← hv]
    simp [begun, newChannel]
  · rw [hjournal]
    simp
  · rw [hjournal, hjournal₁]
    simp
  · have hidle' : l.isDispatching w.thread = false := by
      rw [hl]
      exact hidle
    rw [hlock, ← hv]
    exact Lock.next_dispatchOn hidle'

theorem submits_of_queued {l : Lock Entry} {n pending : Nat}
    (hsubmit : (w.newChannel.1.lock lock).submit mode (.sender w.channels.length) =
      (l, .queued n pending)) :
    w.Submits lock mode (w.newChannel.1.submit lock mode (.sender w.channels.length)) := by
  have hopen : w.newChannel.1.channel w.channels.length = .open none := w.channel_newChannel_self
  have hlock₁ : w.newChannel.1.lock lock = w.lock lock := rfl
  obtain ⟨-, -, rfl, -, -⟩ := Lock.submit_queued hsubmit
  rw [submit_of_queued hsubmit]
  -- what follows the submission is only the report of it
  generalize hv : (w.newChannel.1.setLock lock l).notify
    (.queued ⟨lock, (w.newChannel.1.lock lock).core.nextId, mode⟩ l.state pending) = v
  obtain ⟨⟨-, hjournal⟩, hothers⟩ := views_of_step (w := w) l [_] hid
    (congrArg World.locks hv.symm) (congrArg World.history hv.symm)
    (by simp [Event.lock?, Notice.lock])
  refine .queued ?_ ?_ ?_ fun other hother => (hothers other hother).2
  · rw [← hopen, ← hv]
    rfl
  · rw [hjournal]
    simp
  · rw [hjournal]
    simp [nextGrant, hlock₁]

theorem submits (haccepted : ∀ limit,
      ((w.lock lock).submit mode (.sender w.channels.length)).2 ≠
        .rejected (.sender w.channels.length) limit) :
    w.Submits lock mode (w.newChannel.1.submit lock mode (.sender w.channels.length)) := by
  -- the three answers of a lock to a submission, and the third is excluded
  cases hsubmit : (w.newChannel.1.lock lock).submit mode (.sender w.channels.length) with
  | mk l submission =>
    cases submission with
    | granted r => exact submits_of_granted hid hsubmit
    | queued n pending => exact submits_of_queued hid hsubmit
    | rejected refused limit =>
      obtain ⟨-, -, rfl, -⟩ := Lock.submit_rejected hsubmit
      exact absurd (congrArg Prod.snd hsubmit) (haccepted limit)

end Submits

end World

namespace Machine

variable {m : Machine} {w u : World} {context : Context} {handle : Nat} {lock : LockId} {mode : Mode}
  {name : String} {below : List Frame} {c : ChannelId} {g : Grant} {a : Action}

theorem Calls.asks {f : Frame} {reply : Reply} {m' : Machine} {call : Call}
    (h : Calls ⟨w, f :: below, .returned reply⟩ m' call) : f.Asks w reply call := by
  cases h with
  | step h => exact h

/-- A step that makes no call leaves the future waiting. -/
theorem Awaits.step {f : Frame} {reply : Reply}
    (h : Awaits ⟨w, f :: below, .returned reply⟩ name c g [])
    (hm : Reachable ⟨w, f :: below, .returned reply⟩) (hsilent : ∀ call, ¬f.Asks w reply call) :
    (ofMove (f.resume w reply) below).Awaits name c g [] where
  linked := h.linked.next hm (.step _)
  stands := by
    refine h.linked.stands hm (.step _) (fun future hcall => ?_) (fun hcall => ?_) h.stands
    · exact hsilent _ hcall.asks
    · exact hsilent _ hcall.asks

/-! ### Requests -/

/-- What becomes of a machine when a request is submitted whose capability will come through a new
    channel.  The frame has the receiver. -/
def requested (w : World) (lock : LockId) (mode : Mode) (frame : Frame) (below : List Frame) :
    Machine :=
  ofMove ((w.newChannel.1.submit lock mode (.sender w.channels.length)).before [frame]) below

/-- The next thing that the machine does is to submit such a request. -/
structure Requests (m : Machine) (w : World) (lock : LockId) (mode : Mode) (frame : Frame)
    (below : List Frame) : Prop where
  next : Next m (requested w lock mode frame below)
  lt : lock < w.locks.length
  channels : w.channels = m.world.channels
  locks : ∀ id, w.lock id = m.world.lock id
  journal : ∀ id, w.journal id = m.world.journal id
  carried : carriedBy (frame :: below) = carriedBy m.frames

/-- The submission is answered after some steps; the future is to get its capability through the
    channel, and is told so then. -/
def Answers (m : Machine) (frame : Frame) (below : List Frame) (name : String) (c : ChannelId)
    (g : Grant) : Prop :=
  ∃ v, m.Steps ⟨v, frame :: below, .returned .ok⟩ ∧ v.futures = m.world.futures ∧
    (v.channel c = .open none ∨ v.channel c = .sent g) ∧
    Awaits ⟨v, frame :: below, .returned .ok⟩ name c g []

/-- A loop with nothing to do is left before that. -/
theorem Awaits.answers_of_loop {frames : List Frame} {frame : Frame}
    (hframes : frames = .dispatching lock none :: frame :: below)
    (h : Awaits ⟨w, frames, .returned .ok⟩ name c g []) (hm : Reachable ⟨w, frames, .returned .ok⟩)
    (hnext : (w.lock lock).next w.thread = none) (hchannel : w.channel c = .sent g) :
    Answers ⟨w, frames, .returned .ok⟩ frame below name c g := by
  subst hframes
  -- the loop gives up its run list, which says nothing to the future
  have hresume : (Frame.dispatching lock none).resume w .ok =
      (w.setLock lock ((w.lock lock).close w.thread).1).reply .ok := by
    simp [Frame.resume, World.dispatch, hnext]
  have hleft := h.step hm fun _ hcall => by cases hcall
  have hstep : Steps ⟨w, .dispatching lock none :: frame :: below, .returned .ok⟩
      (ofMove ((Frame.dispatching lock none).resume w .ok) (frame :: below)) := ⟨1, rfl⟩
  rw [hresume] at hleft hstep
  exact ⟨_, hstep, rfl, .inr hchannel, hleft⟩

namespace Requests

variable {frame : Frame}

section Linked

variable (h : m.Requests w lock mode frame below) (hm : m.Reachable)
include h hm

/-- The next grant of the lock has not been asked for. -/
theorem nextGrant_not_accepted : w.nextGrant lock mode ∉ (m.world.journal lock).accepted := by
  intro hmem
  have hid := (hm.balanced lock).id_lt_nextId hmem
  rw [← h.locks] at hid
  exact Nat.lt_irrefl _ hid

/-- The sender of the new channel is the entry of the request that is accepted. -/
theorem eq_nextGrant_of_carries
    (haccepted : ((requested w lock mode frame below).world.journal lock).accepted =
      (w.journal lock).accepted ++ [w.nextGrant lock mode])
    (hothers : ∀ other, other ≠ lock →
      (requested w lock mode frame below).world.journal other = w.journal other)
    (hcarries : (requested w lock mode frame below).Carries g (.sender w.channels.length)) :
    g = w.nextGrant lock mode := by
  rcases (hm.acts h.next).carries hcarries with hcarries | ⟨hnew, -⟩
  · -- no request had the sender before, as the channel is new
    have hlt := (hm.carries hcarries).2 _ rfl
    rw [← h.channels] at hlt
    exact absurd hlt (Nat.lt_irrefl _)
  · -- one request has been accepted, and no other
    have hnew' : ((requested w lock mode frame below).world.journal g.lock).accepted =
        (w.journal g.lock).accepted ++ [g] := by
      rw [h.journal]
      exact hnew
    by_cases hg : g.lock = lock
    · rw [hg, haccepted] at hnew'
      exact (List.singleton_inj.1 (List.append_cancel_left hnew')).symm
    · rw [hothers _ hg] at hnew'
      simp at hnew'

/-- The request that is accepted comes with no other entry. -/
theorem eq_sender_of_carries {entry : Entry}
    (hcarries : (requested w lock mode frame below).Carries (w.nextGrant lock mode) entry) :
    entry = .sender w.channels.length := by
  have hid : lock < w.newChannel.1.locks.length := h.lt
  generalize hg : w.nextGrant lock mode = g at hcarries
  -- it was not carried by anything before
  have hold : ¬m.Carries g entry := by
    intro hcarries
    obtain rfl := hg
    exact h.nextGrant_not_accepted hm (hm.carries hcarries).1
  cases hcarries with
  | @requested id r hr =>
    have hhears : w.newChannel.1.Hears (.sender w.newChannel.2) := ⟨none, w.channel_newChannel_self⟩
    rcases World.requests_submit hid mode hhears hr with hr | ⟨-, hpayload, -⟩
    · have hr' : r ∈ (w.lock id).requests := hr
      rw [h.locks] at hr'
      exact absurd (.requested hr') hold
    · exact hpayload
  | held hheld =>
    have hnone := World.carriedBy_submit hid mode (.sender w.channels.length)
    simp only [requested, ofMove, Move.frames_before, List.append_assoc, List.singleton_append]
      at hheld
    rw [carriedBy_append, hnone, List.nil_append, h.carried] at hheld
    exact absurd (.held hheld) hold

/-- The sender of the new channel goes with the new request. -/
theorem linked
    (haccepted : ((requested w lock mode frame below).world.journal lock).accepted =
      (w.journal lock).accepted ++ [w.nextGrant lock mode])
    (hothers : ∀ other, other ≠ lock →
      (requested w lock mode frame below).world.journal other = w.journal other) :
    (requested w lock mode frame below).Linked w.channels.length (w.nextGrant lock mode) where
  accepted := by
    show w.nextGrant lock mode ∈ ((requested w lock mode frame below).world.journal lock).accepted
    rw [haccepted]
    simp
  made := by
    have hlength : w.newChannel.1.channels.length ≤
        (requested w lock mode frame below).world.channels.length :=
      (World.passes_submit w.newChannel.1 lock mode (.sender w.newChannel.2) 0 0).length_le
    have hnew : w.newChannel.1.channels.length = w.channels.length + 1 := by simp [World.newChannel]
    -- the channel is the last one of those that were there before, and the request makes no other
    show w.channels.length < (requested w lock mode frame below).world.channels.length
    omega
  only _ := h.eq_nextGrant_of_carries hm haccepted hothers
  entry _ := h.eq_sender_of_carries hm

end Linked

/-- A request that is not turned away is answered, and nothing has come of it but that its grant may
    have been issued on the spot. -/
theorem answers (h : m.Requests w lock mode frame below) (hm : m.Reachable) (name : String)
    (hsubmit : ∀ limit, ((w.lock lock).submit mode (.sender w.channels.length)).2 ≠
      .rejected (.sender w.channels.length) limit) :
    (requested w lock mode frame below).Answers frame below name w.channels.length
      (w.nextGrant lock mode) := by
  have hsubmits := World.submits h.lt hsubmit
  have hlinked := h.linked hm
  have hnext := h.next
  unfold requested at hlinked hnext ⊢
  generalize w.newChannel.1.submit lock mode (.sender w.channels.length) = move
    at hsubmits hlinked hnext ⊢
  have hx := hm.reaches (.single hnext)
  cases hsubmits with
  | @queued v hchannel hissued haccepted hothers =>
    have hnot : w.nextGrant lock mode ∉ (v.journal lock).issued := by
      intro hmem
      rw [hissued, h.journal] at hmem
      exact h.nextGrant_not_accepted hm ((hm.balanced lock).issued_sublist.subset hmem)
    -- the request is new, so nothing has become of its grant
    have hawaits : Awaits ⟨v, frame :: below, .returned .ok⟩ name w.channels.length
        (w.nextGrant lock mode) [] := by
      refine ⟨hlinked haccepted hothers, ?_⟩
      show v.Stands _ name [] (v.channel w.channels.length)
      rw [hchannel]
      exact .waits (mt hx.issued_of_started hnot) (mt hx.issued_of_handedBack hnot) nofun
    exact ⟨v, .refl _, rfl, .inl hchannel, hawaits⟩
  | @granted v hchannel hstarted haccepted hothers hidle =>
    have hawaits : Awaits ⟨v, .invocation (w.nextGrant lock mode) ::
        ((if (w.lock lock).isDispatching w.thread then [] else [.dispatching lock none]) ++
          [frame] ++ below), .returned .nothing⟩ name w.channels.length
        (w.nextGrant lock mode) [] := by
      refine ⟨hlinked haccepted hothers, ?_⟩
      show v.Stands _ name [] (v.channel w.channels.length)
      rw [hchannel]
      exact .sent hstarted nofun
    -- the entry point returns at once, and then the loop below it, if there is one
    have hleft := Awaits.step hawaits hx nofun
    have hstep := hx.reaches (.single (.step _))
    have hanswers : Answers (ofMove ((Frame.invocation (w.nextGrant lock mode)).resume v .nothing)
        ((if (w.lock lock).isDispatching w.thread then [] else [.dispatching lock none]) ++
          [frame] ++ below)) frame below name w.channels.length (w.nextGrant lock mode) := by
      cases hloop : (w.lock lock).isDispatching w.thread with
      | true =>
        rw [hloop] at hleft
        exact ⟨v.leaveSpan, .refl _, rfl, .inr hchannel, hleft⟩
      | false =>
        rw [hloop] at hleft hstep
        exact Awaits.answers_of_loop rfl hleft hstep (hidle hloop) hchannel
    obtain ⟨u, hsteps, hfutures, hanswered⟩ := hanswers
    exact ⟨u, Steps.head hsteps, hfutures, hanswered⟩

end Requests

/-- The future is made after some steps, and has not been polled then. -/
def Yields (m : Machine) (name : String) (c : ChannelId) (g : Grant) : Prop :=
  ∃ made, m.Steps made ∧ made.world.Stores name c ∧ made.Serves name c g []

/-- Once its submission has been answered, the future is stored. -/
theorem Answers.yields (h : m.Answers (.acquiring name c) below name c g) (hm : m.Reachable) :
    m.Yields name c g := by
  obtain ⟨v, hsteps, -, -, hawaits⟩ := h
  have hstored : (ofMove (v.acquired name c .ok) below).world.Stores name c := by
    -- between the submission and the store nobody polls the future
    show (v.storeFuture name (.acquire (.accepted c))).world.futures.get? name = _
    rw [World.futures_storeFuture, Table.get?_put_self]
  have hmade : (ofMove (v.acquired name c .ok) below).Awaits name c g [] := by
    refine hawaits.step (hm.reaches hsteps.reaches) fun call hasks => ?_
    cases hasks with
    | refused hreply => cases hreply
  exact ⟨_, hsteps.trans ⟨1, rfl⟩, hstored, hmade, .inl hstored⟩

namespace Begins

theorem lock_eq (h : m.Begins w context a below) (id : LockId) : w.lock id = m.world.lock id := by
  rcases h.logged with rfl | ⟨e, -, rfl⟩ <;> rfl

theorem carriedBy (h : m.Begins w context a below) :
    carriedBy below = FairLock.carriedBy m.frames := by
  cases h <;> rfl

theorem next_acquire (h : m.Begins w context (.acquire handle mode name) below)
    (hlock : w.lockOf? handle = some lock) : Next m (ofMove (w.acquire lock mode name) below) := by
  have hnext := h.next
  simpa [World.perform, World.withLock, hlock] using hnext

/-- Making a future for access begins with its request. -/
theorem requests (h : m.Begins w context (.acquire handle mode name) below) (hm : m.Reachable)
    (hlock : w.lockOf? handle = some lock) :
    m.Requests w lock mode (.acquiring name w.channels.length) below where
  next := h.next_acquire hlock
  lt := (h.wellFormed hm).lock_lt hlock
  channels := h.same.2.1
  locks := h.lock_eq
  journal := h.same.2.2
  carried := h.carriedBy

/-- A future whose request is accepted is stored, and has not been polled then. -/
theorem yields (h : m.Begins w context (.acquire handle mode name) below)
    (hlock : w.lockOf? handle = some lock) (hm : m.Reachable)
    (hsubmit : ∀ limit, ((w.lock lock).submit mode (.sender w.channels.length)).2 ≠
      .rejected (.sender w.channels.length) limit) :
    (ofMove (w.acquire lock mode name) below).Yields name w.channels.length
      (w.nextGrant lock mode) :=
  ((h.requests hm hlock).answers hm name hsubmit).yields
    (hm.reaches (.single (h.next_acquire hlock)))

end Begins

/-! ### Requests that are turned away -/

/-- A future whose request is turned away is stored with the failure. -/
theorem refused_step_acquire {limit : Nat} (below : List Frame)
    (hsubmit : ((w.lock lock).submit mode (.sender w.channels.length)).2 =
      .rejected (.sender w.channels.length) limit) :
    (ofMove (w.acquire lock mode name) below).step.world.futures.get? name =
      some (.acquire (.refused (some (.queueFull limit)))) := by
  cases hresult : (w.newChannel.1.lock lock).submit mode (.sender w.channels.length) with
  | mk l submission =>
    have hrejected : submission = .rejected (.sender w.channels.length) limit :=
      (congrArg Prod.snd hresult).symm.trans hsubmit
    -- the request comes back with the sender, which is discarded: nobody waits at the other end yet
    rw [hrejected] at hresult
    have hacquire : w.acquire lock mode name =
        (w.newChannel.1.submit lock mode (.sender w.channels.length)).before
          [.acquiring name w.channels.length] := rfl
    rw [hacquire, World.submit_of_rejected hresult]
    generalize World.discard _ none _ = v
    show ((v.setChannel w.channels.length .gone).storeFuture name
      -- the acquiring frame hears of the refusal and stores it with the future
      (.acquire (.refused (some (.queueFull limit))))).world.futures.get? name = _
    rw [World.futures_storeFuture, Table.get?_put_self]

/-- What is true from when a future was made whose request failed. -/
structure Refuses (made : Machine) (name : String) (failure : Failure) : Prop where
  stored : made.world.futures.get? name = some (.acquire (.refused (some failure)))
  /-- The first poll gives the failure, and there is none afterwards. -/
  answer : ∀ z, Reaches made z → ∀ w context below, z.Begins w context (.poll name) below →
    z.world.futures.get? name = some (.acquire (.refused (some failure))) →
    (w.perform context (.poll name)).Answers (.failed failure) ∧
      (w.perform context (.poll name)).world.futures.get? name = some (.acquire (.refused none))
  /-- Nothing else takes a failure out of a future. -/
  tells : ∀ z z', Reaches made z → Next z z' →
    z'.world.futures.get? name = some (.acquire (.refused none)) →
    z.world.futures.get? name = some (.acquire (.refused none)) ∨
      ∃ failure, Polls name (.refused (some failure)) z z' (.failed failure)

theorem refuses_of_stored {failure : Failure}
    (h : m.world.futures.get? name = some (.acquire (.refused (some failure)))) :
    m.Refuses name failure where
  stored := h
  answer := by
    intro z _ w context below hbegins hstored
    rw [← hbegins.same.1] at hstored
    exact World.poll_refused hstored
  tells := fun _ _ _ hn htold => hn.tells htold

/-! ## Runs -/

/-- A run from a machine on, with the answers to the polls of a future, the last one first. -/
inductive Answered (name : String) (c : ChannelId) (made : Machine) :
    Machine → List Reply → Prop where
  | made : Answered name c made made []
  | polled {z z' : Machine} {answers : List Reply} {r : Reply} (h : Answered name c made z answers)
      (hp : Polls name (.accepted c) z z' r) : Answered name c made z' (r :: answers)
  | other {z z' : Machine} {answers : List Reply} (h : Answered name c made z answers)
      (hn : Next z z') (hno : ∀ r, ¬Polls name (.accepted c) z z' r) :
      Answered name c made z' answers

variable {made z : Machine} {answers : List Reply}

theorem Answered.reaches (h : Answered name c made z answers) : Reaches made z := by
  induction h with
  | made => exact .refl
  | polled _ hp ih => exact ih.tail hp.next
  | other _ hn _ ih => exact ih.tail hn

/-- Every run has its answers. -/
theorem Reaches.exists_answered (h : Reaches made z) (name : String) (c : ChannelId) :
    ∃ answers, Answered name c made z answers := by
  induction h with
  | refl => exact ⟨[], .made⟩
  | @tail z z' _ hn ih =>
    obtain ⟨answers, hanswers⟩ := ih
    by_cases hp : ∃ r, Polls name (.accepted c) z z' r
    · obtain ⟨r, hp⟩ := hp
      exact ⟨r :: answers, .polled hanswers hp⟩
    · exact ⟨answers, .other hanswers hn fun r hr => hp ⟨r, hr⟩⟩

/-- The future is served all along. -/
theorem Answered.serves (h : Answered name c made z answers) (hmade : made.Reachable)
    (hs : made.Serves name c g []) : z.Serves name c g answers := by
  induction h with
  | made => exact hs
  | polled h hp ih => exact ih.polled (hmade.reaches h.reaches) hp
  | other h hn hno ih => exact ih.next (hmade.reaches h.reaches) hn hno

/-! ## What becomes of a future -/

/-- What is true of a future for a grant whose polls were answered like this so far. -/
structure Honours (m : Machine) (name : String) (c : ChannelId) (g : Grant) (answers : List Reply) :
    Prop where
  /-- Until the result has been given out, every poll answers what is due. -/
  answer : m.world.Stores name c → (∀ r ∈ answers, r = .pending) →
    ∀ w context below, m.Begins w context (.poll name) below →
      (w.perform context (.poll name)).Answers (m.world.dueAnswer g)
  /-- Either the capability is due in the end, or the news that the entry point was dropped. -/
  exclusive : g ∈ (m.world.journal g.lock).started → g ∉ (m.world.journal g.lock).handedBack
  /-- If the last poll left it pending, the future is woken when its result becomes available, -/
  woken : m.world.Stores name c → answers.head? = some .pending →
    ∀ m', Next m m' → m.Settles m' g →
      m'.world.woken.count name = m.world.woken.count name + 1
  /-- and nothing else wakes it. -/
  undisturbed : m.world.Stores name c → ∀ m', Next m m' →
    ¬(answers.head? = some .pending ∧ m.Settles m' g) →
      m'.world.woken.count name = m.world.woken.count name
  /-- A capability that was sent and not received ends when the future is dropped. -/
  dropped : m.world.Stores name c → (∀ r ∈ answers, r = .pending) →
    g ∈ (m.world.journal g.lock).started →
      ∀ m', Next m m' → ¬m'.world.Stores name c → g ∈ (m'.world.journal g.lock).ended
  /-- Nobody has the future again once it was dropped. -/
  gone : ¬m.world.Stores name c → ∀ m', Next m m' → ¬m'.world.Stores name c
  /-- If it was dropped before, the grant ends inside the boundary of its entry point. -/
  returned : ¬m.world.Stores name c → g ∉ (m.world.journal g.lock).started →
    ∀ m', Next m m' → g ∈ (m'.world.journal g.lock).started →
      g ∈ (m'.world.journal g.lock).ended ∧ ∃ rest, m'.frames = .invocation g :: rest
  /-- A grant whose entry point is dropped uncalled has been handed back before. -/
  handedBack : g ∈ (m.world.journal g.lock).handedBack → g ∈ (m.world.journal g.lock).ended
  /-- While nobody works off a run list of the lock, the grant of a future that was dropped before
      it gave out its result is not held. -/
  free : ¬m.world.Stores name c → (∀ r ∈ answers, r = .pending) → m.isAborting = false →
    (∀ f ∈ m.frames, f.dispatcher? ≠ some g.lock) → g ∉ (m.world.journal g.lock).held

theorem Serves.honours (h : m.Serves name c g answers) (hm : m.Reachable) :
    m.Honours name c g answers where
  answer := by
    intro hstored hanswers w context below hbegins
    -- a poll begins with the world as it is, so the future that is stored there is this one
    have hstored' : w.Stores name c := by rwa [World.Stores, hbegins.same.1]
    obtain ⟨r, hgives⟩ := World.poll_gives hstored'
    obtain rfl := h.answer hm (.mk hbegins hstored' hgives.answers) hanswers
    exact hgives.answers
  exclusive := fun hstarted hback => hm.not_started_of_handedBack hback hstarted
  woken := fun hstored hhead m' hn hsettles => (h.woken hm hn hstored).1 ⟨hsettles, hhead⟩
  undisturbed := fun hstored m' hn hnot => (h.woken hm hn hstored).2 (mt And.symm hnot)
  dropped := by
    intro hstored hanswers hstarted m' hn hdropped
    have hs : m'.Serves name c g answers :=
      -- the drop keeps the future out of the table, and what has started by then ends with it
      h.next hm hn fun r hp => hdropped hp.stores.2
    exact hs.ended_of_started hdropped hanswers (hm.mem_occurrences (.single hn) hstarted)
  gone := by
    intro hdropped m' hn hstored
    have hgone := hn.gone h.linked.made (h.stored.resolve_left hdropped)
    -- who is dropped stays so: its channel has no receiver any more, and none comes back
    exact (hm.reaches (.single hn)).not_gone hstored (Multiset.mem_singleton_self c) hgone
  returned := fun hdropped hnot m' hn hstarted => h.ended_in_place hdropped hm hn hnot hstarted
  handedBack := hm.endsFirst.handedBack g
  free := fun hdropped hanswers hgoing hquiet => h.not_held hdropped hm hanswers hgoing hquiet

end Machine

/-- A future for access whose request is turned away gives the failure at its first poll.  One whose
    request is accepted gives the capability of its own request or tells that the entry point was
    dropped uncalled, is woken once if it waits, and does not keep the lock when it is dropped. -/
theorem acquired_future_settles {m : Machine} {w : World} {context : Context} {handle : Nat}
    {lock : LockId} {mode : Mode} {name : String} {below : List Frame} (hm : m.Reachable)
    (hbegins : m.Begins w context (.acquire handle mode name) below)
    (hlock : w.lockOf? handle = some lock) :
    (∀ limit, ((w.lock lock).submit mode (.sender w.channels.length)).2 =
        .rejected (.sender w.channels.length) limit →
      ∃ made, (Machine.ofMove (w.perform context (.acquire handle mode name)) below).Steps made ∧
        made.Refuses name (.queueFull limit)) ∧
    ((∀ limit, ((w.lock lock).submit mode (.sender w.channels.length)).2 ≠
        .rejected (.sender w.channels.length) limit) →
      ∃ made, (Machine.ofMove (w.perform context (.acquire handle mode name)) below).Steps made ∧
        made.world.Stores name w.channels.length ∧
        ∀ z, Machine.Reaches made z →
          (∃ answers, Machine.Answered name w.channels.length made z answers) ∧
          ∀ answers, Machine.Answered name w.channels.length made z answers →
            z.Honours name w.channels.length (w.nextGrant lock mode) answers) := by
  have hperform : w.perform context (.acquire handle mode name) = w.acquire lock mode name := by
    simp [World.perform, World.withLock, hlock]
  -- from here on it does not matter what called for the request
  rw [hperform]
  refine ⟨fun limit hsubmit => ?_, fun hsubmit => ?_⟩
  · exact ⟨_, ⟨1, rfl⟩, Machine.refuses_of_stored (Machine.refused_step_acquire below hsubmit)⟩
  -- the machine that has stored the future serves it, and what serves it does so on every run
  · obtain ⟨made, hsteps, hstored, hserves⟩ := hbegins.yields hlock hm hsubmit
    refine ⟨made, hsteps, hstored, fun z hz => ⟨hz.exists_answered name _, fun answers h => ?_⟩⟩
    have hmade : made.Reachable :=
      hm.reaches (.head (hbegins.next_acquire hlock) hsteps.reaches)
    exact (h.serves hmade hserves).honours (hmade.reaches hz)

/-- A reader waits for a writer that is kept, and is polled before and after the writer's release. -/
def waitingReader : Action :=
  .guard (.actions
    [.submit 0 .write "writer" (.actions [.park "writer"]) .done true,
     .acquire 0 .read "waiter",
     .poll "waiter",
     .release (.named "writer"),
     .poll "waiter"])

/-- The machine that performs this on one lock, after some steps. -/
def waitingReaderAfter (config : Config) (n : Nat) : Machine :=
  Machine.step^[n] (Machine.begin (World.initial [config] []) waitingReader)

theorem acquired_future_settles_waitingReader :
    (∃ w below made, (waitingReaderAfter {} 8).Begins w {} (.acquire 0 .read "waiter") below ∧
      (Machine.ofMove (w.perform {} (.acquire 0 .read "waiter")) below).Steps made ∧
      made.world.Stores "waiter" 0 ∧
      ∀ z, Machine.Reaches made z →
        (∃ answers, Machine.Answered "waiter" 0 made z answers) ∧
        ∀ answers, Machine.Answered "waiter" 0 made z answers →
          z.Honours "waiter" 0 ⟨0, 2, .read⟩ answers) ∧
    ∃ w below made,
      (waitingReaderAfter { maxPending := some 0 } 8).Begins w {} (.acquire 0 .read "waiter") below ∧
      (Machine.ofMove (w.perform {} (.acquire 0 .read "waiter")) below).Steps made ∧
      made.Refuses "waiter" (.queueFull 0) := by
  constructor
  · have hbegins : (waitingReaderAfter {} 8).Begins
        ((waitingReaderAfter {} 8).world.logReply {} (some "submit") .ok) {}
        (.acquire 0 .read "waiter")
        [.actions {} (some "acquire") [.poll "waiter", .release (.named "writer"), .poll "waiter"],
          .guarding] := .action
    -- the world is named only for its lock and its channels, which compute
    generalize hw : (waitingReaderAfter {} 8).world.logReply {} (some "submit") .ok = w at hbegins
    have hqueued : ((w.lock 0).submit .read (.sender w.channels.length)).2 = .queued 2 1 := by
      rw [← hw]
      rfl
    have hchannel : w.channels.length = 0 := by
      rw [← hw]
      rfl
    have hgrant : w.nextGrant 0 .read = ⟨0, 2, .read⟩ := by
      rw [← hw]
      rfl
    obtain ⟨made, hsteps, hmade⟩ :=
      (acquired_future_settles (Machine.reachable_iterate _ _ _ 8) hbegins (by rw [← hw]; rfl)).2
        fun limit h => absurd (hqueued.symm.trans h) nofun
    rw [hchannel, hgrant] at hmade
    exact ⟨w, _, made, hbegins, hsteps, hmade⟩
  · have hbegins : (waitingReaderAfter { maxPending := some 0 } 8).Begins
        ((waitingReaderAfter { maxPending := some 0 } 8).world.logReply {} (some "submit") .ok) {}
        (.acquire 0 .read "waiter")
        [.actions {} (some "acquire") [.poll "waiter", .release (.named "writer"), .poll "waiter"],
          .guarding] := .action
    generalize hw : (waitingReaderAfter { maxPending := some 0 } 8).world.logReply {} (some "submit")
      .ok = w at hbegins
    obtain ⟨made, hsteps, hmade⟩ :=
      (acquired_future_settles (Machine.reachable_iterate _ _ _ 8) hbegins (by rw [← hw]; rfl)).1 0
        (by rw [← hw]; rfl)
    exact ⟨w, _, made, hbegins, hsteps, hmade⟩

/-- The reader is woken once, and its second poll gives it the capability. -/
example : (waitingReaderAfter {} 21).world.woken = ["waiter"] ∧
    ((waitingReaderAfter {} 21).world.journal 0).held = [⟨0, 2, .read⟩] := ⟨by rfl, by rfl⟩

end FairLock
