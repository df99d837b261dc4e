import FairLock.Proofs.Working

/-!
# Work is bracketed by its grant

A future with work asks for nothing until it is polled.  Its first poll submits the request.  If
that is turned away, the poll gives the failure and drops the work without having begun it.
Otherwise the future waits or begins to work by this poll, and from then on everything that is done
leaves it where it is, lets it go one further, or ends its grant.

## Main definitions

- `Machine.Brackets`: what is true of a future from when its request was accepted.
- `Machine.Embarks`, `Machine.Forgoes`: what the first poll of a future comes to.
- `Machine.Unasked`: what is true of a future that has not been polled.

## Main statements

- `Machine.Progress.brackets`: a future that has asked for access keeps to it.
- `Machine.Begins.embarks`, `Machine.Begins.forgoes`: the first poll.
- `run_holds_grant_around_work`.
-/

namespace FairLock

namespace World

variable {w : World} {name : String} {work : Work} {c : ChannelId}

/-! ## Making -/

theorem accepted_endGrant (w : World) (g : Grant) (id : LockId) :
    ((w.endGrant g).world.journal id).accepted = (w.journal id).accepted := by
  obtain ⟨new, hnew, haccepted, -⟩ := (w.ends_endGrant g id).exists_new
  rw [hnew, Journal.accepted, occurrences_append, show occurrences Event.accepted? new = [] from
    haccepted, List.append_nil]

theorem accepted_dropReceiver (w : World) (c : ChannelId) (id : LockId) :
    ((w.dropReceiver c).world.journal id).accepted = (w.journal id).accepted := by
  unfold dropReceiver
  cases w.channel c with
  | sent g => exact accepted_endGrant _ g id
  | _ => rfl

theorem accepted_dropFuture (w : World) (name : String) (f : Future) (id : LockId) :
    ((w.dropFuture name f).world.journal id).accepted = (w.journal id).accepted := by
  -- only a future that listens or holds a grant does anything when it is dropped, and none submits
  cases f with
  | acquire acquisition =>
    cases acquisition with
    | accepted c => exact w.accepted_dropReceiver c id
    | refused failure => rfl
  | run work stage =>
    cases stage with
    | unstarted => rfl
    | waiting c => exact w.accepted_dropReceiver c id
    | working g rest => exact accepted_endGrant _ g id

/-- Whatever is stored submits nothing by that, and what makes room for it does not either. -/
theorem accepted_storeFuture (w : World) (name : String) (f : Future) (id : LockId) :
    ((w.storeFuture name f).world.journal id).accepted = (w.journal id).accepted := by
  unfold storeFuture
  cases w.futures.get? name with
  | none => rfl
  | some old => exact accepted_dropFuture _ name old id

/-! ## Turning away -/

/-- The receiver is told if it still waits. -/
theorem discard_of_open {grant : Option Grant} (h : w.channel c = .open none) :
    w.discard grant (.sender c) =
      (w.emit (.discarded grant none)).setChannel c .abandoned := by
  have hopen : (w.emit (.discarded grant none)).channel c = .open none := h
  simp only [discard, hopen, wake]

/-- A request that is turned away drops the sender of its channel, and answers with the failure. -/
theorem request_of_rejected {lock : LockId} {mode : Mode} {limit : Nat}
    (h : ((w.lock lock).submit mode (.sender w.channels.length)).2 =
      .rejected (.sender w.channels.length) limit) :
    ∃ v : World,
      w.newChannel.1.submit lock mode (.sender w.channels.length) =
        v.reply (.failed (.queueFull limit)) ∧
      v.futures = w.futures ∧ w.channels.length < v.channels.length ∧
      v.history =
        .discarded none none :: .notice (.rejected lock mode limit) w.entered :: w.history := by
  obtain ⟨l, hresult⟩ : ∃ l, (w.newChannel.1.lock lock).submit mode (.sender w.channels.length) =
      (l, .rejected (.sender w.channels.length) limit) := ⟨_, Prod.ext rfl h⟩
  -- nobody has asked for the new channel yet, so its sender finds it open
  have hopen : ∀ l, ((w.newChannel.1.setLock lock l).notify (.rejected lock mode limit)).channel
      w.channels.length = .open none := fun _ => w.channel_newChannel_self
  rw [submit_of_rejected hresult, discard_of_open (hopen _)]
  exact ⟨_, rfl, rfl, by simp [newChannel, setChannel, emit, notify, setLock], rfl⟩

end World

namespace Machine

variable {m m' : Machine} {w : World} {context : Context} {name : String} {work : Work}
  {c : ChannelId} {g : Grant} {below : List Frame}

/-! ## From the acceptance on -/

/-- What is true of a future from when its request was accepted. -/
structure Brackets (m : Machine) (name : String) (work : Work) (c : ChannelId) (g : Grant) :
    Prop where
  /-- The grant is held as long as the future works. -/
  held : m.Works name work g → g ∈ (m.world.journal g.lock).held
  /-- It ends once at most. -/
  once : (m.world.journal g.lock).ended.Nodup
  /-- A future that waits goes on waiting, or is polled or dropped. -/
  waiting : m.Waits name work c → ∀ m', Next m m' → Attends name work c g m m'
  /-- One that works goes on working, or ends its grant by giving it up. -/
  working : m.Works name work g → ¬m.Waits name work c ∧ ∀ m', Next m m' →
    ¬Quits name work g m m' ∧ m'.Works name work g ∧ g ∉ (m'.world.journal g.lock).ended ∨
      Quits name work g m m' ∧ m'.IsOver name work c g ∧ g ∈ (m'.world.journal g.lock).ended
  /-- When the work is done, the poll answers with its output.  It does so unless a panic leaves the
      release, and then a failure has panicked when it was destroyed. -/
  output : ∀ w last below reply, m = ⟨w, .working name work g last [] :: below, .returned reply⟩ →
    ∀ x, m.step.ComesTo x → x.frames = below → x.HasReturned ∨ m.step.Defused x →
      x.control = .returned (.done work.output)
  /-- What is over is over for good. -/
  stays : m.IsOver name work c g → ∀ m', Next m m' → m'.IsOver name work c g
  /-- The grant is not held then from the step on that starts its entry point. -/
  returned : m.IsOver name work c g → g ∈ (m.world.journal g.lock).started →
    g ∈ (m.world.journal g.lock).ended
  /-- So it is if the entry point was dropped uncalled, -/
  handedBack : g ∈ (m.world.journal g.lock).handedBack → g ∈ (m.world.journal g.lock).ended
  /-- and while nobody works off a run list of the lock. -/
  free : m.IsOver name work c g → m.isAborting = false →
    (∀ f ∈ m.frames, f.dispatcher? ≠ some g.lock) → g ∉ (m.world.journal g.lock).held

/-- A failure that panics is all that can leave the release at the end of the work. -/
theorem Defused.returns_release {x : Machine} {reply : Reply}
    (hm : (ofMove ((w.release g).1.answering reply) x.frames).Reachable)
    (hx : (ofMove ((w.release g).1.answering reply) x.frames).ComesTo x)
    (hdefused : (ofMove ((w.release g).1.answering reply) x.frames).Defused x) :
    x.HasReturned := by
  -- the answer that is put below the release is the frame that comes first after it
  have hsame : ofMove ((w.release g).1.answering reply) x.frames =
      ofMove (w.release g).1 (.answering reply :: x.frames) := by
    simp [ofMove, Move.answering]
  rw [hsame] at hm hx hdefused
  have hsplit : (ofMove (w.release g).1 (.answering reply :: x.frames)).frames =
      (w.release g).1.frames ++ ([.answering reply] ++ x.frames) := rfl
  -- the run to the end passes the moment when the release is done and this frame is on top
  obtain ⟨⟨v, frames, control⟩, hframes, hy, hrest⟩ := hx.split hsplit
  obtain rfl : frames = .answering reply :: x.frames := hframes
  -- the release returns, as no second panic leaves it before that moment
  have hholding := (Enters.releases w g (.answering reply :: x.frames)).holding
  obtain ⟨last, rfl⟩ : ∃ last, control = .returned last :=
    hholding.returns hm hy fun z fault hz hzy => hdefused z fault hz (hzy.trans hrest [_] rfl)
  have hcovered : Frame.answering reply :: x.frames = .answering reply :: [] ++ x.frames := rfl
  -- from there one step is left, which answers
  have hend : (⟨v, x.frames, .returned reply⟩ : Machine) = x :=
    (hrest.next hcovered).eq_of_frames rfl
  exact hend ▸ ⟨reply, rfl⟩

/-- A future that has done its work answers with the output. -/
theorem Reachable.answers_output {last : Option String} {reply : Reply} {x : Machine}
    (hm : Reachable ⟨w, .working name work g last [] :: x.frames, .returned reply⟩)
    (hx : (step ⟨w, .working name work g last [] :: x.frames, .returned reply⟩).ComesTo x)
    (hback : x.HasReturned ∨
      (step ⟨w, .working name work g last [] :: x.frames, .returned reply⟩).Defused x) :
    x.control = .returned (.done work.output) := by
  -- the work is over: the release comes on top of what will answer with the output
  have hstep : step ⟨w, .working name work g last [] :: x.frames, .returned reply⟩ =
      ofMove (((w.logReply { tag := name } last reply).release g).1.answering (.done work.output))
        x.frames := rfl
  have hnext := hm.reaches (.single (.step _))
  rw [hstep] at hx hback hnext
  refine hx.answering (by simp [ofMove, Move.answering]; rfl) (hback.elim id fun hdefused => ?_)
  exact hdefused.returns_release hnext hx

/-- What is over has ended, or it was dropped before it received its grant. -/
theorem Progress.ended_or_dropped (h : m.Progress name work c g) (hover : m.IsOver name work c g) :
    g ∈ (m.world.journal g.lock).ended ∧ m.Deserted c ∨
      ∃ answers, m.Serves name c g answers ∧ m.world.channel c = .gone ∧
        ∀ r ∈ answers, r = .pending := by
  cases h with
  | waits hwaits => exact absurd hwaits hover.1
  | works hworks => exact absurd hworks hover.2
  | ended hended hdeserted => exact .inl ⟨hended, hdeserted⟩
  | dropped hserves hgone hanswers => exact .inr ⟨_, hserves, hgone, hanswers⟩

/-- A future that asked for access keeps to this. -/
theorem Progress.brackets (h : m.Progress name work c g) (hm : m.Reachable) :
    m.Brackets name work c g where
  held := fun hworks => hworks.held hm
  once := (hm.balanced g.lock).endedOnce
  waiting := by
    intro hwaits m' hn
    -- only a future that waits still can be polled to a beginning; the other three are beyond that
    cases h with
    | waits _ hawaits hanswers => exact (hwaits.attends hawaits hanswers hm hn).1
    | works _ hdeserted => exact absurd hwaits hdeserted.not_waits
    | ended _ hdeserted => exact absurd hwaits hdeserted.not_waits
    | dropped hserves hgone hanswers => exact absurd hwaits (hserves.isOver hm hgone hanswers).1
  working := by
    intro hworks
    have hdeserted : m.Deserted c := by
      -- at work already, the future has left its channel, in whichever of these states it is
      cases h with
      | waits hwaits hawaits hanswers =>
        exact absurd hworks (hwaits.not_works hawaits hanswers hm)
      | works _ hdeserted => exact hdeserted
      | ended _ hdeserted => exact hdeserted
      | dropped hserves hgone hanswers => exact absurd hworks (hserves.isOver hm hgone hanswers).2
    refine ⟨hdeserted.not_waits, fun m' hn => ?_⟩
    have hm' := hm.reaches (.single hn)
    -- the work goes on unless this very transition ends it, and then its grant has ended as well
    by_cases hquits : Quits name work g m m'
    · have hended := hquits.ended hm
      exact .inr ⟨hquits, (hdeserted.next hm hn).isOver hm' hended, hended⟩
    · have hworks' := (hworks.next hn).resolve_right hquits
      exact .inl ⟨hquits, hworks', hworks'.not_ended hm'⟩
  output := by
    rintro w last _ reply rfl x hx rfl hback
    exact hm.answers_output hx hback
  stays := by
    intro hover m' hn
    have hm' := hm.reaches (.single hn)
    -- a future that is over has ended its grant, or was dropped while something on the way to it
    -- may go on
    rcases h.ended_or_dropped hover with ⟨hended, hdeserted⟩ | ⟨answers, hserves, hgone, hanswers⟩
    · exact (hdeserted.next hm hn).isOver hm' (hm.mem_occurrences (.single hn) hended)
    · exact (hserves.next_of_gone hm hgone hn).isOver hm' (hn.gone hserves.linked.made hgone)
        hanswers
  returned := by
    intro hover hstarted
    rcases h.ended_or_dropped hover with ⟨hended, -⟩ | ⟨answers, hserves, hgone, hanswers⟩
    · exact hended
    · exact hserves.ended_of_started (hm.not_stores hgone) hanswers hstarted
  handedBack := hm.endsFirst.handedBack g
  free := by
    intro hover hgoing hquiet
    rcases h.ended_or_dropped hover with ⟨hended, -⟩ | ⟨answers, hserves, hgone, hanswers⟩
    · exact fun hheld => (mem_stillHeld.1 hheld).2 hended
    · exact hserves.not_held (hm.not_stores hgone) hm hanswers hgoing hquiet

/-! ## The first poll -/

/-- Channels are made and never taken away. -/
theorem Reaches.length_le (hr : Reaches m m') :
    m.world.channels.length ≤ m'.world.channels.length := by
  induction hr with
  | refl => exact Nat.le_refl _
  | tail _ hn ih => exact Nat.le_trans ih hn.traffic.length_le

/-- What was dropped stays dropped. -/
theorem Reaches.gone (hr : Reaches m m') (hc : c < m.world.channels.length)
    (hgone : m.world.channel c = .gone) : m'.world.channel c = .gone := by
  induction hr with
  | refl => exact hgone
  | tail hr hn ih => exact hn.gone (Nat.lt_of_lt_of_le hc (Reaches.length_le hr)) ih

/-- The first poll of a future submits its request. -/
theorem perform_of_unstarted (hstored : w.futures.get? name = some (.run work .unstarted)) :
    ofMove (w.perform context (.poll name)) below =
      requested { w with futures := w.futures.remove name } work.lock work.mode
        (.awaiting name work w.channels.length) below := by
  simp only [World.perform, World.poll, hstored]
  rfl

/-- If the entry point was not dropped, a look leaves the future waiting or at work. -/
theorem Looks.waits_or_works (h : Looks name work c g below m m')
    (hnot : g ∉ (m.world.journal g.lock).handedBack) :
    m'.Waits name work c ∨ m'.Works name work g := by
  cases h with
  | pending _ hwaits => exact .inl hwaits
  | receives _ => exact .inr (.polled List.mem_cons_self)
  | abandoned hback _ _ => exact absurd hback hnot

/-- What the first poll of a future comes to whose request is accepted. -/
structure Embarks (x : Machine) (name : String) (work : Work) (c : ChannelId) (g : Grant)
    (below : List Frame) : Prop where
  /-- It looks into its channel right after the submission. -/
  looked : ∃ y, y.step = x ∧ Looks name work c g below y x
  /-- The channel is that of its own request. -/
  linked : x.Linked c g
  begun : x.Waits name work c ∨ x.Works name work g
  brackets : ∀ z, Reaches x z → z.Brackets name work c g

/-- What it comes to if the request is turned away: the poll gives the failure, and drops the work
    without having begun it. -/
structure Forgoes (x : Machine) (w : World) (name : String) (work : Work) (limit : Nat)
    (below : List Frame) : Prop where
  frames : x.frames = below
  answer : x.control = .returned (.failed (.queueFull limit))
  futures : x.world.futures = w.futures.remove name
  history : x.world.history =
    .workDropped name :: .discarded none none ::
      .notice (.rejected work.lock work.mode limit) w.entered :: w.history
  /-- The receiver of the channel was dropped, so nobody ever begins the work. -/
  closed : ∀ z, Reaches x z → ∀ other work', ¬z.Waits other work' w.channels.length

section FirstPoll

variable (hbegins : m.Begins w context (.poll name) below) (hm : m.Reachable)
  (hstored : w.futures.get? name = some (.run work .unstarted))
include hbegins hm hstored

theorem Begins.requests_run :
    m.Requests { w with futures := w.futures.remove name } work.lock work.mode
      (.awaiting name work w.channels.length) below where
  next := perform_of_unstarted hstored ▸ hbegins.next
  lt := ((Executes.run hbegins hstored).lock_lt hm).1
  channels := hbegins.same.2.1
  locks := hbegins.lock_eq
  journal := hbegins.same.2.2
  carried := hbegins.carriedBy

/-- If the request is accepted, the first look into the channel comes right after the submission,
    and the future waits or works then. -/
theorem Begins.embarks
    (haccepted : ∀ limit, ((w.lock work.lock).submit work.mode (.sender w.channels.length)).2 ≠
      .rejected (.sender w.channels.length) limit) :
    ∃ x, (ofMove (w.perform context (.poll name)) below).Steps x ∧
      x.Embarks name work w.channels.length (w.nextGrant work.lock work.mode) below := by
  have hrequests := hbegins.requests_run hm hstored
  have hfirst := hm.reaches (.single hrequests.next)
  rw [perform_of_unstarted hstored]
  obtain ⟨v, hsteps, hfutures, hchannel, hawaits⟩ := hrequests.answers hm name haccepted
  have hy := hfirst.reaches hsteps.reaches
  have hfree : v.futures.get? name = none := by
    -- it was taken out for the time of the poll
    have hspared := World.spares_request (c := 0) { w with futures := w.futures.remove name }
      work.lock work.mode [.awaiting name work w.channels.length]
    rw [hfutures]
    refine (congrArg (Table.get? · name) hspared.futures).trans ?_
    exact Table.get?_remove_self _ _
  have hnone : w.channels.length ∉ receiversIn v.futures + FairLock.receiversOf below := by
    have honce : (receiversIn v.futures +
        FairLock.receiversOf (.awaiting name work w.channels.length :: below)).Nodup :=
      hy.traffic_ok.receiveOnce
    have hsum : FairLock.receiversOf (.awaiting name work w.channels.length :: below) =
        w.channels.length ::ₘ FairLock.receiversOf below := by
      simp [FairLock.receiversOf, Frame.receivers]
    rw [hsum, Multiset.add_cons] at honce
    exact (Multiset.nodup_cons.1 honce).1
  have hgone : v.channel w.channels.length ≠ .gone := by
    rcases hchannel with h | h <;>
    · intro heq
      cases h.symm.trans heq
  obtain ⟨hlooks, hprogress⟩ := hawaits.looks hy (by simp) rfl (fun _ => rfl) hfree hnone hgone
    (.step _)
  have hlooked : Steps ⟨v, .awaiting name work w.channels.length :: below, .returned .ok⟩
      (ofMove (v.awaitGrant name work w.channels.length) below) := ⟨1, rfl⟩
  refine ⟨_, hsteps.trans hlooked, ⟨_, rfl, hlooks⟩, hawaits.linked.next hy (.step _),
    hlooks.waits_or_works fun hback => ?_, fun z hz => ?brackets⟩
  case brackets =>
    have hx := hy.reaches (.single (.step _))
    exact (hprogress.reaches hx hz).brackets (hx.reaches hz)
  have hs := hawaits.stands
  rcases hchannel with hopen | hsent
  · rw [show World.channel _ _ = .open none from hopen] at hs
    cases hs with
    | waits _ hnot _ => exact hnot hback
  · rw [show World.channel _ _ = .sent _ from hsent] at hs
    cases hs with
    | sent hstarted _ => exact hy.not_started_of_handedBack hback hstarted

/-- If the request is turned away, the poll gives the failure in two steps. -/
theorem Begins.forgoes {limit : Nat}
    (hrejected : ((w.lock work.lock).submit work.mode (.sender w.channels.length)).2 =
      .rejected (.sender w.channels.length) limit) :
    ∃ x, (ofMove (w.perform context (.poll name)) below).Steps x ∧
      x.Forgoes w name work limit below := by
  have hrequests := hbegins.requests_run hm hstored
  have hfirst := hm.reaches (.single hrequests.next)
  rw [perform_of_unstarted hstored]
  obtain ⟨v, hsubmit, hfutures, hmade, hhistory⟩ := World.request_of_rejected
    (w := { w with futures := w.futures.remove name }) hrejected
  unfold requested at hfirst ⊢
  rw [hsubmit] at hfirst ⊢
  -- the poll drops the receiver, and the work
  have hstep : (⟨v, .awaiting name work w.channels.length :: below,
      .returned (.failed (.queueFull limit))⟩ : Machine).Steps
        ⟨(v.setChannel w.channels.length .gone).emit (.workDropped name), below,
          .returned (.failed (.queueFull limit))⟩ := ⟨1, rfl⟩
  refine ⟨_, hstep, rfl, rfl, hfutures, ?history, ?closed⟩
  case history =>
    show Event.workDropped name :: v.history = _
    rw [hhistory]
  case closed =>
    intro z hz other work' hwaits
    have hgone := hz.gone (c := w.channels.length)
      (by simpa [World.setChannel, World.emit] using hmade) (World.channel_setChannel_self hmade)
    exact (hfirst.reaches (hstep.reaches.trans hz)).not_gone hwaits
      (Multiset.mem_singleton_self _) hgone

end FirstPoll

/-! ## Before the first poll -/

/-- What is true of a future that is stored and has not been polled. -/
structure Unasked (m : Machine) (name : String) (work : Work) : Prop where
  stored : m.world.futures.get? name = some (.run work .unstarted)
  /-- It is left where it is unless it is polled or dropped. -/
  rests : ∀ m', Next m m' → ¬PollOf name m m' →
    m'.world.futures.get? name = some (.run work .unstarted) ∨
      DropsStored name (.run work .unstarted) m m'
  /-- There was no request for it at any time before, and none of its channel. -/
  unasked : ∀ w context below, m.Begins w context (.poll name) below →
    ∀ y, y.Reachable → Reaches y m →
      w.nextGrant work.lock work.mode ∉ (y.world.journal work.lock).accepted ∧
        ∀ g, ¬y.Carries g (.sender w.channels.length)
  /-- Its first poll asks for access. -/
  rejected : ∀ w context below, m.Begins w context (.poll name) below → ∀ limit,
    ((w.lock work.lock).submit work.mode (.sender w.channels.length)).2 =
        .rejected (.sender w.channels.length) limit →
      ∃ x, (ofMove (w.perform context (.poll name)) below).Steps x ∧
        x.Forgoes w name work limit below
  accepted : ∀ w context below, m.Begins w context (.poll name) below →
    (∀ limit, ((w.lock work.lock).submit work.mode (.sender w.channels.length)).2 ≠
        .rejected (.sender w.channels.length) limit) →
      ∃ x, (ofMove (w.perform context (.poll name)) below).Steps x ∧
        x.Embarks name work w.channels.length (w.nextGrant work.lock work.mode) below

theorem unasked_of_stored (hm : m.Reachable)
    (hstored : m.world.futures.get? name = some (.run work .unstarted)) : m.Unasked name work where
  stored := hstored
  rests := fun m' hn hno => (hn.houses hstored hno).imp_right fun hdrops => ⟨hstored, hno, hdrops⟩
  unasked := by
    intro w context below hbegins y hy hr
    have hrequests := hbegins.requests_run hm (hbegins.same.1 ▸ hstored)
    refine ⟨fun haccepted => ?_, fun g hcarries => ?_⟩
    · exact hrequests.nextGrant_not_accepted hm (hy.mem_occurrences hr haccepted)
    · -- the channel is made by the poll
      have hlt : w.channels.length < y.world.channels.length := (hy.carries hcarries).2 _ rfl
      have hle := hr.length_le
      rw [← hbegins.same.2.1] at hle
      omega
  rejected := fun _ _ _ hbegins _ => hbegins.forgoes hm (hbegins.same.1 ▸ hstored)
  accepted := fun _ _ _ hbegins => hbegins.embarks hm (hbegins.same.1 ▸ hstored)

end Machine

/-- Work is done while its own grant is held.  Making a future with work asks for nothing, and there
    is no request until its first poll.  If that is turned away, the poll gives the failure and the
    work is never begun.  Otherwise the work begins when a poll finds the capability of its own
    request, and the grant ends when the work is done, when a panic leaves it, or when the future is
    dropped, and at no other time; it does not stay held if the future was dropped before.  A future
    that has done its work gives the output. -/
theorem run_holds_grant_around_work {m : Machine} {w : World} {context : Context} {handle : Nat}
    {lock : LockId} {mode : Mode} {name : String} {body : Body} {output : Json}
    {below : List Frame} (hm : m.Reachable)
    (hbegins : m.Begins w context (.run handle mode name body output) below)
    (hlock : w.lockOf? handle = some lock) :
    ((Machine.ofMove (w.perform context (.run handle mode name body output)) below).Unasked name
        ⟨lock, mode, body, output⟩ ∧
      ∀ id, ((w.perform context (.run handle mode name body output)).world.journal id).accepted =
        (w.journal id).accepted) ∧
    ∀ z, Machine.Reaches
        (Machine.ofMove (w.perform context (.run handle mode name body output)) below) z →
      z.world.futures.get? name = some (.run ⟨lock, mode, body, output⟩ .unstarted) →
        z.Unasked name ⟨lock, mode, body, output⟩ := by
  have hmade := hm.reaches (.single hbegins.next)
  -- making the future stores the work and does nothing else
  have hworld : (w.perform context (.run handle mode name body output)).world =
      (w.storeFuture name (.run ⟨lock, mode, body, output⟩ .unstarted)).world := by
    simp only [World.perform, World.withLock, hlock]
    rfl
  have hstored : (w.perform context (.run handle mode name body output)).world.futures.get? name =
      some (.run ⟨lock, mode, body, output⟩ .unstarted) := by
    rw [hworld, World.futures_storeFuture, Table.get?_put_self]
  -- whatever is stored unstarted has asked for nothing, however it got there
  refine ⟨⟨Machine.unasked_of_stored hmade hstored, fun id => ?_⟩, fun z hz hz' => ?_⟩
  · rw [hworld]
    exact w.accepted_storeFuture name _ id
  · exact Machine.unasked_of_stored (hmade.reaches hz) hz'

/-- Work that is left alone once. -/
def pausingWork : Work := ⟨0, .read, .actions [.pause], .bool true⟩

/-- The work waits for a writer that is kept, is begun after the writer's release, and goes on after
    a pause. -/
def waitingWork : Action :=
  .guard (.actions
    [.submit 0 .write "writer" (.actions [.park "writer"]) .done true,
     .run 0 .read "job" (.actions [.pause]) (.bool true),
     .poll "job",
     .release (.named "writer"),
     .poll "job",
     .poll "job"])

/-- The machine that performs this on one lock, after some steps. -/
def waitingWorkAfter (config : Config) (n : Nat) : Machine :=
  Machine.step^[n] (Machine.begin (World.initial [config] []) waitingWork)

theorem step_waitingWorkAfter (config : Config) (n : Nat) :
    (waitingWorkAfter config n).step = waitingWorkAfter config (n + 1) :=
  (Function.iterate_succ_apply' ..).symm

theorem run_holds_grant_around_work_waitingWork :
    (∃ w below x, (waitingWorkAfter {} 10).Begins w {} (.poll "job") below ∧
      (Machine.ofMove (w.perform {} (.poll "job")) below).Steps x ∧
      x.Embarks "job" pausingWork 0 ⟨0, 2, .read⟩ below) ∧
    ∃ w below x, (waitingWorkAfter { maxPending := some 0 } 10).Begins w {} (.poll "job") below ∧
      (Machine.ofMove (w.perform {} (.poll "job")) below).Steps x ∧
      x.Forgoes w "job" pausingWork 0 below := by
  -- the future is made by the ninth step, and polled by the eleventh
  have hlater : ∀ config, Machine.Reaches (waitingWorkAfter config 8).step
      (waitingWorkAfter config 10) := by
    intro config
    rw [step_waitingWorkAfter, ← step_waitingWorkAfter config 9]
    exact .single (.step _)
  constructor
  · have hbegins : (waitingWorkAfter {} 8).Begins
        ((waitingWorkAfter {} 8).world.logReply {} (some "submit") .ok) {}
        (.run 0 .read "job" (.actions [.pause]) (.bool true))
        [.actions {} (some "run")
          [.poll "job", .release (.named "writer"), .poll "job", .poll "job"], .guarding] := .action
    have hlast : (waitingWorkAfter {} 10).Begins
        ((waitingWorkAfter {} 10).world.logReply {} (some "run") .nothing) {} (.poll "job")
        [.actions {} (some "poll") [.release (.named "writer"), .poll "job", .poll "job"],
          .guarding] := .action
    have hz := hlater {}
    rw [hbegins.step_eq nofun] at hz
    have hunasked : (waitingWorkAfter {} 10).Unasked "job" pausingWork :=
      (run_holds_grant_around_work (Machine.reachable_iterate _ _ _ 8) hbegins rfl).2 _ hz rfl
    generalize hw : (waitingWorkAfter {} 10).world.logReply {} (some "run") .nothing = w at hlast
    have hqueued : ((w.lock 0).submit .read (.sender w.channels.length)).2 = .queued 2 1 := by
      rw [← hw]
      rfl
    have hchannel : w.channels.length = 0 := by
      rw [← hw]
      rfl
    have hgrant : w.nextGrant pausingWork.lock pausingWork.mode = ⟨0, 2, .read⟩ := by
      rw [← hw]
      rfl
    obtain ⟨x, hsteps, hembarks⟩ := hunasked.accepted _ _ _ hlast
      fun limit h => absurd (hqueued.symm.trans h) nofun
    rw [hchannel, hgrant] at hembarks
    exact ⟨w, _, x, hlast, hsteps, hembarks⟩
  · have hbegins : (waitingWorkAfter { maxPending := some 0 } 8).Begins
        ((waitingWorkAfter { maxPending := some 0 } 8).world.logReply {} (some "submit") .ok) {}
        (.run 0 .read "job" (.actions [.pause]) (.bool true))
        [.actions {} (some "run")
          [.poll "job", .release (.named "writer"), .poll "job", .poll "job"], .guarding] := .action
    have hlast : (waitingWorkAfter { maxPending := some 0 } 10).Begins
        ((waitingWorkAfter { maxPending := some 0 } 10).world.logReply {} (some "run") .nothing) {}
        (.poll "job")
        [.actions {} (some "poll") [.release (.named "writer"), .poll "job", .poll "job"],
          .guarding] := .action
    have hz := hlater { maxPending := some 0 }
    rw [hbegins.step_eq nofun] at hz
    have hunasked : (waitingWorkAfter { maxPending := some 0 } 10).Unasked "job" pausingWork :=
      (run_holds_grant_around_work (Machine.reachable_iterate _ _ _ 8) hbegins rfl).2 _ hz rfl
    generalize hw : (waitingWorkAfter { maxPending := some 0 } 10).world.logReply {} (some "run")
      .nothing = w at hlast
    obtain ⟨x, hsteps, hforgoes⟩ := hunasked.rejected _ _ _ hlast 0 (by rw [← hw]; rfl)
    exact ⟨w, _, x, hlast, hsteps, hforgoes⟩

/-- The work is begun by the second poll and done by the third, and the grant has ended then. -/
example : (waitingWorkAfter {} 19).Works "job" pausingWork ⟨0, 2, .read⟩ ∧
    (waitingWorkAfter {} 24).control = .returned (.done (.bool true)) ∧
    ((waitingWorkAfter {} 24).world.journal 0).ended = [⟨0, 1, .write⟩, ⟨0, 2, .read⟩] :=
  ⟨.polled List.mem_cons_self, by rfl, by rfl⟩

end FairLock
