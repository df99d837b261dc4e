import FairLock.Proofs.Chain
import FairLock.Proofs.Machine.Stored

/-!
# Polls of a future for access

A poll of a future that waits looks into its channel, and the channel alone decides what the poll
answers.  Only the future that has the receiver of a channel can look into it, and as long as that
is stored nobody else has it; so all that ever looks into the channel is a poll of this future.

## Main definitions

- `Move.Answers`: the answer that a move gives.
- `World.PollGives`: what a poll of a future that waits does and answers.
- `Machine.Polls`: a transition is a poll of a future for access.

## Main statements

- `World.poll_gives`: what a poll does.
- `Machine.Reachable.polls_of_calls`: who looks into a channel.
-/

namespace FairLock

/-! ## Answers -/

/-- The answer that a move gives: at once, or when all that it puts on the stack is done. -/
inductive Move.Answers (m : Move) (r : Reply) : Prop where
  | now {w : World} (h : m = w.reply r)
  | after {m' : Move} (h : m = m'.answering r)

/-- A move gives one answer. -/
theorem Move.Answers.unique {m : Move} {r r' : Reply} (h : m.Answers r) (h' : m.Answers r') :
    r = r' := by
  cases h with
  -- a move answers itself or leaves a frame that does; it cannot do both
  | now h =>
    subst h
    cases h' with
    | now h' => exact Control.returned.inj (congrArg Move.control h')
    | after h' =>
      have hframes := congrArg Move.frames h'
      simp [World.reply, Move.answering] at hframes
  | after h =>
    subst h
    cases h' with
    | now h' =>
      have hframes := congrArg Move.frames h'
      simp [World.reply, Move.answering] at hframes
    | after h' =>
      have hframes := congrArg Move.frames h'
      have hlast := (List.append_inj' hframes rfl).2
      simpa using hlast

namespace World

variable {w v : World} {name : String} {c : ChannelId} {m : Move} {r : Reply}

/-- What a poll does and answers, of a future for access that is stored under a name and has the
    receiver of a channel. -/
inductive PollGives (w : World) (name : String) (c : ChannelId) : Move → Reply → Prop where
  | pending {waker : Option String} (h : w.channel c = .open waker) :
      PollGives w name c ((w.setChannel c (.open (some name))).reply .pending) .pending
  /-- The capability is kept under the name of the future. -/
  | granted {g : Grant} (h : w.channel c = .sent g) :
      PollGives w name c (((w.setChannel c .taken).keep name g).answering (.granted g))
        (.granted g)
  | abandoned (h : w.channel c = .abandoned) :
      PollGives w name c ((w.setChannel c .taken).reply (.failed .abandoned)) (.failed .abandoned)
  /-- The result was received before. -/
  | again (h : w.channel c = .taken ∨ w.channel c = .gone) :
      PollGives w name c (w.reply .polledAfterCompletion) .polledAfterCompletion

theorem poll_gives (h : w.Stores name c) : ∃ r, w.PollGives name c (w.poll name) r := by
  have hstored : w.futures.get? name = some (.acquire (.accepted c)) := h
  simp only [poll, hstored, pollAcquire, receive]
  cases hc : w.channel c with
  | «open» waker => exact ⟨_, .pending hc⟩
  | sent g => exact ⟨_, .granted hc⟩
  | abandoned => exact ⟨_, .abandoned hc⟩
  | taken => exact ⟨_, .again (.inl hc)⟩
  | gone => exact ⟨_, .again (.inr hc)⟩

theorem PollGives.answers (h : w.PollGives name c m r) : m.Answers r := by
  cases h with
  | granted h => exact .after rfl
  | _ => exact .now rfl

/-- A poll leaves the future where it is. -/
theorem PollGives.futures (h : w.PollGives name c m r) : m.world.futures = w.futures := by
  cases h with
  | granted h => exact (aside_keep (c := 0) (w.setChannel c .taken) _ _).futures
  | _ => rfl

theorem Stores.exists_receiver (h : w.Stores name c) :
    ∃ f, w.futures.get? name = some f ∧ c ∈ f.receivers :=
  ⟨_, h, Multiset.mem_singleton_self c⟩

/-- A poll of a future that was refused gives the failure, and gives it once. -/
theorem poll_refused {failure : Failure}
    (h : w.futures.get? name = some (.acquire (.refused (some failure)))) :
    (w.poll name).Answers (.failed failure) ∧
      (w.poll name).world.futures.get? name = some (.acquire (.refused none)) := by
  simp only [poll, h, pollAcquire]
  exact ⟨.now rfl, Table.get?_put_self _ _ _⟩

end World

/-! ## One receiver -/

/-- A receiver is stored under one name. -/
theorem name_eq_of_mem_receivers {t : Table Future} {c : ChannelId} {name other : String}
    {f f' : Future} (h : (receiversIn t).Nodup) (hf : t.get? name = some f) (hc : c ∈ f.receivers)
    (hf' : t.get? other = some f') (hc' : c ∈ f'.receivers) : name = other := by
  induction t with
  | nil => cases hf
  | cons first rest ih =>
    -- the receivers of the first future are disjoint from those of the others
    obtain ⟨n, v⟩ := first
    obtain ⟨-, hrest, hdisjoint⟩ := Multiset.nodup_add.1 h
    rw [Table.get?_cons] at hf hf'
    by_cases hn : name = n
    · rw [if_pos hn] at hf
      cases hf
      by_cases hn' : other = n
      · rw [hn, hn']
      · rw [if_neg hn'] at hf'
        exact absurd (World.mem_receiversIn hf' hc') (Multiset.disjoint_left.1 hdisjoint hc)
    · rw [if_neg hn] at hf
      by_cases hn' : other = n
      · rw [if_pos hn'] at hf'
        cases hf'
        exact absurd (World.mem_receiversIn hf hc) (Multiset.disjoint_left.1 hdisjoint hc')
      · rw [if_neg hn'] at hf'
        exact ih hrest hf hf'

namespace Machine

variable {m m' : Machine} {name future : String} {c : ChannelId} {w : World} {context : Context}
  {a : Action} {below : List Frame} {r : Reply}

section Receivers

variable (hm : m.Reachable)
  (hstored : (∃ f, m.world.futures.get? name = some f ∧ c ∈ f.receivers) ∨
    m.world.channel c = .gone)
include hm hstored

/-- No frame has the receiver of a future that is stored or was dropped. -/
theorem Reachable.not_mem_receiversOf : c ∉ receiversOf m.frames := by
  intro hmem
  rcases hstored with ⟨f, hf, hc⟩ | hgone
  · have hnodup := (Multiset.nodup_add.1 hm.traffic_ok.receiveOnce).2.2
    exact Multiset.disjoint_left.1 hnodup (World.mem_receiversIn hf hc) hmem
  · have hopen := World.channel_of_each hm.traffic_ok.receiving (Multiset.mem_add.2 (.inr hmem))
    rw [show m.world.channel c = .gone from hgone] at hopen
    cases hopen

/-- No other future has it. -/
theorem Reachable.name_eq {f : Future} (hf : m.world.futures.get? future = some f)
    (hc : c ∈ f.receivers) : future = name := by
  rcases hstored with ⟨f', hf', hc'⟩ | hgone
  · have hnodup := (Multiset.nodup_add.1 hm.traffic_ok.receiveOnce).1
    exact name_eq_of_mem_receivers hnodup hf hc hf' hc'
  · exact absurd hgone (hm.not_gone hf hc)

end Receivers

/-! ## Polls -/

/-- The transition is a poll of a future for access that is stored under a name, with the given
    answer. -/
inductive Polls (name : String) (acquisition : Acquisition) : Machine → Machine → Reply → Prop where
  | mk {m : Machine} {w : World} {context : Context} {below : List Frame} {r : Reply}
      (h : m.Begins w context (.poll name) below)
      (hstored : w.futures.get? name = some (.acquire acquisition))
      (hanswer : (w.perform context (.poll name)).Answers r) :
      Polls name acquisition m (ofMove (w.perform context (.poll name)) below) r

theorem Polls.next {acquisition : Acquisition} (h : Polls name acquisition m m' r) :
    Next m m' := by
  cases h with
  | mk h hstored hanswer => exact h.next

/-- Where it is found, and what it does. -/
theorem Polls.gives (h : Polls name (.accepted c) m m' r) :
    ∃ w context below, m.Begins w context (.poll name) below ∧
      w.PollGives name c (w.poll name) r ∧ m' = ofMove (w.poll name) below := by
  cases h with
  | @mk w context below _ h hstored hanswer =>
    obtain ⟨r', hgives⟩ := World.poll_gives (w := w) hstored
    obtain rfl := hgives.answers.unique hanswer
    exact ⟨w, context, below, h, hgives, rfl⟩

/-- Logging an answer concerns neither futures nor channels nor locks. -/
theorem Begins.same (h : m.Begins w context a below) :
    w.futures = m.world.futures ∧ w.channels = m.world.channels ∧
      ∀ id, w.journal id = m.world.journal id := by
  rcases h.logged with rfl | ⟨e, he, rfl⟩
  · exact ⟨rfl, rfl, fun _ => rfl⟩
  · refine ⟨rfl, rfl, fun id => ?_⟩
    simp [World.emit, World.journal, he]

theorem Begins.channel (h : m.Begins w context a below) (c : ChannelId) :
    w.channel c = m.world.channel c := by
  rw [World.channel, h.same.2.1]
  rfl

/-- The future is there before and after. -/
theorem Polls.stores (h : Polls name (.accepted c) m m' r) :
    m.world.Stores name c ∧ m'.world.Stores name c := by
  cases h with
  | @mk w context below _ h hstored hanswer =>
    have hstored' : w.Stores name c := hstored
    obtain ⟨r', hgives⟩ := World.poll_gives hstored'
    constructor
    · rwa [World.Stores, ← h.same.1]
    · show (w.poll name).world.Stores name c
      rwa [World.Stores, hgives.futures]

/-- A look into a channel is a poll of the future that has the receiver, or a frame has it. -/
theorem Calls.begins {call : Call} (h : m.Calls m' call) :
    (∃ w context a below, m.Begins w context a below ∧ w.Asks context a call ∧
      m' = ofMove (w.perform context a) below) ∨
    (∀ c, call = .fail c ∨ (∃ future, call = .poll c future) → c ∈ receiversOf m.frames) := by
  have hframe : ∀ {c : ChannelId} {f : Frame} {rest : List Frame}, f.receivers = {c} →
      c ∈ receiversOf (f :: rest) := by
    intro c f rest hf
    simp [receiversOf, hf]
  cases h with
  | @call w control a call hcontrol hasks =>
    exact .inl ⟨w, {}, a, [], .call a hcontrol, hasks, rfl⟩
  | @step w f below reply call h =>
    cases h with
    | @action context last a rest call hasks =>
      have hbegins : Begins ⟨w, .actions context last (a :: rest) :: below, .returned reply⟩ _ _ a _ :=
        .action
      exact .inl ⟨_, _, a, _, hbegins, hasks, hbegins.step_eq (List.cons_ne_nil _ _)⟩
    | @work name work g last a rest call ha hasks =>
      have hbegins : Begins ⟨w, .working name work g last (a :: rest) :: below, .returned reply⟩ _ _
        a _ := .work ha
      exact .inl ⟨_, _, a, _, hbegins, hasks, hbegins.step_eq (List.cons_ne_nil _ _)⟩
    -- the other calls are made by frames, which have the receiver themselves
    | refused hreply =>
      refine .inr fun c hcall => ?_
      rcases hcall with heq | ⟨future, heq⟩ <;> cases heq
      exact hframe rfl
    | refusedWork hreply =>
      refine .inr fun c hcall => ?_
      rcases hcall with heq | ⟨future, heq⟩ <;> cases heq
      exact hframe rfl
    | awaited hreply =>
      refine .inr fun c hcall => ?_
      rcases hcall with heq | ⟨future, heq⟩ <;> cases heq
      exact hframe rfl
    | worked =>
      refine .inr fun c hcall => ?_
      rcases hcall with heq | ⟨future, heq⟩ <;> cases heq

section Calls

variable (hm : m.Reachable)
include hm

/-- What looks into the channel of a future that is stored is a poll of its name. -/
theorem Reachable.begins_of_calls
    (hstored : (∃ f, m.world.futures.get? name = some f ∧ c ∈ f.receivers) ∨
      m.world.channel c = .gone) (h : m.Calls m' (.poll c future)) :
    ∃ w context below f, m.Begins w context (.poll name) below ∧
      m' = ofMove (w.perform context (.poll name)) below ∧
      m.world.futures.get? name = some f ∧ c ∈ f.receivers := by
  rcases h.begins with ⟨w, context, a, below, hbegins, hasks, rfl⟩ | hframe
  -- an action of this machine polls, so the name under which it polls is the one of this channel
  · cases hasks with
    | @poll _ f _ hf hc =>
      rw [hbegins.same.1] at hf
      obtain rfl := hm.name_eq hstored hf hc
      exact ⟨w, context, below, f, hbegins, rfl, hf, hc⟩
  -- a frame that polls or fails belongs to a future that is not stored
  · exact absurd (hframe c (.inr ⟨future, rfl⟩)) (hm.not_mem_receiversOf hstored)

/-- If it is a future for access, that is polled. -/
theorem Reachable.polls_of_calls
    (hstored : m.world.Stores name c ∨ m.world.channel c = .gone)
    (h : m.Calls m' (.poll c future)) : ∃ r, Polls name (.accepted c) m m' r := by
  obtain ⟨w, context, below, f, hbegins, rfl, hf, hc⟩ :=
    hm.begins_of_calls (hstored.imp_left World.Stores.exists_receiver) h
  have hstored' : w.Stores name c := by
    rw [World.Stores, hbegins.same.1]
    exact hstored.resolve_right (hm.not_gone hf hc)
  obtain ⟨r, hgives⟩ := World.poll_gives hstored'
  exact ⟨r, .mk hbegins hstored' hgives.answers⟩

/-- The request of a future that is stored was not refused. -/
theorem Reachable.not_fails
    (hstored : (∃ f, m.world.futures.get? name = some f ∧ c ∈ f.receivers) ∨
      m.world.channel c = .gone) : ¬m.Calls m' (.fail c) := by
  intro h
  rcases h.begins with ⟨w, context, a, below, hbegins, hasks, -⟩ | hframe
  -- no action fails a request, so a frame would
  · cases hasks
  · exact hm.not_mem_receiversOf hstored (hframe c (.inl rfl))

end Calls

end Machine

end FairLock
