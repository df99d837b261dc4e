import FairLock.Proofs.Machine.Unpolled
import FairLock.Proofs.Outcomes
import FairLock.Proofs.Trust

/-!
# Futures with work

A future with work that has asked for access waits, and every poll looks into its channel: it goes
on waiting, or it tells that the entry point was dropped uncalled, or it receives its capability and
begins to work.  From then on it holds its grant, however often the work is left alone and taken up
again, until the work is done, a panic leaves it, or the future is dropped; each of these ends the
grant, and nothing else does.

## Main definitions

- `Machine.Waits`, `Machine.Works`: where a future stands.
- `Machine.Looks`, `Machine.Attends`: what becomes of a future that waits.
- `Machine.Quits`: a future gives up its grant.
- `Machine.Progress`: the invariant of a future that has asked for access.

## Main statements

- `Machine.Works.held`: a future that works holds its grant.
- `Machine.Waits.attends`, `Machine.Works.next`: what a transition does to a future.
- `Machine.Progress.next`: the invariant is kept.
-/

namespace FairLock

namespace World

variable {w : World} {name : String} {work : Work} {c : ChannelId} {g : Grant}

/-! ## What a look into the channel comes to -/

/-- A future that finds nothing registers, and is stored again. -/
theorem awaitGrant_of_open {waker : Option String} (hc : w.channel c = .open waker)
    (hfree : w.futures.get? name = none) :
    w.awaitGrant name work c =
      Move.answering
        { world :=
            { w.setChannel c (.open (some name)) with
              futures := w.futures.put name (.run work (.waiting c)) } } .pending := by
  have hfree' : (w.setChannel c (.open (some name))).futures.get? name = none := hfree
  simp only [awaitGrant, receive, hc, suspend, storeFuture, hfree']
  rfl

/-- A future that is left alone is stored. -/
theorem get?_suspend (w : World) (name : String) (f : Future) :
    (w.suspend name f).world.futures.get? name = some f := by
  show (w.storeFuture name f).world.futures.get? name = _
  rw [futures_storeFuture, Table.get?_put_self]

/-- A future that finds its capability begins to work. -/
theorem awaitGrant_of_sent (hc : w.channel c = .sent g) :
    w.awaitGrant name work c =
      { world := (w.setChannel c .taken).emit (.workStarted name)
        frames := [.working name work g none (w.actionsOf work.body)] } := by
  simp only [awaitGrant, receive, hc]
  cases work.body <;> rfl

/-- A future that finds the sender gone gives up its work. -/
theorem awaitGrant_of_abandoned (hc : w.channel c = .abandoned) :
    w.awaitGrant name work c =
      ((w.setChannel c .taken).emit (.workDropped name)).reply (.failed .abandoned) := by
  simp only [awaitGrant, receive, hc]

end World

namespace Machine

variable {m m' : Machine} {w : World} {context : Context} {name : String} {work : Work}
  {c : ChannelId} {g : Grant} {below : List Frame} {answers : List Reply}

/-! ## Where a future stands -/

/-- The future waits for its grant. -/
def Waits (m : Machine) (name : String) (work : Work) (c : ChannelId) : Prop :=
  m.world.futures.get? name = some (.run work (.waiting c))

/-- The future has received its grant, and its work is not over. -/
inductive Works (m : Machine) (name : String) (work : Work) (g : Grant) : Prop where
  /-- It is polled: its work is being done. -/
  | polled {last : Option String} {rest : List Action}
      (h : .working name work g last rest ∈ m.frames)
  /-- It is left alone. -/
  | stored {rest : List Action}
      (h : m.world.futures.get? name = some (.run work (.working g rest)))

/-- The future is neither waiting nor working: its work is over, or it will never be begun. -/
def IsOver (m : Machine) (name : String) (work : Work) (c : ChannelId) (g : Grant) : Prop :=
  ¬m.Waits name work c ∧ ¬m.Works name work g

theorem Waits.exists_receiver (h : m.Waits name work c) :
    ∃ f, m.world.futures.get? name = some f ∧ c ∈ f.receivers :=
  ⟨_, h, Multiset.mem_singleton_self c⟩

theorem Works.isUnended (h : m.Works name work g) (hm : m.Reachable) :
    m.world.isUnended g = true := by
  cases h with
  | polled h => exact hm.unended_of_working h
  | stored h => exact hm.unended_of_stored h

theorem Works.knows (h : m.Works name work g) (hm : m.Reachable) : m.world.Knows g := by
  have hok := hm.exists_ledger.1
  cases h with
  | polled h => exact hok.knows_of_held h (Multiset.mem_singleton_self g)
  | stored h =>
    exact (hok.world.futures _ (Table.mem_of_get? h)).1 g (List.mem_singleton_self g)

theorem Works.not_ended (h : m.Works name work g) (hm : m.Reachable) :
    g ∉ (m.world.journal g.lock).ended :=
  (hm.isUnended_iff (h.knows hm)).1 (h.isUnended hm)

/-- A future that works holds its grant. -/
theorem Works.held (h : m.Works name work g) (hm : m.Reachable) :
    g ∈ (m.world.journal g.lock).held :=
  mem_stillHeld.2 ⟨hm.issued_of_started (h.knows hm).2, h.not_ended hm⟩

/-- Nobody has the receiver of a channel any more. -/
structure Deserted (m : Machine) (c : ChannelId) : Prop where
  made : c < m.world.channels.length
  none : c ∉ receiversIn m.world.futures + receiversOf m.frames

theorem Deserted.next (h : m.Deserted c) (hm : m.Reachable) (hn : Next m m') : m'.Deserted c where
  made := Nat.lt_of_lt_of_le h.made hn.traffic.length_le
  none := hn.traffic.no_receiver hm.traffic_ok h.made h.none

theorem Deserted.not_waits (h : m.Deserted c) : ¬m.Waits name work c := fun hwaits =>
  h.none (Multiset.mem_add.2 (.inl (World.mem_receiversIn hwaits (Multiset.mem_singleton_self c))))

/-! ## A look into the channel -/

/-- What a look of a future into its channel comes to, on top of a stack. -/
inductive Looks (name : String) (work : Work) (c : ChannelId) (g : Grant) (below : List Frame) :
    Machine → Machine → Prop where
  /-- The grant is not there yet, and the future is stored. -/
  | pending {m : Machine} {v : World} (hdue : m.world.dueAnswer g = .pending)
      (hwaits : v.futures.get? name = some (.run work (.waiting c))) :
      Looks name work c g below m ⟨v, .answering .pending :: below, .returned .nothing⟩
  /-- The future receives its grant, and what it has to do is next. -/
  | receives {m : Machine} {v : World} (hstarted : g ∈ (m.world.journal g.lock).started) :
      Looks name work c g below m
        ⟨v, .working name work g none (v.actionsOf work.body) :: below, .returned .nothing⟩
  /-- The request was dropped, and the poll tells so.  The future is not stored again. -/
  | abandoned {m : Machine} {v : World} (hhandedBack : g ∈ (m.world.journal g.lock).handedBack)
      (hgone : v.futures.get? name = none)
      (hover : IsOver ⟨v, below, .returned (.failed .abandoned)⟩ name work c g) :
      Looks name work c g below m ⟨v, below, .returned (.failed .abandoned)⟩

/-- How a future that has asked for access stands. -/
inductive Progress (m : Machine) (name : String) (work : Work) (c : ChannelId) (g : Grant) :
    Prop where
  | waits {answers : List Reply} (hwaits : m.Waits name work c)
      (hawaits : m.Awaits name c g answers) (hanswers : ∀ r ∈ answers, r = .pending)
  | works (hworks : m.Works name work g) (hdeserted : m.Deserted c)
  /-- The work is over, or it will never be begun. -/
  | ended (hended : g ∈ (m.world.journal g.lock).ended) (hdeserted : m.Deserted c)
  /-- The future was dropped before it received its grant. -/
  | dropped {answers : List Reply} (hserves : m.Serves name c g answers)
      (hgone : m.world.channel c = .gone) (hanswers : ∀ r ∈ answers, r = .pending)

/-- What has ended is over. -/
theorem Deserted.isOver (h : m.Deserted c) (hm : m.Reachable)
    (hended : g ∈ (m.world.journal g.lock).ended) : m.IsOver name work c g :=
  ⟨h.not_waits, fun hworks => hworks.not_ended hm hended⟩

theorem Reachable.not_stores (hm : m.Reachable) (hgone : m.world.channel c = .gone) :
    ¬m.world.Stores name c := fun hstored =>
  hm.not_gone hstored (Multiset.mem_singleton_self c) hgone

/-- A future that was dropped while it waited is over. -/
theorem Serves.isOver (h : m.Serves name c g answers) (hm : m.Reachable)
    (hgone : m.world.channel c = .gone) (hanswers : ∀ r ∈ answers, r = .pending) :
    m.IsOver name work c g := by
  refine ⟨fun hwaits => hm.not_gone hwaits (Multiset.mem_singleton_self c) hgone, fun hworks => ?_⟩
  have hstarted := (hworks.knows hm).2
  exact hworks.not_ended hm (h.ended_of_started (hm.not_stores hgone) hanswers hstarted)

/-- A look of a future into its channel decides how it goes on. -/
theorem Awaits.looks (h : m.Awaits name c g answers) (hm : m.Reachable)
    (hanswers : ∀ r ∈ answers, r = .pending) {u : World} (hchannels : u.channels = m.world.channels)
    (hjournal : ∀ id, u.journal id = m.world.journal id) (hfree : u.futures.get? name = none)
    (hnone : c ∉ receiversIn u.futures + receiversOf below) (hgone : m.world.channel c ≠ .gone)
    (hn : Next m (ofMove (u.awaitGrant name work c) below)) :
    Looks name work c g below m (ofMove (u.awaitGrant name work c) below) ∧
      (ofMove (u.awaitGrant name work c) below).Progress name work c g := by
  have hchannel : u.channel c = m.world.channel c := by
    rw [World.channel, hchannels]
    rfl
  have hmade : c < u.channels.length := hchannels ▸ h.linked.made
  have hmade' : c < (u.channels.set c .taken).length := by rwa [List.length_set]
  have hlinked := h.linked.next hm hn
  have hx := hm.reaches (.single hn)
  have hs := h.stands
  rw [← hchannel] at hs hgone
  generalize hfound : u.channel c = found at hs hgone
  -- what stands on the channel is what the look finds there
  cases hs with
  | waits hstarted hhandedBack hanswers' =>
    rw [World.awaitGrant_of_open hfound hfree] at hlinked ⊢
    have hstored : (u.futures.put name (.run work (.waiting c))).get? name =
        -- the future goes back and waits, registered now
        some (.run work (.waiting c)) := Table.get?_put_self _ _ _
    refine ⟨.pending (World.dueAnswer_eq_pending_iff.2 ⟨hstarted, hhandedBack⟩) hstored,
      .waits hstored ⟨hlinked, ?_⟩ (List.forall_mem_cons.2 ⟨rfl, hanswers⟩)⟩
    show World.Stands _ g name (.pending :: answers)
      ((u.setChannel c (.open (some name))).channel c)
    rw [World.channel_setChannel_self hmade]
    refine .waits ?_ ?_ (List.forall_mem_cons.2 ⟨rfl, hanswers⟩)
    · show g ∉ (u.journal g.lock).started
      rwa [hjournal]
    · show g ∉ (u.journal g.lock).handedBack
      rwa [hjournal]
  -- the capability comes out, and with it the work begins
  | sent hstarted hanswers' =>
    rw [World.awaitGrant_of_sent hfound]
    refine ⟨.receives hstarted, .works (.polled List.mem_cons_self) ⟨hmade', ?_⟩⟩
    show c ∉ receiversIn u.futures + receiversOf (.working name work g none _ :: below)
    simpa [receiversOf, Frame.receivers] using hnone
  -- the entry point was dropped, so nothing will come any more
  | abandoned hhandedBack hanswers' =>
    rw [World.awaitGrant_of_abandoned hfound] at hx ⊢
    have hended := hm.endsFirst.handedBack g hhandedBack
    rw [← hjournal] at hended
    exact ⟨.abandoned hhandedBack hfree (Deserted.isOver ⟨hmade', hnone⟩ hx hended),
      .ended hended ⟨hmade', hnone⟩⟩
  -- given out before or dropped before: neither can be,
  -- as the future has only heard that it must wait
  | received heq hr =>
    subst heq
    exact absurd (hanswers _ List.mem_cons_self) hr
  | gone _ => exact absurd rfl hgone

/-! ## A future that waits -/

theorem Begins.receiversOf {a : Action} (h : m.Begins w context a below) :
    receiversOf below = FairLock.receiversOf m.frames := by
  cases h <;> simp [FairLock.receiversOf, Frame.receivers]

/-- What a transition does to a future that waits. -/
inductive Attends (name : String) (work : Work) (c : ChannelId) (g : Grant) (m : Machine) :
    Machine → Prop where
  /-- Something else happens. -/
  | rests {m' : Machine} (hno : ¬PollOf name m m') (hwaits : m'.Waits name work c) :
      Attends name work c g m m'
  /-- The future is polled. -/
  | polled {w : World} {context : Context} {below : List Frame}
      (h : m.Begins w context (.poll name) below)
      (hlooks : Looks name work c g below m (ofMove (w.perform context (.poll name)) below)) :
      Attends name work c g m (ofMove (w.perform context (.poll name)) below)
  /-- The future is dropped. -/
  | dropped {m' : Machine} (hdrops : DropsStored name (.run work (.waiting c)) m m')
      (hover : m'.IsOver name work c g) : Attends name work c g m m'

/-- A poll of a future that waits is a look into its channel. -/
theorem perform_of_waits (hwaits : w.futures.get? name = some (.run work (.waiting c))) :
    w.perform context (.poll name) =
      World.awaitGrant { w with futures := w.futures.remove name } name work c := by
  simp [World.perform, World.poll, hwaits, World.pollRun]

section Waits

variable (hwaits : m.Waits name work c) (hawaits : m.Awaits name c g answers)
  (hanswers : ∀ r ∈ answers, r = .pending) (hm : m.Reachable)
include hwaits hawaits hanswers hm

theorem Waits.attends_poll (hbegins : m.Begins w context (.poll name) below) :
    Looks name work c g below m (ofMove (w.perform context (.poll name)) below) ∧
      (ofMove (w.perform context (.poll name)) below).Progress name work c g := by
  have hnext := hbegins.next
  have hwaits' : w.futures.get? name = some (.run work (.waiting c)) := hbegins.same.1 ▸ hwaits
  rw [perform_of_waits hwaits'] at hnext ⊢
  have hfree : (w.futures.remove name).get? name = none := Table.get?_remove_self _ _
  -- the future had the only receiver
  have hnone : c ∉ receiversIn (w.futures.remove name) + receiversOf below := by
    have honce := hm.traffic_ok.receiveOnce
    have hremove : receiversIn (m.world.futures.remove name) +
        (Future.run work (.waiting c)).receivers = receiversIn m.world.futures :=
      Table.receiversIn_remove hm.traffic_ok.names hwaits
    have hmem : c ∈ (Future.run work (.waiting c)).receivers := Multiset.mem_singleton_self c
    have hsame : receiversIn m.traffic.futures + m.traffic.receivers =
        receiversIn (w.futures.remove name) + receiversOf below +
          (Future.run work (.waiting c)).receivers := by
      show receiversIn m.world.futures + FairLock.receiversOf m.frames = _
      rw [← hremove, hbegins.same.1, hbegins.receiversOf]
      exact add_right_comm _ _ _
    rw [hsame] at honce
    exact fun hc => Multiset.disjoint_left.1 (Multiset.nodup_add.1 honce).2.2 hc hmem
  exact hawaits.looks hm hanswers hbegins.same.2.1 hbegins.same.2.2 hfree hnone
    (hm.not_gone hwaits (Multiset.mem_singleton_self c)) hnext

/-- The future does not hold the grant that it waits for: the capability would be in trust twice. -/
theorem Waits.not_works : ¬m.Works name work g := by
  intro hworks
  -- the work would hold a grant that was started, and the channel tells where its capability is
  have hstarted := (hworks.knows hm).2
  have hs := hawaits.stands
  have hgone := hm.not_gone hwaits (Multiset.mem_singleton_self c)
  generalize hfound : m.world.channel c = found at hs hgone
  cases hs with
  | waits hnot _ _ => exact hnot hstarted
  | sent _ _ =>
    have hsent : g ∈ sentIn m.world.channels := World.mem_sentIn_of_channel hfound
    -- a capability is in trust once: in the channel, or with a future or a frame
    have honce : (sentIn m.world.channels + workingsIn m.world.futures +
        workingsOf m.frames).Nodup := hm.trusted.nodup
    rw [add_assoc] at honce
    refine Multiset.disjoint_left.1 (Multiset.nodup_add.1 honce).2.2 hsent (Multiset.mem_add.2 ?_)
    cases hworks with
    | polled h => exact .inr (mem_workingsOf.2 ⟨_, h, Multiset.mem_singleton_self g⟩)
    | stored h => exact .inl (World.mem_workingsIn_of_get? h (List.mem_singleton_self g))
  | abandoned hback _ => exact hm.not_started_of_handedBack hback hstarted
  | received heq hr =>
    subst heq
    exact hr (hanswers _ List.mem_cons_self)
  | gone _ => exact hgone rfl

/-- Besides polls the future is left where it is, or dropped. -/
theorem Waits.attends (hn : Next m m') :
    Attends name work c g m m' ∧ m'.Progress name work c g := by
  -- a poll of this future looks into its channel; anything else leaves the future or drops it
  by_cases hpoll : PollOf name m m'
  · cases hpoll with
    | mk hbegins =>
      obtain ⟨hlooks, hprogress⟩ := hwaits.attends_poll hawaits hanswers hm hbegins
      exact ⟨.polled hbegins hlooks, hprogress⟩
  · have hreceiver := Or.inl (b := m.world.channel c = .gone) hwaits.exists_receiver
    have hstands : m'.world.Stands g name answers (m'.world.channel c) := by
      refine hawaits.linked.stands hm hn (fun future hcall => hpoll ?_) (hm.not_fails hreceiver)
        hawaits.stands
      obtain ⟨w, context, below, f, hbegins, rfl, -, -⟩ := hm.begins_of_calls hreceiver hcall
      exact .mk hbegins
    have hlinked := hawaits.linked.next hm hn
    rcases hn.houses hwaits hpoll with hwaits' | hdrops
    · exact ⟨.rests hpoll hwaits', .waits hwaits' ⟨hlinked, hstands⟩ hanswers⟩
    -- the drop takes the receiver along
    · have hgone : m'.world.channel c = .gone := by
        obtain ⟨u, -, heq⟩ := id hdrops
        rw [heq]
        exact u.channel_dropFuture name (Multiset.mem_singleton_self c)
      have hserves : m'.Serves name c g answers := ⟨⟨hlinked, hstands⟩, .inr hgone⟩
      exact ⟨.dropped ⟨hwaits, hpoll, hdrops⟩
          (hserves.isOver (hm.reaches (.single hn)) hgone hanswers),
        .dropped hserves hgone hanswers⟩

end Waits

/-! ## A future that works -/

/-- A future gives up its grant. -/
inductive Quits (name : String) (work : Work) (g : Grant) : Machine → Machine → Prop where
  /-- The work is done. -/
  | completed {w : World} {last : Option String} {below : List Frame} {reply : Reply} :
      Quits name work g ⟨w, .working name work g last [] :: below, .returned reply⟩
        (step ⟨w, .working name work g last [] :: below, .returned reply⟩)
  /-- A panic leaves the work. -/
  | panicked {w : World} {last : Option String} {rest : List Action} {below : List Frame}
      {fault : Fault} :
      Quits name work g ⟨w, .working name work g last rest :: below, .unwinding fault⟩
        (step ⟨w, .working name work g last rest :: below, .unwinding fault⟩)
  /-- The future is dropped while it is left alone. -/
  | dropped {m m' : Machine} {rest : List Action}
      (h : DropsStored name (.run work (.working g rest)) m m') : Quits name work g m m'

theorem Quits.works (h : Quits name work g m m') : m.Works name work g := by
  cases h with
  | completed => exact .polled List.mem_cons_self
  | panicked => exact .polled List.mem_cons_self
  | dropped h => exact .stored h.stored

/-- That ends the grant. -/
theorem Quits.ended (h : Quits name work g m m') (hm : m.Reachable) :
    g ∈ (m'.world.journal g.lock).ended := by
  have hunended := h.works.isUnended hm
  have hid := (h.works.knows hm).1
  -- in each of the three ways the grant is ended, as it was held before
  cases h with
  | @completed w last below reply =>
    obtain ⟨hlocks, -⟩ := w.locks_logReply { tag := name } last reply
    have hstill : (w.logReply { tag := name } last reply).isUnended g = true := by
      rw [World.isUnended, World.lock, hlocks]
      exact hunended
    show g ∈ (((w.logReply { tag := name } last reply).release g).1.world.journal g.lock).ended
    rw [World.release, if_pos hstill]
    exact World.mem_ended_endUnended (hlocks ▸ hid)
  | @panicked w last rest below fault =>
    show g ∈ (((w.emit (.workDropped name)).endGrant g).world.journal g.lock).ended
    exact World.mem_ended_endGrant hid fun hended => by cases hended.symm.trans hunended
  | dropped h =>
    obtain ⟨u, hapart, heq⟩ := h.drops
    rw [heq]
    show g ∈ (((u.emit (.workDropped name)).endGrant g).world.journal g.lock).ended
    -- what was done before the drop has not touched the grant
    refine World.mem_ended_endGrant (hapart.locks ▸ hid) fun hended => ?_
    have hstill : u.isUnended g = true := (hapart.isUnended g).trans hunended
    cases hended.symm.trans hstill

/-- A future that works goes on to work, unless it gives up its grant. -/
theorem Works.next (h : m.Works name work g) (hn : Next m m') :
    m'.Works name work g ∨ Quits name work g m m' := by
  cases h with
  | @polled last rest hmem =>
    cases hn with
    | call a hcontrol => cases hmem
    | step =>
      obtain ⟨w, frames, control⟩ := m
      cases frames with
      | nil => cases hmem
      | cons f below =>
        rcases List.mem_cons.1 hmem with rfl | hbelow
        · -- it is the turn of the future itself
          cases control with
          | aborted => exact .inl (.polled hmem)
          | unwinding fault => exact .inr .panicked
          | returned reply =>
            cases rest with
            | nil => exact .inr .completed
            | cons a rest =>
              left
              cases a with
              | pause =>
                exact .stored (World.get?_suspend _ name _)
              | _ =>
                exact .polled (List.mem_append_left _ (List.mem_append_right _ List.mem_cons_self))
        · left
          cases control with
          | returned reply => exact .polled (List.mem_append_right _ hbelow)
          | unwinding fault => exact .polled (List.mem_append_right _ hbelow)
          | aborted => exact .polled hmem
  | @stored rest hstored =>
    by_cases hpoll : PollOf name m m'
    · left
      cases hpoll with
      | @mk w context below hbegins =>
        have hstored' : w.futures.get? name = some (.run work (.working g rest)) :=
          hbegins.same.1 ▸ hstored
        have hperform : w.perform context (.poll name) =
            { world := { w with futures := w.futures.remove name }
              frames := [.working name work g none rest] } := by
          simp [World.perform, World.poll, hstored', World.pollRun]
        rw [hperform]
        exact .polled List.mem_cons_self
    · exact (hn.houses hstored hpoll).imp .stored fun hdrops => .dropped ⟨hstored, hpoll, hdrops⟩

/-! ## What becomes of a future -/

/-- A future that was dropped is not polled any more. -/
theorem Serves.next_of_gone (h : m.Serves name c g answers) (hm : m.Reachable)
    (hgone : m.world.channel c = .gone) (hn : Next m m') : m'.Serves name c g answers :=
  h.next hm hn fun _ hp => hm.not_gone hp.stores.1 (Multiset.mem_singleton_self c) hgone

/-- It stands as before or one further. -/
theorem Progress.next (h : m.Progress name work c g) (hm : m.Reachable) (hn : Next m m') :
    m'.Progress name work c g := by
  have hkept : g ∈ (m.world.journal g.lock).ended → g ∈ (m'.world.journal g.lock).ended :=
    hm.mem_occurrences (.single hn)
  -- where it stands says what may come next
  cases h with
  | waits hwaits hawaits hanswers => exact (hwaits.attends hawaits hanswers hm hn).2
  | works hworks hdeserted =>
    rcases hworks.next hn with hworks | hquits
    · exact .works hworks (hdeserted.next hm hn)
    · exact .ended (hquits.ended hm) (hdeserted.next hm hn)
  | ended hended hdeserted => exact .ended (hkept hended) (hdeserted.next hm hn)
  | dropped hserves hgone hanswers =>
    exact .dropped (hserves.next_of_gone hm hgone hn) (hn.gone hserves.linked.made hgone) hanswers

theorem Progress.reaches (h : m.Progress name work c g) (hm : m.Reachable) (hr : Reaches m m') :
    m'.Progress name work c g := by
  induction hr with
  | refl => exact h
  | tail hr hn ih => exact ih.next (hm.reaches hr) hn

end Machine

end FairLock
