import FairLock.Proofs.Echo.World

/-!
# The operations of two sides

What an operation of a side does in the joint run, it does in the run of that side alone: it leaves
worlds behind that are alike again, puts the same frames on the stack, and passes the same answer
down.  Nothing that belongs to the other side is touched.

## Main definitions

- `Context.Echoes`, `Frame.Echoes`: what stands on the stacks of the two runs.
- `Move.Echoes`: what one step does in the two runs.

## Main statements

- `Echoes.endGrant`, `Echoes.release`, `Echoes.submit`: issuing and ending grants.
- `Echoes.start`, `Echoes.discard`: what becomes of an entry point.
-/

namespace FairLock

/-! ## Stacks -/

section Relations

variable (s : Sides) (x : Side) (p : Pairing)

/-- On whose behalf a list of a side is performed.  Where the list may mean the own capability, it
    is the same one in both runs.  Otherwise the list may be performed at top level in the run of
    the side alone, and by an entry point of the other side in the joint run. -/
structure Context.Echoes (reach : Reach) (context context' : Context) : Prop where
  shown : context'.tag = context.tag ∨ context'.tag = ""
  own : reach.own = true → context'.own = context.own ∧
    ∀ g, context.own = some g → s.lock g.lock = x
  tag : reach.tag = true → context'.tag = context.tag ∧ s.name context.tag = x

/-- A frame of a side. -/
inductive Frame.Echoes : Frame → Frame → Prop where
  | actions {reach : Reach} {context context' : Context} {rest rest' : List Action}
      (last : Option String) (hcontext : context.Echoes s x reach context')
      (hquiet : context'.quiet = context.quiet) (hrest : Strips s x reach rest rest') :
      Frame.Echoes (.actions context last rest) (.actions context' last rest')
  | answering (r : Reply) : Frame.Echoes (.answering r) (.answering (r.alone s x))
  | finishing {g : Grant} {t t' : Task} (hg : s.lock g.lock = x) (ht : t.Echoes s x t') :
      Frame.Echoes (.finishing g t) (.finishing g t')
  | concluding (fault : Option Fault) : Frame.Echoes (.concluding fault) (.concluding fault)
  | invocation {g : Grant} (hg : s.lock g.lock = x) :
      Frame.Echoes (.invocation g) (.invocation g)
  | reporting {g : Grant} (failure : Failure) (hg : s.lock g.lock = x) :
      Frame.Echoes (.reporting g failure) (.reporting g failure)
  | dispatching {lock : LockId} (outcome : Option Reply) (hlock : s.lock lock = x) :
      Frame.Echoes (.dispatching lock outcome)
        (.dispatching lock (outcome.map (Reply.alone s x)))
  | handingBack {lock : LockId} {items items' : List (Request Entry)} (hlock : s.lock lock = x)
      (hitems : Queue.Echoes s x p items items') :
      Frame.Echoes (.handingBack lock items) (.handingBack lock items')
  | discarding {g : Grant} {entry entry' : Entry} (hg : s.lock g.lock = x)
      (hentry : entry.Echoes s x p entry') :
      Frame.Echoes (.discarding g entry) (.discarding g entry')
  | rethrowing (fault : Fault) : Frame.Echoes (.rethrowing fault) (.rethrowing fault)
  | joining {thread thread' : ThreadId} (entered entered' : List Grant)
      (hthread : p.thread thread thread') :
      Frame.Echoes (.joining thread entered) (.joining thread' entered')
  | guarding : Frame.Echoes .guarding .guarding
  | iterating {reach : Reach} {context context' : Context} {body body' : List Action} (times : Nat)
      (hcontext : context.Echoes s x reach context') (hquiet : context'.quiet = context.quiet)
      (hbody : Strips s x reach body body') :
      Frame.Echoes (.iterating context times body) (.iterating context' times body')
  | acquiring {future : String} {c c' : ChannelId} (hfuture : s.name future = x)
      (hc : p.channel c c') : Frame.Echoes (.acquiring future c) (.acquiring future c')
  | awaiting {future : String} {work work' : Work} {c c' : ChannelId} (hfuture : s.name future = x)
      (hwork : work.Echoes s x work') (hc : p.channel c c') :
      Frame.Echoes (.awaiting future work c) (.awaiting future work' c')
  | working {reach : Reach} {future : String} {work work' : Work} {g : Grant}
      {rest rest' : List Action} (last : Option String) (hfuture : s.name future = x)
      (hwork : work.Echoes s x work') (hg : s.lock g.lock = x)
      (hrest : Strips s x reach rest rest') :
      Frame.Echoes (.working future work g last rest) (.working future work' g last rest')
  | droppingWork (future : String) :
      Frame.Echoes (.droppingWork future) (.droppingWork future)

/-- A stack of a side. -/
abbrev Stack.Echoes (frames frames' : List Frame) : Prop :=
  List.Forall₂ (fun f f' : Frame => f.Echoes s x p f') frames frames'

end Relations

section Lemmas

variable {s : Sides} {x : Side} {p p' q : Pairing} {w v u : World}

namespace Context.Echoes

variable {reach : Reach} {context context' : Context}

/-- What may mean less can be performed wherever the rest can. -/
theorem weaken (h : context.Echoes s x reach context') {reach' : Reach} (hle : reach'.Le reach) :
    context.Echoes s x reach' context' :=
  ⟨h.shown, fun e => h.own (hle.own e), fun e => h.tag (hle.tag e)⟩

theorem quiet (h : context.Echoes s x reach context') (quiet : Bool) :
    Context.Echoes s x reach { context with quiet := quiet } { context' with quiet := quiet } :=
  ⟨h.shown, h.own, h.tag⟩

/-- What is performed at top level alone can be performed anywhere. -/
theorem top (context : Context) : context.Echoes s x .top {} where
  shown := .inr rfl
  own h := by cases h
  tag h := by cases h

/-- The work of a future has no own capability in either run. -/
theorem work {future : String} (hfuture : s.name future = x) (reach : Reach) :
    Context.Echoes s x reach { tag := future } { tag := future } where
  shown := .inl rfl
  own _ := ⟨rfl, fun g hg => by cases hg⟩
  tag _ := ⟨rfl, hfuture⟩

end Context.Echoes

theorem Frame.Echoes.mono {f f' : Frame} (h : f.Echoes s x p f') (hp : p.Le p') :
    f.Echoes s x p' f' := by
  -- more numbers are paired later, and only frames with a channel or a thread look at the pairs
  cases h with
  | actions last hcontext hquiet hrest => exact .actions last hcontext hquiet hrest
  | answering r => exact .answering r
  | finishing hg ht => exact .finishing hg ht
  | concluding fault => exact .concluding fault
  | invocation hg => exact .invocation hg
  | reporting failure hg => exact .reporting failure hg
  | dispatching outcome hlock => exact .dispatching outcome hlock
  | handingBack hlock hitems => exact .handingBack hlock (Queue.Echoes.mono hp.channel hitems)
  | discarding hg hentry => exact .discarding hg (hentry.mono hp.channel)
  | rethrowing fault => exact .rethrowing fault
  | joining entered entered' hthread => exact .joining entered entered' (hp.thread hthread)
  | guarding => exact .guarding
  | iterating times hcontext hquiet hbody => exact .iterating times hcontext hquiet hbody
  | acquiring hfuture hc => exact .acquiring hfuture (hp.channel hc)
  | awaiting hfuture hwork hc => exact .awaiting hfuture hwork (hp.channel hc)
  | working last hfuture hwork hg hrest => exact .working last hfuture hwork hg hrest
  | droppingWork future => exact .droppingWork future

theorem Stack.Echoes.mono {frames frames' : List Frame} (h : Stack.Echoes s x p frames frames')
    (hp : p.Le p') : Stack.Echoes s x p' frames frames' :=
  h.imp fun _ _ hf => hf.mono hp

/-! ## Moves -/

/-- What one step of a side does in the joint run and in the run of that side alone.  New channels
    and threads may have been paired. -/
def Move.Echoes (s : Sides) (x : Side) (p q : Pairing) (u : World) (m m' : Move) : Prop :=
  ∃ p', p.Le p' ∧ FairLock.Echoes s x p' q m.world m'.world u ∧
    Stack.Echoes s x p' m.frames m'.frames ∧ m'.control = m.control.alone s x

namespace Move.Echoes

variable {m m' : Move}

/-- A step that pairs nothing. -/
theorem of (h : FairLock.Echoes s x p q m.world m'.world u)
    (hframes : Stack.Echoes s x p m.frames m'.frames)
    (hcontrol : m'.control = m.control.alone s x) :
    m.Echoes s x p q u m' :=
  ⟨p, .refl p, h, hframes, hcontrol⟩

/-- Nothing is put on the stack, and there is nothing to say. -/
theorem done (h : FairLock.Echoes s x p q w v u) :
    Move.Echoes s x p q u { world := w } { world := v } :=
  .of h .nil rfl

theorem unwinding (h : FairLock.Echoes s x p q w v u) (fault : Fault) :
    Move.Echoes s x p q u { world := w, control := .unwinding fault }
      { world := v, control := .unwinding fault } :=
  .of h .nil rfl

/-- An answer without any frames. -/
theorem reply (h : FairLock.Echoes s x p q w v u) (r : Reply) :
    Move.Echoes s x p q u (w.reply r) (v.reply (r.alone s x)) :=
  .of h .nil rfl

/-- More channels and threads had been paired before. -/
theorem earlier (h : m.Echoes s x p' q u m') (hp : p.Le p') : m.Echoes s x p q u m' := by
  obtain ⟨p'', hp', hm⟩ := h
  exact ⟨p'', hp.trans hp', hm⟩

theorem before (h : m.Echoes s x p q u m') {frames frames' : List Frame}
    (hframes : Stack.Echoes s x p frames frames') :
    (m.before frames).Echoes s x p q u (m'.before frames') := by
  obtain ⟨p', hp, hworld, hpushed, hcontrol⟩ := h
  exact ⟨p', hp, hworld, List.rel_append hpushed (Stack.Echoes.mono hframes hp), hcontrol⟩

theorem answering (h : m.Echoes s x p q u m') (r : Reply) :
    (m.answering r).Echoes s x p q u (m'.answering (r.alone s x)) :=
  h.before (.cons (.answering r) .nil)

end Move.Echoes

namespace Echoes

/-! ## Ending grants -/

theorem reportHold (h : Echoes s x p q w v u) {g : Grant} (hg : s.lock g.lock = x) :
    Echoes s x p q (w.reportHold g) (v.reportHold g) u := by
  unfold World.reportHold
  rw [(h.own.lock g.lock hg).config]
  refine h.emit (.notice _ _ ?_)
  split <;> exact hg

theorem issue (h : Echoes s x p q w v u) {lock : LockId} (hlock : s.lock lock = x)
    {batch batch' : List (Request Entry)} (hbatch : Queue.Echoes s x p batch batch') :
    Echoes s x p q (w.issue lock batch) (v.issue lock batch') u := by
  unfold World.issue
  induction hbatch generalizing w v with
  | nil => exact h
  | cons hr _ ih =>
    rw [List.foldl_cons, List.foldl_cons, hr.id, hr.mode]
    exact ih (h.emit (.issued _ _ hlock))

theorem schedule (h : Echoes s x p q w v u) {lock : LockId} (hlock : s.lock lock = x)
    {batch batch' : List (Request Entry)} (hbatch : Queue.Echoes s x p batch batch') :
    Move.Echoes s x p q u (w.schedule lock batch) (v.schedule lock batch') := by
  obtain ⟨hl, hopened⟩ := (h.own.lock lock hlock).schedule h.own.threads h.running hbatch
  simp only [World.schedule, hopened]
  refine .of (h.setLock hlock hl) ?_ rfl
  dsimp only
  split
  · exact .cons (.dispatching (some .nothing) hlock) .nil
  · exact .nil

theorem endUnended (h : Echoes s x p q w v u) {g : Grant} (hg : s.lock g.lock = x) :
    Move.Echoes s x p q u (w.endUnended g) (v.endUnended g) := by
  have hheld := h.reportHold hg
  obtain ⟨hl, hbatch⟩ := (hheld.own.lock g.lock hg).release g.id g.mode
  dsimp only [World.endUnended]
  revert hl hbatch
  generalize ((w.reportHold g).lock g.lock).release g.id g.mode = found
  generalize ((v.reportHold g).lock g.lock).release g.id g.mode = found'
  obtain ⟨l, batch⟩ := found
  obtain ⟨l', batch'⟩ := found'
  intro hl hbatch
  have hreleased : Echoes s x p q
      (((w.reportHold g).setLock g.lock l).notify (.released g l.state l.pending))
      (((v.reportHold g).setLock g.lock l').notify (.released g l.state l.pending)) u :=
    (hheld.setLock hg hl).notify _ hg
  dsimp only at hbatch ⊢
  rw [hl.holds, hl.pending]
  -- nobody is drained, or the drain is reported and scheduled in both runs
  cases hbatch with
  | nil => exact .done hreleased
  | @cons front front' rest rest' hfront hrest =>
    have hdrained : Queue.Echoes s x p (front :: rest) (front' :: rest') := .cons hfront hrest
    dsimp only
    rw [hfront.mode, ← hdrained.length_eq]
    have hdrawn := hreleased.notify
      (.draining g.lock front.mode (front :: rest).length l.pending) hg
    exact (hdrawn.issue hg hdrained).schedule hg hdrained

theorem endGrant (h : Echoes s x p q w v u) {g : Grant} (hg : s.lock g.lock = x) :
    Move.Echoes s x p q u (w.endGrant g) (v.endGrant g) := by
  unfold World.endGrant
  rw [h.isUnended hg]
  split
  · exact h.endUnended hg
  · exact .done h

theorem release (h : Echoes s x p q w v u) {g : Grant} (hg : s.lock g.lock = x) :
    Move.Echoes s x p q u (w.release g).1 (v.release g).1 ∧ (v.release g).2 = (w.release g).2 := by
  unfold World.release
  rw [h.isUnended hg]
  split
  · exact ⟨h.endUnended hg, rfl⟩
  · exact ⟨.done ((h.setLock hg (h.own.lock g.lock hg).countRedundant).notify _ hg), rfl⟩

/-! ## Starting entry points, and dropping them uncalled -/

theorem wake (h : Echoes s x p q w v u) (waker : Option String) :
    Echoes s x p q (w.wake waker) (v.wake waker) u := by
  cases waker with
  | none => exact h
  | some future => exact h.emit (.woken future)

theorem discard (h : Echoes s x p q w v u) {g : Option Grant}
    (hg : ∀ g' ∈ g, s.lock g'.lock = x) {entry entry' : Entry}
    (hentry : entry.Echoes s x p entry') :
    Echoes s x p q (w.discard g entry) (v.discard g entry') u := by
  -- a task leaves its tag behind, and a sender the news for the other end of its channel
  cases hentry with
  | task ht =>
    dsimp only [World.discard]
    rw [ht.tag]
    exact h.emit (.discarded _ hg)
  | @sender c c' hc =>
    have hdropped := h.emit (.discarded none hg)
    dsimp only [World.discard]
    rw [(hdropped.own.channel hc).same.1]
    cases (w.emit (.discarded g none)).channel c with
    | «open» waker =>
      exact (hdropped.setChannel hc .abandoned).wake waker
    | _ => exact hdropped

theorem startTask (h : Echoes s x p q w v u) {g : Grant} (hg : s.lock g.lock = x) {t t' : Task}
    (ht : t.Echoes s x t') : Move.Echoes s x p q u (w.startTask g t) (v.startTask g t') := by
  obtain ⟨tagged, htag, hbody⟩ := ht.body
  obtain ⟨reach, hle, hactions⟩ := hbody.actionsOf h.own.procedures
  -- the entry point speaks for itself, with its own capability and its own tag
  have hcontext : Context.Echoes s x ⟨true, tagged⟩ ⟨t.tag, some g, t.quiet⟩
      ⟨t.tag, some g, t.quiet⟩ := by
    refine ⟨.inl rfl, fun _ => ⟨rfl, ?_⟩, fun e => ⟨rfl, htag e⟩⟩
    rintro g' hg'
    cases hg'
    exact hg
  unfold World.startTask
  rw [ht.tag, ht.quiet, ht.handle, h.stateOf? ht.side]
  exact .of ((h.own_cons hg).emit (.started _ _ _ hg))
    (.cons (.actions none (hcontext.weaken hle) rfl hactions)
      (.cons (.finishing hg ht) (.cons (.invocation hg) .nil))) rfl

theorem startSender (h : Echoes s x p q w v u) {g : Grant} (hg : s.lock g.lock = x)
    {c c' : ChannelId} (hc : p.channel c c') :
    Move.Echoes s x p q u (w.startSender g c) (v.startSender g c') := by
  have hstarted := h.emit (.started w.thread v.thread none hg)
  dsimp only [World.startSender]
  rw [(hstarted.own.channel hc).same.1]
  cases (w.emit (.started g w.thread none)).channel c with
  | «open» waker =>
    exact .of ((hstarted.setChannel hc (.sent hg)).wake waker) (.cons (.invocation hg) .nil) rfl
  | _ => exact (hstarted.endGrant hg).before (.cons (.invocation hg) .nil)

theorem start (h : Echoes s x p q w v u) {lock : LockId} (hlock : s.lock lock = x)
    {r r' : Request Entry} (hr : r.Echoes s x p r') :
    Move.Echoes s x p q u (w.start lock r) (v.start lock r') := by
  obtain ⟨id, mode, payload⟩ := r
  obtain ⟨id', mode', payload'⟩ := r'
  obtain ⟨rfl, rfl, hpayload⟩ := hr
  have hentered := h.enter (⟨lock, id', mode'⟩ :: w.entered) (⟨lock, id', mode'⟩ :: v.entered)
  cases hpayload with
  | task ht => exact hentered.startTask hlock ht
  | sender hc => exact hentered.startSender hlock hc

theorem startGranted (h : Echoes s x p q w v u) {lock : LockId} (hlock : s.lock lock = x)
    {r r' : Request Entry} (hr : r.Echoes s x p r') :
    Move.Echoes s x p q u (w.startGranted lock r) (v.startGranted lock r') := by
  have hl := h.own.lock lock hlock
  unfold World.startGranted
  rw [hl.isDispatching h.own.threads h.running]
  split
  · exact h.start hlock hr
  · exact ((h.setLock hlock (hl.openRunList h.running .nil)).start hlock hr).before
      (.cons (.dispatching none hlock) .nil)

/-! ## Submitting -/

theorem submit (h : Echoes s x p q w v u) {lock : LockId} (hlock : s.lock lock = x) (mode : Mode)
    {entry entry' : Entry} (hentry : entry.Echoes s x p entry') :
    Move.Echoes s x p q u (w.submit lock mode entry) (v.submit lock mode entry') := by
  obtain ⟨hl, hsubmission⟩ := (h.own.lock lock hlock).submit mode hentry
  dsimp only [World.submit]
  revert hl hsubmission
  generalize (w.lock lock).submit mode entry = found
  generalize (v.lock lock).submit mode entry' = found'
  obtain ⟨l, submission⟩ := found
  obtain ⟨l', submission'⟩ := found'
  intro hl hsubmission
  have hset := h.setLock hlock hl
  -- the decision is the same in both runs, and each decision is reported with the same numbers
  dsimp only at hsubmission ⊢
  cases hsubmission with
  | @granted r r' hr =>
    have hgranted := hset.notify (.grantedImmediately ⟨lock, r.id, r.mode⟩ l.state) hlock
    dsimp only
    rw [hl.holds, hr.id, hr.mode]
    exact (hgranted.issue hlock (.cons hr .nil)).startGranted hlock hr
  | queued id pending =>
    have hqueued := hset.notify (.queued ⟨lock, id, mode⟩ l.state pending) hlock
    dsimp only
    rw [hl.holds]
    exact .reply hqueued .ok
  | rejected hdropped limit =>
    have hrejected : Echoes s x p q ((w.setLock lock l).notify (.rejected lock mode limit))
        ((v.setLock lock l').notify (.rejected lock mode limit)) u := hset.notify _ hlock
    exact .reply (hrejected.discard (fun g hg => by cases hg) hdropped) (.failed _)

/-! ## Dropping and keeping capabilities -/

theorem dropOwned (h : Echoes s x p q w v u) {g : Grant} (hg : s.lock g.lock = x) :
    Move.Echoes s x p q u (w.dropOwned g) (v.dropOwned g) := by
  unfold World.dropOwned
  rw [h.contains hg]
  split
  · exact (h.own_erase hg).endGrant hg
  · exact .done h

theorem keep (h : Echoes s x p q w v u) {name : String} (hname : s.name name = x) {g : Grant}
    (hg : s.lock g.lock = x) : Move.Echoes s x p q u (w.keep name g) (v.keep name g) := by
  have hkept := h.put_store hname hg
  unfold World.keep
  rw [(h.own.store name hname).same]
  -- a capability that was stored under the name is dropped, and ends its grant
  cases hold : w.store.get? name with
  | none => exact .done hkept
  | some old => exact hkept.endGrant ((h.own.store name hname).side old hold)

end Echoes

end Lemmas

end FairLock
