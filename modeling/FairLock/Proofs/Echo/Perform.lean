import FairLock.Proofs.Echo.Operations

/-!
# The actions of two sides

Futures are made, polled and dropped in the run of a side alone as in the joint run, and so is every
action performed.

## Main statements

- `Echoes.poll`, `Echoes.dropFuture`: what is done with a future.
- `Echoes.perform`: what an action does.
-/

namespace FairLock

section Lemmas

variable {s : Sides} {x : Side} {p q : Pairing} {w v u : World}

namespace Echoes

/-! ## Channels -/

theorem dropReceiver (h : Echoes s x p q w v u) {c c' : ChannelId} (hc : p.channel c c') :
    Move.Echoes s x p q u (w.dropReceiver c) (v.dropReceiver c') := by
  have hgone := h.setChannel hc .gone
  obtain ⟨hsame, hside⟩ := (h.own.channel hc).same
  dsimp only [World.dropReceiver]
  rw [hsame]
  cases hcase : w.channel c with
  | sent g => exact hgone.endGrant (hside g hcase)
  | _ => exact .done hgone

/-- A poll finds the same in both runs. -/
theorem receive (h : Echoes s x p q w v u) {c c' : ChannelId} (hc : p.channel c c')
    (future : String) :
    Echoes s x p q (w.receive c future).1 (v.receive c' future).1 u ∧
      (v.receive c' future).2 = (w.receive c future).2 ∧
      ∀ g, (w.receive c future).2 = .grant g → s.lock g.lock = x := by
  obtain ⟨hsame, hside⟩ := (h.own.channel hc).same
  unfold World.receive
  rw [hsame]
  -- what is on the channel decides, and it is the same in both runs
  cases hcase : w.channel c with
  | «open» waker =>
    exact ⟨h.setChannel hc (.open _), rfl, fun g hg => by cases hg⟩
  | sent g =>
    refine ⟨h.setChannel hc .taken, rfl, ?_⟩
    rintro g' hg'
    cases hg'
    exact hside g hcase
  | abandoned =>
    exact ⟨h.setChannel hc .taken, rfl, fun g hg => by cases hg⟩
  | taken => exact ⟨h, rfl, fun g hg => by cases hg⟩
  | gone => exact ⟨h, rfl, fun g hg => by cases hg⟩

/-! ## Futures -/

theorem dropFuture (h : Echoes s x p q w v u) (name : String) {f f' : Future}
    (hf : f.Echoes s x p f') :
    Move.Echoes s x p q u (w.dropFuture name f) (v.dropFuture name f') := by
  cases hf with
  | accepted hc => exact h.dropReceiver hc
  | refused failure => exact .done h
  | run hwork hstage =>
    cases hstage with
    | unstarted => exact .done (h.emit (.workDropped name))
    | waiting hc => exact (h.dropReceiver hc).before (.cons (.droppingWork name) .nil)
    | working hg hrest => exact (h.emit (.workDropped name)).endGrant hg

theorem storeFuture (h : Echoes s x p q w v u) {name : String} (hname : s.name name = x)
    {f f' : Future} (hf : f.Echoes s x p f') :
    Move.Echoes s x p q u (w.storeFuture name f) (v.storeFuture name f') := by
  have hstored := h.put_future hname hf
  have hold := h.own.future name hname
  dsimp only [World.storeFuture]
  revert hold
  generalize w.futures.get? name = found
  generalize v.futures.get? name = found'
  -- a future of that name that is pushed out is dropped in both runs
  rintro (hold | _)
  · exact hstored.dropFuture name hold
  · exact .done hstored

theorem acquire (h : Echoes s x p q w v u) {lock : LockId} (hlock : s.lock lock = x) (mode : Mode)
    {name : String} (hname : s.name name = x) :
    Move.Echoes s x p q u (w.acquire lock mode name) (v.acquire lock mode name) := by
  obtain ⟨p', hp, hc, hmade⟩ := h.newChannel
  have hsubmitted := hmade.submit hlock mode (.sender hc)
  exact (hsubmitted.before (.cons (.acquiring hname hc) .nil)).earlier hp

theorem acquired (h : Echoes s x p q w v u) {name : String} (hname : s.name name = x)
    {c c' : ChannelId} (hc : p.channel c c') (answer : Reply) :
    Move.Echoes s x p q u (w.acquired name c answer) (v.acquired name c' (answer.alone s x)) := by
  refine Move.Echoes.answering ?_ .nothing
  have hstored := h.storeFuture hname (.accepted hc)
  cases answer with
  | failed failure =>
    exact (h.setChannel hc .gone).storeFuture hname (.refused _)
  | _ => exact hstored

theorem pollAcquire (h : Echoes s x p q w v u) {name : String} (hname : s.name name = x)
    {acquisition acquisition' : Acquisition}
    (hf : (Future.acquire acquisition).Echoes s x p (.acquire acquisition')) :
    Move.Echoes s x p q u (w.pollAcquire name acquisition) (v.pollAcquire name acquisition') := by
  -- a refused future has no channel, and tells why it was refused the first time only
  cases hf with
  | refused failure => exact .reply (h.put_future hname (.refused none)) (.failed _)
  | @accepted c c' hc =>
    obtain ⟨hworld, hsame, hside⟩ := h.receive hc name
    dsimp only [World.pollAcquire]
    revert hworld hsame hside
    generalize w.receive c name = found
    generalize v.receive c' name = found'
    obtain ⟨w₁, received⟩ := found
    obtain ⟨v₁, received'⟩ := found'
    rintro hworld rfl hside
    cases received' with
    | notYet => exact .reply hworld .pending
    | grant g => exact (hworld.keep hname (hside g rfl)).answering (.granted g)
    | abandoned => exact .reply hworld (.failed .abandoned)
    | again => exact .reply hworld .polledAfterCompletion

theorem suspend (h : Echoes s x p q w v u) {name : String} (hname : s.name name = x)
    {f f' : Future} (hf : f.Echoes s x p f') :
    Move.Echoes s x p q u (w.suspend name f) (v.suspend name f') :=
  (h.storeFuture hname hf).answering .pending

theorem awaitGrant (h : Echoes s x p q w v u) {name : String} (hname : s.name name = x)
    {work work' : Work} (hwork : work.Echoes s x work') {c c' : ChannelId}
    (hc : p.channel c c') :
    Move.Echoes s x p q u (w.awaitGrant name work c) (v.awaitGrant name work' c') := by
  obtain ⟨hworld, hsame, hside⟩ := h.receive hc name
  dsimp only [World.awaitGrant]
  revert hworld hsame hside
  generalize w.receive c name = found
  generalize v.receive c' name = found'
  obtain ⟨w₁, received⟩ := found
  obtain ⟨v₁, received'⟩ := found'
  rintro hworld rfl hside
  -- the work begins when the grant is there; without one it waits or is over
  cases received' with
  | notYet => exact hworld.suspend hname (.run hwork (.waiting hc))
  | grant g =>
    have hbegun := hworld.emit (.workStarted name)
    obtain ⟨reach, -, hactions⟩ := hwork.body.actionsOf hbegun.own.procedures
    exact .of hbegun (.cons (.working none hname hwork (hside g rfl) hactions) .nil) rfl
  | abandoned => exact .reply (hworld.emit (.workDropped name)) (.failed .abandoned)
  | again => exact .reply (hworld.emit (.workDropped name)) .polledAfterCompletion

theorem submitted (h : Echoes s x p q w v u) {name : String} (hname : s.name name = x)
    {work work' : Work} (hwork : work.Echoes s x work') {c c' : ChannelId}
    (hc : p.channel c c') (answer : Reply) :
    Move.Echoes s x p q u (w.submitted name work c answer)
      (v.submitted name work' c' (answer.alone s x)) := by
  have hawaiting := h.awaitGrant hname hwork hc
  cases answer with
  | failed failure =>
    exact .reply ((h.setChannel hc .gone).emit (.workDropped name)) (.failed failure)
  | _ => exact hawaiting

theorem pollRun (h : Echoes s x p q w v u) {name : String} (hname : s.name name = x)
    {work work' : Work} (hwork : work.Echoes s x work') {stage stage' : Stage}
    (hstage : stage.Echoes s x p stage') :
    Move.Echoes s x p q u (w.pollRun name work stage) (v.pollRun name work' stage') := by
  -- a future that has not begun asks for access on a channel of its own
  cases hstage with
  | unstarted =>
    obtain ⟨p', hp, hc, hmade⟩ := h.newChannel
    dsimp only [World.pollRun]
    rw [hwork.lock, hwork.mode]
    have hsubmitted := hmade.submit hwork.side work.mode (.sender hc)
    exact (hsubmitted.before (.cons (.awaiting hname hwork hc) .nil)).earlier hp
  | waiting hc => exact h.awaitGrant hname hwork hc
  | working hg hrest => exact .of h (.cons (.working none hname hwork hg hrest) .nil) rfl

theorem poll (h : Echoes s x p q w v u) {name : String} (hname : s.name name = x) :
    Move.Echoes s x p q u (w.poll name) (v.poll name) := by
  have hfound := h.own.future name hname
  unfold World.poll
  revert hfound
  generalize w.futures.get? name = found
  generalize v.futures.get? name = found'
  rintro (hf | _)
  -- which kind of future the name stands for is the same in both runs
  · cases hf with
    | accepted hc => exact h.pollAcquire hname (.accepted hc)
    | refused failure => exact h.pollAcquire hname (.refused failure)
    | run hwork hstage => exact (h.remove_future hname).pollRun hname hwork hstage
  · exact .reply h .noFuture

theorem dropStored (h : Echoes s x p q w v u) {name : String} (hname : s.name name = x) :
    Move.Echoes s x p q u (w.dropStored name) (v.dropStored name) := by
  have hfound := h.own.future name hname
  unfold World.dropStored
  revert hfound
  generalize w.futures.get? name = found
  generalize v.futures.get? name = found'
  rintro (hf | _)
  · exact ((h.remove_future hname).dropFuture name hf).answering .ok
  · exact .reply h .absent

/-! ## Capabilities and locks -/

/-- A capability that is meant is found in the same place in both runs. -/
theorem locate (h : Echoes s x p q w v u) {reach : Reach} {context context' : Context}
    (hcontext : context.Echoes s x reach context') {cap : CapRef} (hcap : cap.Within s x reach) :
    v.locate context' cap = w.locate context cap ∧
      ∀ place g, w.locate context cap = some (place, g) →
        s.lock g.lock = x ∧ ∀ name, place = .kept name → s.name name = x := by
  -- the own capability is looked for in the hands,
  -- a named one in the store, and each is of this side
  cases cap with
  | own =>
    obtain ⟨hown, hside⟩ := hcontext.own hcap
    dsimp only [World.locate]
    rw [hown]
    cases hg : context.own with
    | none => exact ⟨rfl, fun place g hfound => by cases hfound⟩
    | some g =>
      have hg' := hside g hg
      rw [Option.filter_some, Option.filter_some, h.contains hg']
      refine ⟨rfl, ?_⟩
      intro place g' hfound
      split at hfound
      · cases hfound
        exact ⟨hg', fun name hname => by cases hname⟩
      · cases hfound
  | named name =>
    dsimp only [World.locate]
    rw [(h.own.store name hcap).same]
    refine ⟨rfl, ?_⟩
    intro place g hfound
    obtain ⟨g', hg', hpair⟩ := Option.map_eq_some_iff.1 hfound
    cases hpair
    refine ⟨(h.own.store name hcap).side g hg', ?_⟩
    rintro name' hname'
    cases hname'
    exact hcap
  | nth n => exact hcap.elim

theorem takeFrom (h : Echoes s x p q w v u) {g : Grant} (hg : s.lock g.lock = x) {place : Place}
    (hplace : ∀ name, place = .kept name → s.name name = x) :
    Echoes s x p q (w.takeFrom g place) (v.takeFrom g place) u := by
  cases place with
  | owned => exact h.own_erase hg
  | kept name => exact h.remove_store (hplace name rfl)

/-- What is done with a capability is the same in both runs if it is so for every capability of the
    side. -/
theorem withCapability (h : Echoes s x p q w v u) {reach : Reach} {context context' : Context}
    (hcontext : context.Echoes s x reach context') {cap : CapRef} (hcap : cap.Within s x reach)
    {use use' : Place → Grant → Move}
    (huse : ∀ place g, s.lock g.lock = x → (∀ name, place = .kept name → s.name name = x) →
      (use place g).Echoes s x p q u (use' place g)) :
    Move.Echoes s x p q u (w.withCapability context cap use)
      (v.withCapability context' cap use') := by
  obtain ⟨hsame, hside⟩ := h.locate hcontext hcap
  unfold World.withCapability
  rw [hsame]
  cases hfound : w.locate context cap with
  | none => exact .reply h .noCapability
  | some found =>
    obtain ⟨place, g⟩ := found
    obtain ⟨hg, hplace⟩ := hside place g hfound
    exact huse place g hg hplace

/-- What is done with a lock is the same in both runs if it is so for every lock of the side. -/
theorem withLock (h : Echoes s x p q w v u) {handle : Nat} (hhandle : s.handle handle = x)
    {use use' : LockId → Move}
    (huse : ∀ lock, s.lock lock = x → w.lockOf? handle = some lock →
      (use lock).Echoes s x p q u (use' lock)) :
    Move.Echoes s x p q u (w.withLock handle use) (v.withLock (s.number x handle) use') := by
  obtain ⟨hsame, hside⟩ := h.lockOf? hhandle
  unfold World.withLock
  rw [hsame]
  cases hlock : w.lockOf? handle with
  | none => exact .reply h .noLock
  | some lock => exact huse lock (hside lock hlock) hlock

theorem park (h : Echoes s x p q w v u) {reach : Reach} {context context' : Context}
    (hcontext : context.Echoes s x reach context') (hown : reach.own = true)
    {name : Option String} (hname : ∀ n, name = some n → s.name n = x)
    (htag : name = none → reach.tag = true) :
    Move.Echoes s x p q u (w.park context name) (v.park context' name) := by
  have hcap : CapRef.own.Within s x reach := hown
  refine h.withCapability hcontext hcap ?_
  intro place g hg hplace
  -- under its tag an entry point parks only where its tag is shown
  have hkept : name.getD context'.tag = name.getD context.tag ∧
      s.name (name.getD context.tag) = x := by
    cases name with
    | none => exact hcontext.tag (htag rfl)
    | some n => exact ⟨rfl, hname n rfl⟩
  rw [hkept.1]
  exact ((h.takeFrom hg hplace).keep hkept.2 hg).answering .nothing

theorem dropHandle (h : Echoes s x p q w v u) {handle : Nat}
    (hhandle : s.handle handle = x) :
    Move.Echoes s x p q u (w.dropHandle handle) (v.dropHandle (s.number x handle)) := by
  unfold World.dropHandle
  rw [(h.lockOf? hhandle).1]
  cases w.lockOf? handle with
  | none => exact .reply h .absent
  | some lock => exact .reply (h.set_handle hhandle) .ok

/-! ## Bodies -/

/-- A body is performed on behalf of whoever performs the action that it belongs to. -/
theorem body (h : Echoes s x p q w v u) {reach : Reach} {context context' : Context}
    (hcontext : context.Echoes s x reach context') {body body' : Body}
    (hbody : body.Echoes s x reach body') (quiet : Bool) :
    ∃ reach', Context.Echoes s x reach' { context with quiet := quiet }
        { context' with quiet := quiet } ∧
      Strips s x reach' (w.actionsOf body) (v.actionsOf body') := by
  obtain ⟨reach', hle, hactions⟩ := hbody.actionsOf h.own.procedures
  exact ⟨reach', (hcontext.weaken hle).quiet quiet, hactions⟩

theorem startThread (h : Echoes s x p q w v u) {reach : Reach} {context context' : Context}
    (hcontext : context.Echoes s x reach context') {body body' : Body}
    (hbody : body.Echoes s x reach body') :
    Move.Echoes s x p q u (w.startThread context body) (v.startThread context' body') := by
  obtain ⟨reach', hcontext', hactions⟩ := h.body hcontext hbody false
  obtain ⟨p', hp, hstarted⟩ := h.newThread [] []
  exact ⟨p', hp, hstarted, .cons (.actions none hcontext' rfl hactions)
    (.cons (.joining _ _ (hp.thread h.running)) .nil), rfl⟩

/-! ## The actions -/

/-- An action does the same in both runs. -/
theorem perform (h : Echoes s x p q w v u) {reach : Reach} {context context' : Context}
    (hcontext : context.Echoes s x reach context') {a a' : Action} (ha : a.Echoes s x reach a')
    (hassigns : s.Assigns (w.perform context a).world) :
    Move.Echoes s x p q u (w.perform context a) (v.perform context' a') := by
  -- action by action: find the lock or the capability, do the same with it, give the same answer
  cases ha with
  | submit mode ending quiet hhandle htag hentry =>
    refine h.withLock hhandle ?_
    intro lock hlock _
    exact h.submit hlock mode (.task ⟨hhandle, rfl, rfl, ⟨_, htag, hentry⟩, rfl, rfl⟩)
  | release hcap =>
    refine h.withCapability hcontext hcap ?_
    intro place g hg _
    obtain ⟨hmove, hended⟩ := h.release hg
    dsimp only
    rw [hended]
    exact hmove.answering (.flag _)
  | drop hcap =>
    refine h.withCapability hcontext hcap ?_
    intro place g hg hplace
    exact ((h.takeFrom hg hplace).endGrant hg).answering .ok
  | forget hcap =>
    refine h.withCapability hcontext hcap ?_
    intro place g hg hplace
    exact .reply ((h.takeFrom hg hplace).leak _ _) .ok
  | park hown hname htag => exact h.park hcontext hown hname htag
  | inspect hcap =>
    refine h.withCapability hcontext hcap ?_
    intro place g hg _
    rw [h.isUnended hg]
    exact .reply h (.capability _ _)
  | look hhandle =>
    refine h.withLock hhandle ?_
    intro lock hlock _
    have hl := h.own.lock lock hlock
    unfold World.look
    rw [hl.config, hl.holds, hl.pending]
    exact .reply h (.lock _ _ _)
  | stats hhandle =>
    refine h.withLock hhandle ?_
    intro lock hlock _
    rw [(h.own.lock lock hlock).stats]
    exact .reply h (.stats _)
  | config hhandle =>
    refine h.withLock hhandle ?_
    intro lock hlock _
    rw [(h.own.lock lock hlock).config]
    exact .reply h (.config _)
  | same ha hb =>
    refine h.withLock ha ?_
    intro lock _ _
    refine h.withLock hb ?_
    intro lock' _ _
    exact .reply h (.flag _)
  -- the clone gets the next number, and that is among the assigned ones
  | clone hhandle =>
    refine h.withLock hhandle ?_
    intro lock hlock hfound
    dsimp only [World.perform, World.withLock] at hassigns
    rw [hfound] at hassigns
    obtain ⟨hcloned, hlength⟩ := h.clone hlock hassigns
    rw [hlength]
    exact .reply hcloned (.index _)
  | dropHandle hhandle => exact h.dropHandle hhandle
  | log message => exact .reply (h.emit (.logged hcontext.shown message)) .nothing
  | @count _ key hkey =>
    dsimp only [World.perform]
    rw [h.own.count key hkey]
    exact .reply (h.put_count hkey _) .nothing
  -- the counters of the side are the same, so the branch is taken in both runs or in none
  | @when _ key _ _ below quiet hkey hbody =>
    obtain ⟨reach', hcontext', hactions⟩ := h.body hcontext hbody quiet
    dsimp only [World.perform]
    rw [h.own.count key hkey]
    split
    · exact .of h (.cons (.actions none hcontext' rfl hactions) .nil) rfl
    · exact .reply h .nothing
  | iterate times quiet hbody =>
    obtain ⟨reach', hcontext', hactions⟩ := h.body hcontext hbody quiet
    exact .of h (.cons (.iterating times hcontext' rfl hactions) .nil) rfl
  | guard hbody =>
    obtain ⟨reach', hcontext', hactions⟩ := h.body hcontext hbody false
    exact .of h (.cons (.actions none hcontext' rfl hactions) (.cons .guarding .nil)) rfl
  | thread hbody => exact h.startThread hcontext hbody
  | panic fault => exact .unwinding h fault
  | acquire mode hhandle hfuture =>
    refine h.withLock hhandle ?_
    intro lock hlock _
    exact h.acquire hlock mode hfuture
  | @run _ _ _ body body' mode output hhandle hfuture hbody =>
    refine h.withLock hhandle ?_
    intro lock hlock _
    have hwork : Work.Echoes s x ⟨lock, mode, body, output⟩ ⟨lock, mode, body', output⟩ :=
      ⟨hlock, rfl, rfl, hbody, rfl⟩
    exact (h.storeFuture hfuture (.run hwork .unstarted)).answering .nothing
  | poll hfuture => exact h.poll hfuture
  | dropFuture hfuture => exact h.dropStored hfuture
  | pause => exact .reply h .unknownAction
  | unknown word => exact .reply h .unknownAction

end Echoes

end Lemmas

end FairLock
