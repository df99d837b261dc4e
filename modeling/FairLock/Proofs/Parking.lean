import FairLock.Proofs.Machine.Moves
import FairLock.Proofs.Machine.Subruns
import FairLock.Proofs.Machine.Turns

/-!
# Entry points that park their capability

The entry points of one lock do nothing but keep their own capability under their tag, where the top
level finds it.  What a submission or a release at top level does is then told by the operation of
the lock alone: every request that it grants is started before the call returns, in the order of the
batch, and its capability is in the store.

## Main definitions

- `Task.parking`: such an entry point.
- `World.Shows`: the lock, the capabilities in the store, and the tags that were started.
- `World.Performs`, `World.PerformsAll`: actions at top level are answered.

## Main statements

- `Machine.comesTo_parked`: what such an entry point does.
- `Machine.comesTo_parkedAll`: what a loop does that starts a batch of them.
- `World.Shows.submit_granted`, `World.Shows.release_unended` and so on: what a call comes down to.
-/

namespace FairLock

/-- A task that keeps its own capability under its tag. -/
def Task.parking (tag : String) : Task := ⟨0, tag, .actions [.park none], .done, false⟩

/-- The action that submits it. -/
def Action.submitParking (mode : Mode) (tag : String) : Action :=
  .submit 0 mode tag (.actions [.park none]) .done false

/-- The request of such a task, by its tag and its grant. -/
def parkingRequest (entry : String × Grant) : Request Entry :=
  ⟨entry.2.id, entry.2.mode, .task (.parking entry.1)⟩

/-- The tag with which an entry point shows that it was started. -/
@[simp] def Event.shownTag? : Event → Option String
  | started _ _ (some (tag, _)) => some tag
  | _ => none

/-- The tags that were shown, in the order of the starts. -/
def shownTags (history : List Event) : List String := (history.filterMap Event.shownTag?).reverse

@[simp] theorem shownTags_cons (e : Event) (history : List Event) :
    shownTags (e :: history) = shownTags history ++ e.shownTag?.toList := by
  unfold shownTags
  cases h : e.shownTag? with
  | none => simp [List.filterMap_cons_none h]
  | some tag => simp [List.filterMap_cons_some h]

theorem shownTags_append {new : List Event} (h : ∀ e ∈ new, e.shownTag? = none)
    (history : List Event) : shownTags (new ++ history) = shownTags history := by
  simp [shownTags, List.filterMap_eq_nil_iff.2 h]

theorem shownTag?_drainEvents {batch : List (Request Entry)} {id : LockId} {pending : Nat}
    {parent : Option Grant} {entered : List Grant} {e : Event}
    (he : e ∈ drainEvents id batch pending parent entered) : e.shownTag? = none := by
  cases batch with
  | nil => cases he
  | cons front rest =>
    rw [drainEvents, List.mem_append, List.mem_reverse, List.mem_map, List.mem_singleton] at he
    rcases he with ⟨r, -, rfl⟩ | rfl <;> rfl

/-- The table with all these values put under their names. -/
def Table.putAll {β : Type} (t : Table β) (entries : List (String × β)) : Table β :=
  entries.foldl (fun t e => t.put e.1 e.2) t

namespace World

/-- An idle world with one lock: the lock, what is in the store, and the tags that were started. -/
structure Shows (w : World) (l : Lock Entry) (store : Table Grant) (tags : List String) : Prop where
  locks : w.locks = [l]
  handles : w.handles = [some 0]
  thread : w.thread = 0
  owned : w.owned = []
  store : w.store = store
  shown : shownTags w.history = tags

/-- An action at top level is answered, and leaves the given world. -/
def Performs (w : World) (a : Action) (reply : Reply) (w' : World) : Prop :=
  (Machine.begin w a).ComesTo ⟨w', [], .returned reply⟩

/-- Actions at top level are answered one after the other. -/
inductive PerformsAll : World → List Action → List Reply → World → Prop where
  | nil (w : World) : PerformsAll w [] [] w
  | cons {w v u : World} {a : Action} {reply : Reply} {rest : List Action} {replies : List Reply}
      (h : w.Performs a reply v) (hrest : v.PerformsAll rest replies u) :
      PerformsAll w (a :: rest) (reply :: replies) u

namespace Shows

variable {w : World} {l l' : Lock Entry} {store : Table Grant} {tags : List String}

theorem lock (h : w.Shows l store tags) : w.lock 0 = l := by
  rw [World.lock, h.locks]
  rfl

theorem lock_lt (h : w.Shows l store tags) : 0 < w.locks.length := by
  rw [h.locks]
  exact Nat.one_pos

theorem lockOf? (h : w.Shows l store tags) : w.lockOf? 0 = some 0 := by
  rw [World.lockOf?, h.handles]
  rfl

/-- The lock has changed, and what was recorded shows no tag. -/
theorem turn (h : w.Shows l store tags) (l' : Lock Entry) (new : List Event)
    (hnew : ∀ e ∈ new, e.shownTag? = none) :
    ({ w with locks := w.locks.set 0 l', history := new ++ w.history } : World).Shows
      l' store tags where
  -- the lock of the world is the only one in its list
  locks := by
    show w.locks.set 0 l' = [l']
    rw [h.locks]
    rfl
  handles := h.handles
  thread := h.thread
  owned := h.owned
  store := h.store
  shown := (shownTags_append hnew _).trans h.shown

end Shows

/-- An entry point that will do so is started: it has its own capability. -/
def parkingStarted (w : World) (tag : String) (g : Grant) : World :=
  { w with
    owned := g :: w.owned
    entered := g :: w.entered
    history := .started g w.thread (some (tag, w.stateOf? 0)) :: w.history }

/-- An entry point has kept its own capability under its tag, and is done. -/
def parked (w : World) (tag : String) (g : Grant) : World :=
  { w with
    owned := []
    store := w.store.put tag g
    entered := w.entered.tail
    history := .ended tag :: w.history }

end World

namespace Machine

variable {w : World} {g : Grant} {tag : String}

/-- An entry point that parks its capability under a name that is free. -/
theorem comesTo_parked (howned : w.owned = [g]) (hfree : w.store.get? tag = none)
    (below : List Frame) (reply : Reply) :
    ComesTo ⟨w, .actions ⟨tag, some g, false⟩ none [.park none] ::
        .finishing g (.parking tag) :: .invocation g :: below, .returned reply⟩
      ⟨w.parked tag g, below, .returned .ok⟩ := by
  -- the capability is in the hands, and the name under which it is parked is free
  have hperform : w.perform ⟨tag, some g, false⟩ (.park none) =
      { world := { w with owned := [], store := w.store.put tag g }
        frames := [.answering .nothing] } := by
    have hlocate : w.locate ⟨tag, some g, false⟩ .own = some (.owned, g) := by
      simp [World.locate, howned]
    simp [World.perform, World.park, World.withCapability, hlocate, World.takeFrom, World.keep,
      howned, hfree, Move.answering, Move.before]
  have hstep : step ⟨w, .actions ⟨tag, some g, false⟩ none [.park none] ::
      .finishing g (.parking tag) :: .invocation g :: below, .returned reply⟩ =
      ⟨{ w with owned := [], store := w.store.put tag g },
        .answering .nothing :: .actions ⟨tag, some g, false⟩ (some "park") [] ::
          .finishing g (.parking tag) :: .invocation g :: below, .returned .nothing⟩ := by
    show ofMove ((w.perform ⟨tag, some g, false⟩ (.park none)).before _) _ = _
    rw [hperform]
    rfl
  -- what is left are returns, of the action, of its list, of the entry point and of the boundary
  refine .step _ [.finishing g (.parking tag), .invocation g] rfl (hstep ▸ ?_)
  refine .step (.answering .nothing) [_, _, _] rfl ?_
  refine .step (.actions _ _ []) [.finishing g (.parking tag), .invocation g] rfl ?_
  refine .step (.finishing g (.parking tag)) [.invocation g] rfl ?_
  refine .step (.concluding none) [.invocation g] rfl ?_
  exact .step (.invocation g) [] rfl (.here _)

end Machine

/-- The capability of an entry point that is started is in the store when its boundary returns. -/
theorem World.Shows.comesTo_parked {w : World} {l : Lock Entry} {store : Table Grant}
    {tags : List String} (h : w.Shows l store tags) {tag : String} (hfree : store.get? tag = none)
    (n : GrantId) (mode : Mode) (below : List Frame) :
    Machine.ComesTo ⟨w.parkingStarted tag ⟨0, n, mode⟩,
        .actions ⟨tag, some ⟨0, n, mode⟩, false⟩ none [.park none] ::
          .finishing ⟨0, n, mode⟩ (.parking tag) :: .invocation ⟨0, n, mode⟩ :: below,
        .returned .nothing⟩
      ⟨(w.parkingStarted tag ⟨0, n, mode⟩).parked tag ⟨0, n, mode⟩, below, .returned .ok⟩ ∧
    ((w.parkingStarted tag ⟨0, n, mode⟩).parked tag ⟨0, n, mode⟩).Shows l
      (store.put tag ⟨0, n, mode⟩) (tags ++ [tag]) := by
  have howned : (w.parkingStarted tag ⟨0, n, mode⟩).owned = [⟨0, n, mode⟩] := by
    rw [World.parkingStarted, h.owned]
  have hfree' : (w.parkingStarted tag ⟨0, n, mode⟩).store.get? tag = none := h.store ▸ hfree
  -- in between nothing is logged, and no lock is looked at
  refine ⟨Machine.comesTo_parked howned hfree' below _, h.locks, h.handles, h.thread, rfl, ?_, ?_⟩
  · show w.store.put tag _ = _
    rw [h.store]
  · simp [World.parked, World.parkingStarted, h.shown]

namespace Machine

variable {w : World} {l : Lock Entry} {store : Table Grant} {tags : List String}

/-- A loop starts the entry points on its run list one after the other, and gives the list up. -/
theorem comesTo_parkedAll (entries : List (String × Grant))
    (h : w.Shows { l with runLists := [⟨0, entries.map parkingRequest⟩] } store tags)
    (hlocks : ∀ e ∈ entries, e.2.lock = 0) (hnodup : (entries.map (·.1)).Nodup)
    (hfree : ∀ e ∈ entries, store.get? e.1 = none) (outcome : Option Reply) (below : List Frame)
    (reply : Reply) :
    ∃ w', ComesTo ⟨w, .dispatching 0 outcome :: below, .returned reply⟩
        ⟨w', below, .returned (outcome.getD reply)⟩ ∧
      w'.Shows { l with runLists := [] } (store.putAll entries) (tags ++ entries.map (·.1)) := by
  -- down the run list: one entry point parks its capability, and the loop goes on with the rest
  induction entries generalizing w store tags outcome reply with
  | nil =>
    have hnext : (w.lock 0).next w.thread = none := by
      rw [h.lock, h.thread]
      rfl
    have hclose : ((w.lock 0).close w.thread).1 = { l with runLists := [] } := by
      rw [h.lock, h.thread]
      rfl
    have hstep : step ⟨w, .dispatching 0 outcome :: below, .returned reply⟩ =
        ⟨w.setLock 0 { l with runLists := [] }, below, .returned (outcome.getD reply)⟩ := by
      show ofMove (w.dispatch 0 (outcome.getD reply)) below = _
      rw [World.dispatch, hnext, hclose]
      rfl
    refine ⟨w.setLock 0 { l with runLists := [] },
      .step (.dispatching 0 outcome) [] rfl (hstep ▸ .here _), ?_⟩
    rw [List.map_nil, List.append_nil]
    exact h.turn { l with runLists := [] } [] (by simp)
  | cons e rest ih =>
    obtain ⟨tag, ⟨lock, n, mode⟩⟩ := e
    obtain rfl : lock = 0 := hlocks _ List.mem_cons_self
    have hnext : (w.lock 0).next w.thread = some (parkingRequest (tag, ⟨0, n, mode⟩),
        { l with runLists := [⟨0, rest.map parkingRequest⟩] }) := by
      rw [h.lock, h.thread]
      rfl
    have hstep : step ⟨w, .dispatching 0 outcome :: below, .returned reply⟩ =
        ⟨(w.setLock 0 { l with runLists := [⟨0, rest.map parkingRequest⟩] }).parkingStarted tag
            ⟨0, n, mode⟩,
          .actions ⟨tag, some ⟨0, n, mode⟩, false⟩ none [.park none] ::
            .finishing ⟨0, n, mode⟩ (.parking tag) :: .invocation ⟨0, n, mode⟩ ::
              .dispatching 0 (some (outcome.getD reply)) :: below, .returned .nothing⟩ := by
      show ofMove (w.dispatch 0 (outcome.getD reply)) below = _
      rw [World.dispatch, hnext]
      rfl
    have hset := h.turn { l with runLists := [⟨0, rest.map parkingRequest⟩] } [] (by simp)
    obtain ⟨hparked, hshows⟩ := hset.comesTo_parked (hfree (tag, ⟨0, n, mode⟩) List.mem_cons_self)
      n mode (.dispatching 0 (some (outcome.getD reply)) :: below)
    rw [List.map_cons, List.nodup_cons] at hnodup
    -- the names differ, so those of the others are still free
    have hfree' : ∀ e ∈ rest, (store.put tag ⟨0, n, mode⟩).get? e.1 = none := by
      intro e he
      have hne : e.1 ≠ tag := fun heq => hnodup.1 (List.mem_map.2 ⟨e, he, heq⟩)
      rw [Table.get?_put_of_ne hne]
      exact hfree e (List.mem_cons_of_mem _ he)
    obtain ⟨w', hcomes, hw'⟩ := ih hshows (fun e he => hlocks e (List.mem_cons_of_mem _ he))
      hnodup.2 hfree' (some (outcome.getD reply)) .ok
    refine ⟨w', .step (.dispatching 0 outcome) [] rfl ?_, ?_⟩
    · rw [hstep]
      exact hparked.trans hcomes [.dispatching 0 (some (outcome.getD reply))] rfl
    · simpa [Table.putAll] using hw'

end Machine

/-! ## Calls at top level -/

namespace World.Shows

variable {w : World} {l l' : Lock Entry} {store : Table Grant} {tags : List String}
  {mode : Mode} {tag name : String} {g : Grant}

section Submission

variable (h : w.Shows l store tags)
include h

theorem begin_submitParking (mode : Mode) (tag : String) :
    Machine.begin w (.submitParking mode tag) =
      Machine.ofMove (w.submit 0 mode (.task (.parking tag))) [] := by
  simp only [Machine.begin, Action.submitParking, World.perform, World.withLock, h.lockOf?]
  rfl

/-- A request that is granted on the spot is started, and its capability is in the store. -/
theorem submit_granted {r : Request Entry} (hruns : l.runLists = [])
    (hfree : store.get? tag = none)
    (hsubmit : l.submit mode (.task (.parking tag)) = (l', .granted r)) :
    ∃ w', w.Performs (.submitParking mode tag) .ok w' ∧
      w'.Shows l' (store.put tag ⟨0, r.id, r.mode⟩) (tags ++ [tag]) := by
  have hsubmit' : (w.lock 0).submit mode (.task (.parking tag)) = (l', .granted r) := by
    rw [h.lock, hsubmit]
  obtain ⟨-, -, hr, hl⟩ := Lock.submit_granted hsubmit
  have hruns' : l'.runLists = [] := by
    rw [hl]
    exact hruns
  have hidle : (w.lock 0).isDispatching w.thread = false := by
    simp [Lock.isDispatching, h.lock, hruns]
  have hopen : l'.dispatchOn w.thread = { l' with runLists := [⟨0, []⟩] } := by
    simp [Lock.dispatchOn, Lock.isDispatching, Lock.openRunList, hruns', h.thread]
  -- the submission puts a loop on the stack, and the entry point above it
  obtain ⟨v, hstart, hv⟩ : ∃ v, Machine.begin w (.submitParking mode tag) =
      ⟨World.parkingStarted v tag ⟨0, r.id, r.mode⟩,
        [.actions ⟨tag, some ⟨0, r.id, r.mode⟩, false⟩ none [.park none],
          .finishing ⟨0, r.id, r.mode⟩ (.parking tag), .invocation ⟨0, r.id, r.mode⟩,
          .dispatching 0 none], .returned .nothing⟩ ∧
      v.Shows { l' with runLists := [⟨0, []⟩] } store tags := by
    refine ⟨_, ?_, h.turn _ [.issued (r.grant 0) (currentSpan w.entered),
      .notice (.grantedImmediately (r.grant 0) l'.state) w.entered] (by simp)⟩
    rw [h.begin_submitParking, submit_of_granted h.lock_lt hsubmit', hidle, hopen, hr]
    rfl
  obtain ⟨hparked, hshows⟩ := hv.comesTo_parked hfree r.id r.mode [.dispatching 0 none]
  obtain ⟨w', hcomes, hw'⟩ := Machine.comesTo_parkedAll [] hshows (by simp) (by simp)
    (by simp) none [] .ok
  refine ⟨w', ?_, ?_⟩
  · rw [Performs, hstart]
    exact hparked.trans hcomes [.dispatching 0 none] rfl
  · have hclosed : ({ l' with runLists := [] } : Lock Entry) = l' := by
      rw [← hruns']
    simpa [hclosed, Table.putAll] using hw'

theorem submit_queued {n pending : Nat}
    (hsubmit : l.submit mode (.task (.parking tag)) = (l', .queued n pending)) :
    ∃ w', w.Performs (.submitParking mode tag) .ok w' ∧ w'.Shows l' store tags := by
  have hsubmit' : (w.lock 0).submit mode (.task (.parking tag)) = (l', .queued n pending) := by
    rw [h.lock, hsubmit]
  refine ⟨_, ?_, h.turn l' [.notice (.queued ⟨0, n, mode⟩ l'.state pending) w.entered] (by simp)⟩
  rw [Performs, h.begin_submitParking, submit_of_queued hsubmit']
  exact .here _

theorem submit_rejected {refused : Entry} {limit : Nat}
    (hsubmit : l.submit mode (.task (.parking tag)) = (l', .rejected refused limit)) :
    ∃ w', w.Performs (.submitParking mode tag) (.failed (.queueFull limit)) w' ∧
      w'.Shows l' store tags := by
  have hsubmit' : (w.lock 0).submit mode (.task (.parking tag)) =
      (l', .rejected refused limit) := by
    rw [h.lock, hsubmit]
  -- turned away, the request is on no list and its entry is discarded
  obtain ⟨-, -, rfl, rfl⟩ := Lock.submit_rejected hsubmit
  refine ⟨_, ?_, h.turn _ [.discarded none (some tag),
    .notice (.rejected 0 mode limit) w.entered] (by simp)⟩
  rw [Performs, h.begin_submitParking, submit_of_rejected hsubmit', h.lock]
  exact .here _

end Submission

section Release

variable (h : w.Shows l store tags)
include h

/-- Nobody has the capability yet. -/
theorem release_unknown (hstored : store.get? name = none) :
    w.Performs (.release (.named name)) .noCapability w := by
  have hperform : w.perform {} (.release (.named name)) = w.reply .noCapability := by
    simp [World.perform, World.withCapability, World.locate, h.store, hstored]
  rw [Performs, Machine.begin, hperform]
  exact .here _

theorem perform_release (hstored : store.get? name = some g) :
    w.perform {} (.release (.named name)) = (w.release g).1.answering (.flag (w.release g).2) := by
  simp [World.perform, World.withCapability, World.locate, h.store, hstored]

/-- The grant has ended before. -/
theorem release_ended (hstored : store.get? name = some g) (hlock : g.lock = 0)
    (hended : l.isUnended g.id = false) :
    ∃ w', w.Performs (.release (.named name)) (.flag false) w' ∧
      w'.Shows l.countRedundant store tags := by
  -- the lock no longer remembers the grant, so the release is counted as redundant
  have hended' : w.isUnended g = false := by
    rw [World.isUnended, hlock, h.lock, hended]
  have hrelease : w.release g =
      ({ world := (w.setLock 0 l.countRedundant).notify (.redundant g) }, false) := by
    rw [World.release, hended', hlock, h.lock]
    rfl
  refine ⟨_, ?_, h.turn l.countRedundant [.notice (.redundant g) w.entered] (by simp)⟩
  rw [Performs, Machine.begin, h.perform_release hstored, hrelease]
  exact .step (.answering (.flag false)) [] rfl (.here _)

/-- The grant ends, and whatever is granted because of that is started before the call returns. -/
theorem release_unended {entries : List (String × Grant)} (hruns : l.runLists = [])
    (hstored : store.get? name = some g) (hlock : g.lock = 0) (hunended : l.isUnended g.id = true)
    (hrelease : l.release g.id g.mode = (l', entries.map parkingRequest))
    (hlocks : ∀ e ∈ entries, e.2.lock = 0) (hnodup : (entries.map (·.1)).Nodup)
    (hfree : ∀ e ∈ entries, store.get? e.1 = none) :
    ∃ w', w.Performs (.release (.named name)) (.flag true) w' ∧
      w'.Shows l' (store.putAll entries) (tags ++ entries.map (·.1)) := by
  have hunended' : w.isUnended g = true := by
    rw [World.isUnended, hlock, h.lock, hunended]
  have hrelease' : (w.lock g.lock).release g.id g.mode = (l', entries.map parkingRequest) := by
    rw [hlock, h.lock, hrelease]
  have hid : g.lock < w.locks.length := hlock ▸ h.lock_lt
  have hruns' : l'.runLists = [] := by
    have hl := congrArg (fun p => p.1.runLists) hrelease
    exact hl.symm.trans hruns
  obtain ⟨hworld, hframes, hcontrol⟩ := endUnended_eq hid hrelease'
  -- no loop is running, so the release has to begin one for what it drains
  have hidle : (w.lock g.lock).isDispatching w.thread = false := by
    simp [Lock.isDispatching, hlock, h.lock, hruns]
  rw [hidle, Bool.or_false] at hframes
  have hbegin : Machine.begin w (.release (.named name)) =
      ⟨(w.endUnended g).world, (w.endUnended g).frames ++ [.answering (.flag true)],
        .returned .nothing⟩ := by
    rw [Machine.begin, h.perform_release hstored, World.release, if_pos hunended', ← hcontrol]
    simp [Machine.ofMove, Move.answering, Move.before]
  have hshows : (w.endUnended g).world.Shows (l'.deferBatch w.thread (entries.map parkingRequest))
      store tags := by
    rw [hworld, hlock]
    -- neither the report of the release nor that of its drain shows a tag
    have hquiet : ∀ e ∈ drainEvents 0 (entries.map parkingRequest) l'.pending
        (currentSpan w.entered) w.entered ++ [.notice (.released g l'.state l'.pending) w.entered,
          .notice ((w.lock 0).holdNotice g) (g :: w.entered)], e.shownTag? = none := by
      intro e he
      rcases List.mem_append.1 he with he | he
      · exact shownTag?_drainEvents he
      · simp only [List.mem_cons, List.not_mem_nil, or_false] at he
        rcases he with rfl | rfl <;> rfl
    simpa using h.turn _ _ hquiet
  unfold Performs
  rw [hbegin, hframes]
  cases entries with
  | nil =>
    refine ⟨(w.endUnended g).world, .step (.answering (.flag true)) [] rfl (.here _), ?_⟩
    simpa [Lock.deferBatch, Table.putAll] using hshows
  | cons e rest =>
    -- the drain opens the run list, which the loop then works off and closes
    have hopen : l'.deferBatch w.thread ((e :: rest).map parkingRequest) =
        { l' with runLists := [⟨0, (e :: rest).map parkingRequest⟩] } := by
      simp [Lock.deferBatch, Lock.schedule, Lock.isDispatching, Lock.openRunList, hruns', h.thread]
    rw [hopen] at hshows
    obtain ⟨w', hcomes, hw'⟩ := Machine.comesTo_parkedAll (e :: rest) hshows hlocks hnodup hfree
      (some .nothing) [.answering (.flag true)] .nothing
    have hclosed : ({ l' with runLists := [] } : Lock Entry) = l' := by
      rw [← hruns']
    rw [hlock]
    rw [hclosed] at hw'
    exact ⟨w', hcomes.trans (.step (.answering (.flag true)) [] rfl (.here _)) [_] rfl, hw'⟩

end Release

end World.Shows

end FairLock
