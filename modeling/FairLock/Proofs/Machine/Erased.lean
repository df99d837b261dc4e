import FairLock.Proofs.Journal
import FairLock.Proofs.Machine.Beside

/-!
# Calls erased from a run

Some calls do nothing but raise counters of a lock and record lines of their own.  Two runs are
looked at here: a run, and the same run without some of these calls.  Whatever is done in both, the
second goes on as the first does: the worlds differ in the counters and in the lines of the erased
calls, and in nothing else.

An erased call in a list is passed over: the second machine goes on with the action behind it.  The
answer to the action before it, which the first machine logs when it begins the erased call, is then
still to be logged in the second.

## Main definitions

- `Vestige`: what an erased call leaves behind in the first run.
- `Machine.Erases`, `Machine.Omits`: a run, and the run without some of its calls.
- `Thinned`: the histories of the two runs.
- `Machine.Without`: how their machines differ.

## Main statements

- `Machine.Omits.without`, `Machine.Erases.without`: nothing else differs.
-/

namespace FairLock

/-! ## What an erased call leaves behind -/

/-- What is left behind by a call that is counted on a lock, records lines of its own, is answered
    at once, and does nothing else. -/
structure Vestige where
  lock : LockId
  tally : Tally
  /-- The word for the call in the log. -/
  word : String
  /-- Its lines, the latest first. -/
  lines : List Event
  reply : Reply

/-- How much higher the counters of a lock are because of some calls. -/
def tallies : List Vestige → LockId → Tally
  | [], _ => {}
  | v :: gone, id => if v.lock = id then (tallies gone id).plus v.tally else tallies gone id

/-- The same, so many times. -/
def Tally.times (t : Tally) (n : Nat) : Tally :=
  ⟨t.submitted * n, t.rejected * n, t.redundant * n, t.failures * n⟩

/-- Calls that are all counted alike. -/
theorem tallies_of_alike {gone : List Vestige} {t : Tally} (h : ∀ v ∈ gone, v.tally = t)
    (id : LockId) : tallies gone id = t.times (gone.countP fun v => v.lock = id) := by
  induction gone with
  | nil => rfl
  | cons v gone ih =>
    have hrest := ih fun u hu => h u (List.mem_cons_of_mem _ hu)
    by_cases hv : v.lock = id
    · simp [tallies, hv, hrest, Tally.plus, Tally.times, Nat.mul_succ, h v List.mem_cons_self]
    · simp [tallies, hv, hrest]

namespace World

/-- The world after such a call. -/
def leave (w : World) (v : Vestige) : World :=
  { w with
    locks := w.locks.modify v.lock fun l => l.raised v.tally
    history := v.lines ++ w.history }

/-- Performed in this world, the action leaves nothing else behind. -/
structure LeavesOnly (w : World) (context : Context) (a : Action) (v : Vestige) : Prop where
  word : v.word = a.word
  perform : w.perform context a = { world := w.leave v, control := .returned v.reply }

/-- Performed in this world, the action comes to its answer and leaves nothing else behind. -/
structure ComesBack (w : World) (context : Context) (a : Action) (v : Vestige) : Prop where
  word : v.word = a.word
  comesTo : ∀ below, (Machine.ofMove (w.perform context a) below).ComesTo
    ⟨w.leave v, below, .returned v.reply⟩

/-- An answer that is given at once is come to. -/
theorem LeavesOnly.comesBack {w : World} {context : Context} {a : Action} {v : Vestige}
    (h : w.LeavesOnly context a v) : w.ComesBack context a v := by
  refine ⟨h.word, ?_⟩
  intro below
  rw [h.perform]
  exact .here _

end World

/-! ## The two runs -/

/-- The machine that passes over the action that is next in the topmost list. -/
def Machine.skip (m : Machine) : Machine :=
  match m.frames with
  | .actions context last (_ :: rest) :: below =>
    { m with frames := .actions context last rest :: below }
  | .working future work grant last (_ :: rest) :: below =>
    { m with frames := .working future work grant last rest :: below }
  | _ => m

/-- A run, and the same run without some of its calls, the latest of them first.  An erased call at
    top level is not made; an erased call in a list is passed over. -/
inductive Machine.Erases (may : World → Context → Action → Vestige → Prop) :
    List Vestige → Machine → Machine → Prop where
  | start (m : Machine) : Erases may [] m m
  /-- Both machines go on. -/
  | go {gone : List Vestige} {m m' : Machine} (h : Erases may gone m m') (move : Option Action) :
      Erases may gone (m.go move) (m'.go move)
  /-- The first machine makes a call, and the second one does not. -/
  | erase {gone : List Vestige} {m m' : Machine} {w : World} {context : Context} {a : Action}
      {below : List Frame} {v : Vestige} (h : Erases may gone m m')
      (hbegins : m.Begins w context a below) (hmay : may w context a v) :
      Erases may (v :: gone) (ofMove (w.perform context a) below) m'.skip

/-- A run, and the same run without some of its calls, the latest of them first.  In the first run
    such a call comes back to the stack on which it was made; in the second one it is not made at
    top level, and passed over in a list. -/
inductive Machine.Omits (may : World → Context → Action → Vestige → Prop) :
    List Vestige → Machine → Machine → Prop where
  | start (m : Machine) : Omits may [] m m
  /-- Both machines go on. -/
  | go {gone : List Vestige} {m m' : Machine} (h : Omits may gone m m') (move : Option Action) :
      Omits may gone (m.go move) (m'.go move)
  /-- The first machine makes a call, and the second one does not. -/
  | pass {gone : List Vestige} {m m' x : Machine} {w : World} {context : Context} {a : Action}
      {below : List Frame} {v : Vestige} (h : Omits may gone m m')
      (hbegins : m.Begins w context a below) (hmay : may w context a v)
      (hcall : (ofMove (w.perform context a) below).ComesTo x) (hx : x.frames = below) :
      Omits may (v :: gone) x m'.skip

/-- Two histories, the latest event first.  The second is the first without the lines of some calls
    and without the answers to them; answers with counters of a lock are lower in it by what the
    calls have counted until then. -/
inductive Thinned : List Vestige → List Event → List Event → Prop where
  | start (past : List Event) : Thinned [] past past
  | event {gone : List Vestige} {past past' : List Event} {e e' : Event}
      (he : e.Raised (tallies gone) e') (h : Thinned gone past past') :
      Thinned gone (e :: past) (e' :: past')
  /-- The answer to the erased call is logged behind its lines, if somebody listens. -/
  | erased {gone : List Vestige} {past past' answer : List Event} (v : Vestige)
      (hanswer : answer = [] ∨ ∃ tag, answer = [.acted tag v.word v.reply])
      (h : Thinned gone past past') : Thinned (v :: gone) (answer ++ (v.lines ++ past)) past'

/-- The worlds of the two runs: the counters are higher in the first, it has recorded the lines of
    the erased calls, and nothing else differs. -/
structure World.Without (gone : List Vestige) (w w' : World) : Prop where
  locks : w.locks = w'.locks.mapIdx fun id l => l.raised (tallies gone id)
  history : Thinned gone w.history w'.history
  rest : { w with locks := [], history := [] } = { w' with locks := [], history := [] }

/-- The machines of the two runs. -/
inductive Machine.Without : List Vestige → Machine → Machine → Prop where
  /-- They have the same stack, and what is passed down is the same up to counters. -/
  | same {gone : List Vestige} {w w' : World} {frames : List Frame} {c c' : Control}
      (hw : w.Without gone w') (hc : c.Raised (tallies gone) frames c') :
      Without gone ⟨w, frames, c⟩ ⟨w', frames, c'⟩
  /-- Calls in a list have just been erased.  In the first run the latest of them is answered; in
      the second the answer to the action before them is still to be logged. -/
  | skipping {gone : List Vestige} {w w' : World} {v : Vestige} {p : Pursuit}
      {last : Option String} {rest : List Action} {below : List Frame} {reply : Reply}
      (hw : w.Without gone (w'.logReply p.context last reply)) :
      Without (v :: gone) ⟨w.leave v, p.frame (some v.word) rest :: below, .returned v.reply⟩
        ⟨w', p.frame last rest :: below, .returned reply⟩
  /-- A call at top level has just been erased.  Its answer is returned in the first run; in the
      second it is that of the call before. -/
  | answered {gone : List Vestige} {w w' : World} {v : Vestige} {c : Control}
      (hw : w.Without gone w') (hc : c ≠ .aborted) :
      Without (v :: gone) ⟨w.leave v, [], .returned v.reply⟩ ⟨w', [], c⟩

/-! ## Worlds -/

namespace World.Without

variable {gone : List Vestige} {w w' u : World} {past past' : List Event}

theorem refl (w : World) : w.Without [] w where
  locks := (congrArg World.locks (World.recast_noTally w [])).symm
  history := .start w.history
  rest := rfl

/-- Both worlds are one, told with other pasts and other counters. -/
theorem exists_recast (h : w.Without gone w') :
    ∃ u : World, u.history = [] ∧ w = u.recast (tallies gone) w.history ∧
      w' = u.recast noTally w'.history := by
  refine ⟨{ w' with history := [] }, rfl, ?_, ?_⟩
  -- of the locks the first world is told by the tallies, and all else the two have in common
  · have hlocks := h.locks
    have hrest := h.rest
    cases w
    cases w'
    simp only [World.mk.injEq] at hrest
    simp only [recast, World.mk.injEq, List.nil_append]
    simp only at hlocks
    tauto
  · rw [recast_noTally]
    rfl

theorem of_recast (hu : u.history = []) (h : Thinned gone past past') :
    (u.recast (tallies gone) past).Without gone (u.recast noTally past') where
  locks := by
    rw [recast_noTally]
    rfl
  history := by simpa [recast, hu] using h
  rest := by
    rw [recast_noTally]
    rfl

/-- A call that the second run is without, with its answer if that is logged. -/
theorem leave (h : w.Without gone w') (v : Vestige) {answer : List Event}
    (hanswer : answer = [] ∨ ∃ tag, answer = [.acted tag v.word v.reply]) :
    { w.leave v with history := answer ++ (w.leave v).history }.Without (v :: gone) w' where
  locks := by
    simp only [World.leave, h.locks]
    -- the counters of the one lock are raised once more, and those of the others stay
    refine List.ext_getElem? ?_
    intro n
    simp only [List.getElem?_modify, List.getElem?_mapIdx, tallies]
    by_cases hn : v.lock = n
    · simp [hn, Function.comp_def, Lock.raised_raised]
    · simp [hn]
  history := .erased v hanswer h.history
  rest := h.rest

/-- The answer to an erased call is logged in the first run. -/
theorem leave_logReply (h : w.Without gone w') (v : Vestige) (context : Context) :
    ((w.leave v).logReply context (some v.word) v.reply).Without (v :: gone) w' := by
  simp only [logReply]
  split
  · exact h.leave v (.inl rfl)
  · exact h.leave v (.inr ⟨context.tag, rfl⟩)

/-- The answer to an action is logged in both runs. -/
theorem logReply (h : w.Without gone w') (context : Context) (last : Option String)
    {frames : List Frame} {reply reply' : Reply}
    (hc : Control.Raised (tallies gone) frames (.returned reply) (.returned reply')) :
    (w.logReply context last reply).Without gone (w'.logReply context last reply') := by
  have hemit : ∀ {e e' : Event}, e.Raised (tallies gone) e' →
      (w.emit e).Without gone (w'.emit e') :=
    fun he => ⟨h.locks, .event he h.history, h.rest⟩
  cases last with
  | none => exact h
  | some word =>
    -- an answer is the same in both runs, or it is about counters and differs as they do
    cases hc with
    | same c =>
      simp only [World.logReply]
      split
      · exact h
      · exact hemit (.same _)
    | asked lock s hframes =>
      simp only [World.logReply, Reply.isNothing, Bool.false_or]
      split
      · exact h
      · exact hemit (.asked _ word lock s)

end World.Without

/-! ## Machines -/

/-- A machine that begins an action in a list has this frame on top. -/
theorem Machine.Begins.exists_pursuit {m : Machine} {w : World} {context : Context} {a : Action}
    {below : List Frame} (h : m.Begins w context a below) :
    (m.isIdle = true ∧ m.frames = [] ∧ w = m.world ∧ below = []) ∨
      ∃ (v : World) (p : Pursuit) (last : Option String) (rest : List Action) (under : List Frame)
        (reply : Reply),
        m = ⟨v, p.frame last (a :: rest) :: under, .returned reply⟩ ∧
          w = v.logReply p.context last reply ∧
          below = p.frame (some a.word) rest :: under := by
  -- called from outside the machine is idle; otherwise a list or work goes on with it
  cases h with
  | @call w control a hcontrol =>
    cases control with
    | aborted => exact absurd rfl hcontrol
    | _ => exact .inl ⟨rfl, rfl, rfl, rfl⟩
  | @action w context last a rest below reply =>
    exact .inr ⟨w, .actions context, last, rest, below, reply, rfl, rfl, rfl⟩
  | @work w name work g last a rest below reply ha =>
    exact .inr ⟨w, .working name work g, last, rest, below, reply, rfl, rfl, rfl⟩

theorem Pursuit.skip_frame (p : Pursuit) (w : World) (last : Option String) (a : Action)
    (rest : List Action) (below : List Frame) (c : Control) :
    Machine.skip ⟨w, p.frame last (a :: rest) :: below, c⟩ =
      ⟨w, p.frame last rest :: below, c⟩ := by
  cases p <;> rfl

/-- A frame tells which list it goes through. -/
theorem Pursuit.frame_inj {p q : Pursuit} {last last' : Option String} {rest rest' : List Action}
    (h : p.frame last rest = q.frame last' rest') : p = q ∧ last = last' ∧ rest = rest' := by
  cases p <;> cases q <;> cases h <;> exact ⟨rfl, rfl, rfl⟩

namespace Machine.Without

variable {gone : List Vestige} {m m' : Machine}

/-- Two moves in the same direction. -/
theorem of_move {past past' : List Event} {below : List Frame} {move move' : Move}
    (hpast : Thinned gone past past')
    (h : Move.Raised (tallies gone) past past' below move move') :
    Without gone (ofMove move below) (ofMove move' below) := by
  cases h with
  | intro hu he hc =>
    refine .same (.of_recast hu ?_) hc
    clear hc
    induction he with
    | nil => exact hpast
    | cons hfirst _ ih => exact .event hfirst ih

/-- Both machines go on with a list. -/
theorem goOn {w w' : World} (hw : w.Without gone w') (p : Pursuit) (rest : List Action)
    (below : List Frame) :
    Without gone (ofMove (p.goOn w rest) below) (ofMove (p.goOn w' rest) below) := by
  obtain ⟨u, hu, heq, heq'⟩ := hw.exists_recast
  have hraised : Move.Raised (tallies gone) w.history w'.history below
      (p.goOn (u.recast (tallies gone) w.history) rest)
      (p.goOn (u.recast noTally w'.history) rest) := p.goOn_raised u rest
  rw [← heq, ← heq'] at hraised
  exact of_move hw.history hraised

theorem step (h : m.Without gone m') : m.step.Without gone m'.step := by
  cases h with
  | @same gone w w' frames c c' hw hc =>
    cases frames with
    | nil => exact .same hw hc
    | cons f below =>
      -- both worlds are one underneath, and a frame does the same there however it is told
      obtain ⟨u, hu, heq, heq'⟩ := hw.exists_recast
      have hraised : Move.Raised (tallies gone) w.history w'.history below
          (f.pass (u.recast (tallies gone) w.history) c)
          (f.pass (u.recast noTally w'.history) c') := Frame.pass_raised hu hc
      rw [← heq, ← heq'] at hraised
      rw [step_cons, step_cons]
      exact of_move hw.history hraised
  | skipping hw =>
    -- the list goes on in the first run as it does in the second,
    -- which has not begun the erased call
    rw [step_returned, step_returned, Pursuit.resume_frame, Pursuit.resume_frame]
    exact goOn (hw.leave_logReply _ _) _ _ _
  | answered hw hc => exact .answered hw hc

/-- Both machines are idle, or none of them is. -/
theorem isIdle (h : m.Without gone m') : m.isIdle = m'.isIdle := by
  cases h with
  | @same gone w w' frames c c' hw hc =>
    cases frames with
    -- a frame on the stack means a machine at work, on both sides
    | cons f below => cases c <;> cases c' <;> rfl
    | nil => cases hc with
      | same c => cases c <;> rfl
      | asked lock s h => rfl
  | skipping hw => rfl
  | @answered gone w w' v c hw hc =>
    cases c with
    | aborted => exact absurd rfl hc
    | _ => rfl

/-- The worlds of two idle machines. -/
theorem worlds (h : m.Without gone m') (hframes : m.frames = []) :
    m.world.Without gone m'.world := by
  cases h with
  | same hw hc => exact hw
  | skipping hw => cases hframes
  | @answered gone w w' v c hw hc => exact hw.leave v (.inl rfl)

/-- An action that is called in both runs. -/
theorem call (h : m.Without gone m') (hframes : m.frames = []) (a : Action) :
    (begin m.world a).Without gone (begin m'.world a) := by
  have hw := h.worlds hframes
  obtain ⟨u, hu, heq, heq'⟩ := hw.exists_recast
  have hraised : Move.Raised (tallies gone) m.world.history m'.world.history []
      (((u.recast (tallies gone) m.world.history).perform {} a).before [])
      (((u.recast noTally m'.world.history).perform {} a).before []) := .perform u {} a [] trivial
  rw [← heq, ← heq'] at hraised
  simpa [begin, Move.before] using of_move hw.history hraised

theorem go (h : m.Without gone m') (move : Option Action) :
    (m.go move).Without gone (m'.go move) := by
  cases move with
  | none => exact h.step
  | some a =>
    simp only [Machine.go, ← h.isIdle]
    split
    · rename_i hidle
      -- idle, the machine has nothing on its stack
      have hframes : m.frames = [] := by
        obtain ⟨w, frames, c⟩ := m
        cases frames with
        | nil => rfl
        | cons f below => cases c <;> cases hidle
      exact h.call hframes a
    · exact h

/-- The first machine has made a call that leaves nothing else behind, and the second passes over
    it. -/
theorem pass (h : m.Without gone m') {w : World} {context : Context} {a : Action}
    {below : List Frame} {v : Vestige} (hbegins : m.Begins w context a below)
    (hword : v.word = a.word) :
    Without (v :: gone) ⟨w.leave v, below, .returned v.reply⟩ m'.skip := by
  rcases hbegins.exists_pursuit with ⟨hidle, hframes, rfl, rfl⟩ |
      ⟨x, p, last, rest, under, reply, rfl, rfl, rfl⟩
  · have hw := h.worlds hframes
    obtain ⟨w', frames', c'⟩ := m'
    have hframes' : frames' = [] ∧ c' ≠ .aborted := by
      rw [h.isIdle] at hidle
      cases frames' with
      | nil =>
        refine ⟨rfl, ?_⟩
        rintro rfl
        cases hidle
      | cons f below => cases c' <;> cases hidle
    obtain ⟨rfl, hc'⟩ := hframes'
    exact .answered hw hc'
  · rw [← hword]
    generalize hframe : p.frame last (a :: rest) = f at h
    cases h with
    | @same gone _ w' _ _ c' hw hc =>
      have hreturned : ∃ reply', c' = .returned reply' := by
        cases hc with
        | same c => exact ⟨_, rfl⟩
        | asked lock s hframes => exact ⟨_, rfl⟩
      obtain ⟨reply', rfl⟩ := hreturned
      rw [← hframe, Pursuit.skip_frame]
      exact .skipping (hw.logReply p.context last hc)
    | @skipping gone x' w' v' p' last' rest' under reply' hw =>
      -- the call before was erased as well, and its answer is logged now
      obtain ⟨rfl, rfl, rfl⟩ := Pursuit.frame_inj hframe
      rw [Pursuit.skip_frame]
      exact .skipping (hw.leave_logReply v' p.context)

end Machine.Without

/-! ## What the two runs agree on -/

/-- An answer is no event about a lock. -/
theorem World.logReply_keeps (w : World) (context : Context) (last : Option String)
    (reply : Reply) :
    (w.logReply context last reply).locks = w.locks ∧
      ∀ id, (w.logReply context last reply).journal id = w.journal id := by
  cases last with
  | none => exact ⟨rfl, fun _ => rfl⟩
  | some word =>
    simp only [logReply]
    split <;> exact ⟨rfl, fun _ => rfl⟩

/-- What neither the lines of the erased calls nor answers tell is told by both histories alike. -/
theorem Thinned.occurrences_eq {gone : List Vestige} {past past' : List Event}
    (h : Thinned gone past past') {pick : Event → Option Grant}
    (hacted : ∀ tag word reply, pick (.acted tag word reply) = none)
    (hlines : ∀ v ∈ gone, ∀ e ∈ v.lines, pick e = none) (id : LockId) :
    occurrences pick (past.filter fun e => e.lock? == some id) =
      occurrences pick (past'.filter fun e => e.lock? == some id) := by
  -- from the oldest event on, as the second history is thinned out
  induction h with
  | start past => rfl
  | @event gone past past' e e' he h ih =>
    cases he with
    | same e =>
      rw [List.filter_cons, List.filter_cons]
      split
      · rw [occurrences_cons, occurrences_cons, ih hlines]
      · exact ih hlines
    | asked tag word lock s => exact ih hlines
  | @erased gone past past' answer v hanswer h ih =>
    have hsilent : ∀ e ∈ answer ++ v.lines, pick e = none := by
      intro e he
      -- neither the lines of an erased call nor its answer say anything of the kind asked for
      rcases List.mem_append.1 he with hanswered | hline
      · rcases hanswer with rfl | ⟨tag, rfl⟩
        · cases hanswered
        · rw [List.mem_singleton.1 hanswered]
          exact hacted ..
      · exact hlines v List.mem_cons_self e hline
    have hnone :
        occurrences pick ((answer ++ v.lines).filter fun e => e.lock? == some id) = [] := by
      rw [List.eq_nil_iff_forall_not_mem]
      intro g hg
      obtain ⟨e, he, hpick⟩ := mem_occurrences.1 hg
      rw [hsilent e (List.mem_filter.1 he).1] at hpick
      cases hpick
    rw [← List.append_assoc, List.filter_append, occurrences_append, hnone, List.append_nil]
    exact ih fun v hv => hlines v (List.mem_cons_of_mem _ hv)

namespace Machine.Without

variable {gone : List Vestige} {m m' : Machine}

/-- The worlds differ as they should once the second machine has logged what is still to be logged
    there. -/
theorem exists_world (h : m.Without gone m') :
    ∃ context last reply, m.world.Without gone (m'.world.logReply context last reply) := by
  cases h with
  | same hw hc => exact ⟨{}, none, .nothing, hw⟩
  | skipping hw => exact ⟨_, _, _, hw.leave _ (.inl rfl)⟩
  | answered hw hc => exact ⟨{}, none, .nothing, hw.leave _ (.inl rfl)⟩

/-- The locks differ in counters only. -/
theorem locks_eq (h : m.Without gone m') :
    m.world.locks = m'.world.locks.mapIdx fun id l => l.raised (tallies gone id) := by
  obtain ⟨context, last, reply, hw⟩ := h.exists_world
  have hlocks := hw.locks
  rwa [(World.logReply_keeps ..).1] at hlocks

theorem lock_eq (h : m.Without gone m') {id : LockId} (hid : id < m.world.locks.length) :
    m.world.lock id = (m'.world.lock id).raised (tallies gone id) := by
  have hid' : id < m'.world.locks.length := by
    have hlength := congrArg List.length h.locks_eq
    rw [List.length_mapIdx] at hlength
    exact hlength ▸ hid
  simp [World.lock, List.getD_eq_getElem?_getD, h.locks_eq, hid']

/-- What neither the lines of the erased calls nor answers tell is told by both journals alike. -/
theorem occurrences_eq (h : m.Without gone m') {pick : Event → Option Grant}
    (hacted : ∀ tag word reply, pick (.acted tag word reply) = none)
    (hlines : ∀ v ∈ gone, ∀ e ∈ v.lines, pick e = none) (id : LockId) :
    occurrences pick (m.world.journal id) = occurrences pick (m'.world.journal id) := by
  obtain ⟨context, last, reply, hw⟩ := h.exists_world
  have hjournal := hw.history.occurrences_eq hacted hlines id
  rw [World.journal, hjournal]
  exact congrArg _ ((World.logReply_keeps m'.world context last reply).2 id)

end Machine.Without

/-- Calls whose answers are given at once are erased as others are omitted. -/
theorem Machine.Erases.omits {may : World → Context → Action → Vestige → Prop}
    {gone : List Vestige} {m m' : Machine} (h : Machine.Erases may gone m m')
    (hmay : ∀ {w context a v}, may w context a v → w.LeavesOnly context a v) :
    Machine.Omits may gone m m' := by
  -- an answer that is given at once leaves nothing to be done in between
  induction h with
  | start m => exact .start m
  | go _ move ih => exact ih.go move
  | @erase _ _ _ w context a below v _ hbegins hv ih =>
    refine ih.pass hbegins hv (.here _) ?_
    rw [(hmay hv).perform]
    rfl

namespace Machine.Omits

variable {may : World → Context → Action → Vestige → Prop} {gone : List Vestige} {m m' : Machine}

/-- Nothing differs but what the omitted calls have left behind. -/
theorem without (h : Omits may gone m m')
    (hmay : ∀ {w context a v}, may w context a v → w.ComesBack context a v) :
    m.Without gone m' := by
  induction h with
  | start m => exact .same (.refl m.world) (.same _)
  | go _ move ih => exact ih.go move
  | @pass _ _ _ x _ _ _ below _ _ hbegins hv hcall hx ih =>
    obtain rfl := hcall.unique ((hmay hv).comesTo below) hx
    exact ih.pass hbegins (hmay hv).word

/-- Whatever is done in both runs then. -/
theorem follow (h : Omits may gone m m') (moves : List (Option Action)) :
    Omits may gone (m.follow moves) (m'.follow moves) := by
  induction moves generalizing m m' with
  | nil => exact h
  | cons move rest ih => exact ih (h.go move)

/-- What is omitted may be omitted. -/
theorem exists_of_mem (h : Omits may gone m m') {v : Vestige} (hv : v ∈ gone) :
    ∃ w context a, may w context a v := by
  -- the last one that was omitted, or one before
  induction h with
  | start m => cases hv
  | go _ move ih => exact ih hv
  | pass _ _ hmay _ _ ih =>
    rcases List.mem_cons.1 hv with rfl | hrest
    · exact ⟨_, _, _, hmay⟩
    · exact ih hrest

end Machine.Omits

namespace Machine.Erases

variable {may : World → Context → Action → Vestige → Prop} {gone : List Vestige} {m m' : Machine}

/-- Nothing differs but what the erased calls have left behind. -/
theorem without (h : Erases may gone m m')
    (hmay : ∀ {w context a v}, may w context a v → w.LeavesOnly context a v) :
    m.Without gone m' :=
  (h.omits hmay).without fun hv => (hmay hv).comesBack

/-- Whatever is done in both runs then. -/
theorem follow (h : Erases may gone m m') (moves : List (Option Action)) :
    Erases may gone (m.follow moves) (m'.follow moves) := by
  induction moves generalizing m m' with
  | nil => exact h
  | cons move rest ih => exact ih (h.go move)

/-- What is erased may be erased. -/
theorem exists_of_mem (h : Erases may gone m m') {v : Vestige} (hv : v ∈ gone) :
    ∃ w context a, may w context a v := by
  -- the last one that was erased, or one before
  induction h with
  | start m => cases hv
  | go _ move ih => exact ih hv
  | erase _ hbegins hmay ih =>
    rcases List.mem_cons.1 hv with rfl | hrest
    · exact ⟨_, _, _, hmay⟩
    · exact ih hrest

end Machine.Erases

end FairLock
