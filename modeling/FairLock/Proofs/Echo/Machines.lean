import FairLock.Proofs.Echo.Frames
import FairLock.Proofs.Machine.Erased
import FairLock.Proofs.Machine.Threads

/-!
# The machines of two sides

In the run of a side alone the machine stands where the side stands in the joint run.  While the
outer side is on the move, the machine of the inner one is idle.  While an operation of the inner
side is performed, the stack of the joint run has two parts: the frames of that operation lie above,
and below lies what the outer side has still to do.  The machine of the outer side waits in front of
the next action of the list that the operation stands in.

## Main definitions

- `Solo`: the run of a side alone.
- `Machine.Opens`: a list of the outer side comes to an operation of the inner one.
- `Phase`: who is on the move.
- `Duet`: the machine of the joint run and those of both sides.

## Main statements

- `Solo.idle`: an idle machine is on its first thread, and nobody is on a run list.
- `Duet.step`, `Duet.stepInner`: a step of either side.
- `Duet.enter`, `Duet.leave`: the inner side comes to move and ceases to.
- `Duet.callOuter`, `Duet.callInner`: an operation at top level.
-/

namespace FairLock

/-! ## Runs of a side alone -/

/-- The run of a side alone: the machine, and what was performed at top level so far, the latest
    first. -/
inductive Solo (w : World) : List Action → Machine → Prop where
  | start : Solo w [] (.idle w)
  | call {done : List Action} {m : Machine} (a : Action) (h : Solo w done m)
      (hidle : m.isIdle = true) : Solo w (a :: done) (.begin m.world a)
  | step {done : List Action} {m : Machine} (h : Solo w done m) : Solo w done m.step

namespace Machine

/-- An idle machine has nothing on its stack and can go on. -/
theorem isIdle_iff {m : Machine} : m.isIdle = true ↔ m.frames = [] ∧ m.control ≠ .aborted := by
  obtain ⟨w, frames, control⟩ := m
  cases frames <;> cases control <;> simp [isIdle]

theorem Reachable.first_thread {m : Machine} (h : m.Reachable) :
    ThreadsOn (· = 0) (fun _ => True) m.world.thread m.frames := by
  obtain ⟨configs, procedures, hr⟩ := h
  induction hr with
  | refl =>
    show (World.initial configs procedures).thread = 0
    unfold World.initial
    generalize hw : ({ procedures := procedures } : World) = w
    have hstart : w.thread = 0 := hw ▸ rfl
    clear hw
    induction configs generalizing w with
    | nil => exact hstart
    | cons config rest ih => exact ih (w.create config) hstart
  -- a machine at rest has nothing on its stack that its thread could be read off
  | @tail m m' hbefore hn ih =>
    have hm : m.Reachable := ⟨configs, procedures, hbefore⟩
    cases hframes : m.frames with
    | nil =>
      cases hn with
      | step =>
        have hsame : m.step = m := by
          obtain ⟨w, frames, control⟩ := m
          cases hframes
          rfl
        rw [hsame]
        exact ih
      | @call w control a hcontrol =>
        have hmakes := (World.deals_perform hm.exists_ledger.1.world {} a).makes
        exact hmakes.threadsOn ih fun _ _ _ => trivial
    | cons f above =>
      rw [hframes] at ih
      -- the whole stack lies above the bottom, on which the first thread runs
      have hwhole : m.frames = f :: above ++ [] := by simpa using hframes
      obtain ⟨above', habove, hthreads⟩ := (hm.acts hn).threadsOn hwhole ih fun _ _ _ => trivial
      rw [habove, List.append_nil]
      exact hthreads

end Machine

namespace Solo

variable {w : World} {done : List Action} {m : Machine}

theorem reaches (h : Solo w done m) : Machine.Reaches (.idle w) m := by
  induction h with
  | start => exact .refl
  | @call done m a _ hidle ih =>
    obtain ⟨w, frames, control⟩ := m
    obtain ⟨rfl, hcontrol⟩ := Machine.isIdle_iff.1 hidle
    exact ih.tail (.call a hcontrol)
  | step _ ih => exact ih.tail (.step _)

theorem nil (h : Solo w [] m) : m = .idle w := by
  generalize hdone : ([] : List Action) = done at h
  induction h with
  | start => rfl
  | call a _ _ _ => cases hdone
  | step _ ih =>
    rw [ih hdone]
    rfl

theorem cons {a : Action} (h : Solo w (a :: done) m) :
    ∃ before n, Solo w done before ∧ before.isIdle = true ∧
      Machine.step^[n] (.begin before.world a) = m := by
  generalize hdone : a :: done = all at h
  -- the last call of the run is that of the last action, and after it come only steps
  induction h with
  | start => cases hdone
  | @call _ before _ h hidle _ =>
    cases hdone
    exact ⟨before, 0, h, hidle, rfl⟩
  | step _ ih =>
    obtain ⟨before, n, h, hidle, rfl⟩ := ih hdone
    exact ⟨before, n + 1, h, hidle, Function.iterate_succ_apply' _ _ _⟩

/-- Where a run has come to its end is determined by what was performed in it. -/
theorem unique {m' : Machine} (h : Solo w done m) (h' : Solo w done m') (hidle : m.isIdle = true)
    (hidle' : m'.isIdle = true) : m = m' := by
  -- what is idle stays as it is, so neither run has gone on after the other one has ended
  have hstays : ∀ {m : Machine}, m.isIdle = true → ∀ n, Machine.step^[n] m = m := by
    rintro ⟨w, frames, control⟩ hidle n
    obtain ⟨rfl, -⟩ := Machine.isIdle_iff.1 hidle
    exact Function.iterate_fixed rfl n
  induction done generalizing m m' with
  | nil => rw [h.nil, h'.nil]
  | cons a done ih =>
    obtain ⟨before, n, hbefore, hidle₀, rfl⟩ := h.cons
    obtain ⟨before', n', hbefore', hidle₀', rfl⟩ := h'.cons
    obtain rfl := ih hbefore hbefore' hidle₀ hidle₀'
    rcases Nat.le_total n n' with hle | hle
    · obtain ⟨k, rfl⟩ := Nat.exists_eq_add_of_le' hle
      rw [Function.iterate_add_apply, hstays hidle]
    · obtain ⟨k, rfl⟩ := Nat.exists_eq_add_of_le' hle
      rw [Function.iterate_add_apply, hstays hidle']

/-- An idle machine is on its first thread, and no thread has a run list. -/
theorem idle {configs : List Config} {procedures : Table (List Action)}
    (h : Solo (.initial configs procedures) done m) (hidle : m.isIdle = true) :
    m.world.thread = 0 ∧ 0 < m.world.threads ∧ ∀ id, (m.world.lock id).runLists = [] := by
  have hm : m.Reachable := ⟨configs, procedures, h.reaches⟩
  have hframes := (Machine.isIdle_iff.1 hidle).1
  have hfirst := hm.first_thread
  have hstarted := hm.threadsOn
  have hlooped := hm.looped
  rw [hframes] at hfirst hstarted hlooped
  have hthread : m.world.thread = 0 := hfirst
  refine ⟨hthread, ?_, ?_⟩
  · rw [← hthread]
    exact hstarted
  · intro id
    -- a run list belongs to a loop on the stack, and the stack is empty
    rw [List.eq_nil_iff_forall_not_mem]
    intro run hrun
    have hdispatching := Lock.isDispatching_eq_true_iff.2 ⟨run, hrun, rfl⟩
    cases (hlooped.lists id run.thread).1 hdispatching

end Solo

/-! ## Who is on the move -/

/-- A list of the outer side comes to an operation of the inner one. -/
inductive Machine.Opens (s : Sides) : Action → Machine → Prop where
  | intro {w : World} {P : Pursuit} {last : Option String} {b : Action} {rest : List Action}
      {below : List Frame} {r : Reply} (hblock : s.block b) :
      Machine.Opens s b ⟨w, P.frame last (b :: rest) :: below, .returned r⟩

/-- Who is on the move. -/
inductive Phase where
  | outer
  /-- An operation of the inner side is performed on top of so many frames of the outer one. -/
  | inner (below : Nat)

/-- Nobody of the inner side is on the move any more. -/
def Phase.IsOver (m : Machine) : Phase → Prop
  | outer => True
  | inner below => m.frames.length = below

/-- The machine of the outer side waits while the inner one is on the move, in front of the next
    action of a list.  Its world is seen as it will be once the last answer is logged.  In the joint
    run the list stands behind an operation of the inner side. -/
inductive Waits (s : Sides) (p : Pairing) : World → List Frame → Machine → Prop where
  | idle {a : Machine} (h : a.isIdle = true) : Waits s p a.world [] a
  | pursuing {reach : Reach} {P P' : Pursuit} {rest rest' : List Action} {below below' : List Frame}
      {v : World} {op : Action} (hop : s.block op) (last' : Option String) (r' : Reply)
      (hP : P.Echoes s .outer reach P') (hrest : Strips s .outer reach rest rest')
      (hbelow : Stack.Echoes s .outer p below below') :
      Waits s p (v.logReply P'.context last' r') (P.frame (some op.word) rest :: below)
        ⟨v, P'.frame last' rest' :: below', .returned r'⟩

/-- The machine of the joint run, that of the outer side, and that of the inner one. -/
inductive Duet (s : Sides) : Phase → Machine → Machine → Machine → Prop where
  | outer {p q : Pairing} {m a b : Machine}
      (hworld : Echoes s .outer p q m.world a.world b.world)
      (hframes : Stack.Echoes s .outer p m.frames a.frames)
      (hcontrol : a.control = m.control.alone s .outer) (hb : b.isIdle = true) :
      Duet s .outer m a b
  | inner {p q : Pairing} {m a b : Machine} {v : World} {above below : List Frame}
      {thread : ThreadId} (hworld : Echoes s .inner q p m.world b.world v)
      (hframes : Stack.Echoes s .inner q above b.frames) (hm : m.frames = above ++ below)
      (hcontrol : b.control = m.control.alone s .inner) (hwaits : Waits s p v below a)
      (houter : p.thread thread v.thread) (hinner : q.thread thread 0) :
      Duet s (.inner below.length) m a b

section Lemmas

variable {s : Sides} {p q : Pairing} {w v u : World}

/-- The inner side comes to move on whatever thread is running.  It has nothing on the run lists, so
    its first thread may be taken for this one. -/
theorem Echoes.turn (h : Echoes s .outer p q w v u) (hthread : u.thread = 0)
    (hthreads : 0 < u.threads) (hlists : ∀ id, (u.lock id).runLists = []) :
    ∃ q', q'.thread w.thread 0 ∧ Echoes s .inner q' p w u v := by
  -- the threads of its operations that are done are forgotten: no run list is theirs any more
  refine ⟨{ q with thread := fun t t' => t = w.thread ∧ t' = 0 }, ⟨rfl, rfl⟩, ?_⟩
  have hother : Mirrors s .inner q w u := h.other
  have hchannels : ∀ {c c'}, q.channel c c' →
      Pairing.channel { q with thread := fun t t' => t = w.thread ∧ t' = 0 } c c' := fun hc => hc
  have hinner : Mirrors s .inner { q with thread := fun t t' => t = w.thread ∧ t' = 0 } w u :=
    { hother with
      lock := by
        intro id hid
        have hl := hother.lock id hid
        have hnone : (w.lock id).runLists = [] := by
          have hruns := hl.runLists
          rw [hlists id] at hruns
          exact List.forall₂_nil_right_iff.1 hruns
        refine { hl with queue := Queue.Echoes.mono hchannels hl.queue, runLists := ?_ }
        rw [hlists id, hnone]
        exact .nil
      future := fun name hname => Future.Echoes.mono hchannels (hother.future name hname)
      threads := by
        refine ⟨?_, ?_⟩
        · rintro t t' ⟨rfl, rfl⟩
          exact ⟨(h.own.threads.lt h.running).1, hthreads⟩
        · rintro t t' t'' t''' ⟨rfl, rfl⟩ ⟨rfl, rfl⟩
          exact ⟨fun _ => rfl, fun _ => rfl⟩ }
  exact ⟨hinner, h.own, fun hd hc => h.apart hc hd, ⟨rfl, hthread⟩, h.assigns, h.told.swap⟩

/-- An operation of the inner side is begun, on whosever behalf, and in the run of that side alone
    at top level. -/
theorem Echoes.begins {configs : List Config} {procedures : Table (List Action)}
    {done : List Action} {b : Machine} (h : Echoes s .outer p q w v b.world)
    (hb : Solo (.initial configs procedures) done b) (hidle : b.isIdle = true) {op op' : Action}
    (hop : op.Echoes s .inner .top op') (context : Context)
    (hassigns : s.Assigns (w.perform context op).world) :
    ∃ q', q'.thread w.thread 0 ∧
      Move.Echoes s .inner q' p v (w.perform context op) (b.world.perform {} op') := by
  obtain ⟨hthread, hthreads, hlists⟩ := hb.idle hidle
  obtain ⟨q', hq', hturned⟩ := h.turn hthread hthreads hlists
  exact ⟨q', hq', hturned.perform (.top context) hop hassigns⟩

/-- The answer to an operation of the inner side is logged, or it is not, by the list in which the
    operation stands. -/
theorem Echoes.overhears {x : Side} (h : Echoes s x p q w v u) (context : Context) {op : Action}
    (hop : s.block op) (r : Reply) :
    Echoes s x p q (w.logReply context (some op.word) r) v u := by
  dsimp only [World.logReply]
  split
  · exact h
  · exact h.answer hop _ _

/-! ## Steps -/

/-- A frame that begins an action goes through a list. -/
theorem Frame.exists_of_next? {f : Frame} {a : Action} (h : f.next? = some a) :
    ∃ (P : Pursuit) (last : Option String) (rest : List Action), f = P.frame last (a :: rest) := by
  -- only the two frames that go through actions have one that is next
  cases f with
  | actions context last rest =>
    cases rest with
    | nil => cases h
    | cons a' rest =>
      cases h
      exact ⟨.actions context, last, rest, rfl⟩
  | working future work g last rest =>
    cases rest with
    | nil => cases h
    | cons a' rest =>
      cases h
      exact ⟨.working future work g, last, rest, rfl⟩
  | _ => cases h

/-- The outer side goes on with a list.  The world is that of the joint run once the last answer is
    logged. -/
inductive Ready (s : Sides) (w : World) (P : Pursuit) (rest : List Action) (below : List Frame)
    (b : Machine) : Machine → Prop where
  | intro {p q : Pairing} {v : World} {reach : Reach} {P' : Pursuit} {rest' : List Action}
      {below' : List Frame} (last' : Option String) (r' : Reply)
      (hworld : Echoes s .outer p q w (v.logReply P'.context last' r') b.world)
      (hP : P.Echoes s .outer reach P') (hrest : Strips s .outer reach rest rest')
      (hbelow : Stack.Echoes s .outer p below below') (hb : b.isIdle = true) :
      Ready s w P rest below b ⟨v, P'.frame last' rest' :: below', .returned r'⟩

namespace Duet

variable {phase : Phase} {m a b : Machine} {configs : List Config}
  {procedures : Table (List Action)} {done : List Action}

/-- The outer side makes a step. -/
theorem step (h : Duet s .outer m a b) (hopens : ∀ op, ¬ m.Opens s op)
    (hassigns : s.Assigns m.step.world) : Duet s .outer m.step a.step b := by
  obtain ⟨w, frames, c⟩ := m
  obtain ⟨v, frames', c'⟩ := a
  cases h with
  -- the inner side rests, and moves with no step of the outer one
  | outer hworld hframes hcontrol hb =>
    dsimp only at hworld hframes hcontrol
    subst hcontrol
    cases hframes with
    | nil => exact .outer hworld .nil rfl hb
    | @cons f f' below below' hf hbelow =>
      rw [Machine.step_cons] at hassigns
      rw [Machine.step_cons, Machine.step_cons]
      -- an operation to be stripped off is opened and not stepped through,
      -- so the step comes to none
      have hkept : ∀ r op, c = .returned r → op ∈ f.next? →
          ¬ (Side.outer = .outer ∧ s.block op) := by
        rintro r op rfl hop ⟨-, hblock⟩
        obtain ⟨P, last, rest, rfl⟩ := Frame.exists_of_next? hop
        exact hopens op (.intro hblock)
      obtain ⟨p', hp, hworld', hpushed, hcontrol'⟩ := hf.pass hworld c hkept hassigns
      exact .outer hworld' (List.rel_append hpushed (Stack.Echoes.mono hbelow hp)) hcontrol' hb

/-- The inner side makes a step. -/
theorem stepInner {k : Nat} (h : Duet s (.inner k) m a b) (hk : k < m.frames.length)
    (hassigns : s.Assigns m.step.world) : Duet s (.inner k) m.step a b.step := by
  obtain ⟨w, frames, c⟩ := m
  obtain ⟨u, frames', c'⟩ := b
  cases h with
  | @inner p q _ _ _ v above below thread hworld hframes hm hcontrol hwaits houter hinner =>
    dsimp only at hworld hframes hm hcontrol
    subst hcontrol hm
    cases hframes with
    | nil => exact absurd hk (Nat.lt_irrefl _)
    | @cons f f' above above' hf habove =>
      rw [List.cons_append, Machine.step_cons] at hassigns
      rw [List.cons_append, Machine.step_cons, Machine.step_cons]
      -- on the inner side no action is stripped off
      have hkept : ∀ r op, c = .returned r → op ∈ f.next? →
          ¬ (Side.inner = .outer ∧ s.block op) := fun r op _ _ hx => by cases hx.1
      obtain ⟨q', hq, hworld', hpushed, hcontrol'⟩ := hf.pass hworld c hkept hassigns
      exact .inner hworld' (List.rel_append hpushed (Stack.Echoes.mono habove hq))
        (List.append_assoc _ _ _).symm hcontrol' hwaits houter (hq.thread hinner)

/-- An operation of the inner side is done: its thread is the one on which it began, and the outer
    side may come to move. -/
theorem returns {k : Nat} (h : Duet s (.inner k) m a b) (hk : m.frames.length = k)
    (hcontrol : m.control ≠ .aborted) (hb : Solo (.initial configs procedures) done b) :
    ∃ p q v, Echoes s .outer p q m.world v b.world ∧ Waits s p v m.frames a ∧
      b.isIdle = true := by
  cases h with
  | @inner p q _ _ _ v above below thread hworld hframes hm hcontrol' hwaits houter hinner =>
    -- the stack is down to where it was when the operation began,
    -- so the inner side has no frame left
    have habove : above = [] := by
      rw [hm, List.length_append] at hk
      exact List.eq_nil_of_length_eq_zero (by omega)
    subst habove
    have hidle : b.isIdle = true := by
      rw [Machine.isIdle_iff, hcontrol']
      exact ⟨List.forall₂_nil_left_iff.1 hframes, Control.alone_ne_aborted hcontrol⟩
    -- an idle machine of its own is on its first thread,
    -- which is paired with the one of the beginning
    have hthread : m.world.thread = thread := by
      refine (hworld.own.threads.iff hworld.running hinner).2 ?_
      exact (hb.idle hidle).1
    rw [hm]
    exact ⟨p, q, v, hworld.swap (hthread ▸ houter), hwaits, hidle⟩

/-- The outer side is about to go on with a list. -/
theorem ready {P : Pursuit} {last : Option String} {rest : List Action} {below : List Frame}
    {r : Reply} (h : Duet s phase ⟨w, P.frame last rest :: below, .returned r⟩ a b)
    (hover : phase.IsOver ⟨w, P.frame last rest :: below, .returned r⟩)
    (hb : Solo (.initial configs procedures) done b) :
    Ready s (w.logReply P.context last r) P rest below b a := by
  cases phase with
  | outer =>
    obtain ⟨v, frames', c'⟩ := a
    -- the outer side has moved last, so its own frame lies on top in both machines
    cases h with
    | outer hworld hframes hcontrol hidle =>
      dsimp only at hworld hframes hcontrol
      subst hcontrol
      cases hframes with
      | cons hf hbelow =>
        obtain ⟨reach, P', rest', rfl, hP, hrest⟩ := hf.pursuit
        exact .intro last (r.alone s .outer) (hworld.logReply hP.context.1 hP.context.2 last r) hP
          hrest hbelow hidle
  | inner k =>
    -- the inner side is done, and what waits on top is the list in which its operation stands
    obtain ⟨p, q, v, hworld, hwaits, hidle⟩ := h.returns hover (fun e => by cases e) hb
    dsimp only at hwaits hworld
    generalize hframes : P.frame last rest :: below = frames at hwaits
    cases hwaits with
    | idle _ => cases hframes
    -- the answer of the operation is logged in the joint run, and the outer side alone does not hear it
    | pursuing hop last' r' hP hrest hbelow =>
      obtain ⟨hframe, rfl⟩ := List.cons.inj hframes
      obtain ⟨rfl, rfl, rfl⟩ := Pursuit.frame_inj hframe
      exact .intro last' r' (hworld.overhears _ hop r) hP hrest hbelow hidle

/-- A list of the outer side has come to an operation of the inner one, which is begun. -/
theorem enter (h : Duet s phase m a b) (hover : phase.IsOver m) {op op' : Action}
    (hopens : m.Opens s op) (hb : Solo (.initial configs procedures) done b)
    (hop : op.Echoes s .inner .top op') (hassigns : s.Assigns m.step.world) :
    b.isIdle = true ∧ Duet s (.inner m.frames.length) m.step a (.begin b.world op') := by
  cases hopens with
  | @intro w P last _ rest below r hblock =>
    cases h.ready hover hb with
    | @intro p q v reach P' rest' below' last' r' hworld hP hrest hbelow hidle =>
      cases hrest with
      | keep hkept ha hrest => exact absurd ⟨rfl, hblock⟩ hkept
      | strip _ _ hpause hrest =>
        rw [Machine.step_returned, Pursuit.resume_frame, P.goOn_cons _ hpause] at hassigns ⊢
        obtain ⟨q', hq', q'', hq, hworld', hpushed, hcontrol⟩ :=
          hworld.begins hb hidle hop P.context hassigns
        -- in the joint run the list lies below the new frames, in front of what follows; alone the
        -- outer side has not moved, so the answer that was logged here is still to be logged there
        have hstack : ∀ frames : List Frame,
            (frames ++ [P.frame (some op.word) rest]) ++ below =
              frames ++ P.frame (some op.word) rest :: below := by simp
        have hwaits : Waits s p (v.logReply P'.context last' r')
            (P.frame (some op.word) rest :: below)
            ⟨v, P'.frame last' rest' :: below', .returned r'⟩ :=
          .pursuing hblock last' r' hP hrest hbelow
        refine ⟨hidle, ?_⟩
        show Duet s (.inner (P.frame (some op.word) rest :: below).length) _ _ _
        refine .inner hworld' ?_ (hstack _) hcontrol hwaits hworld.running (hq.thread hq')
        simpa [Machine.begin, Machine.ofMove] using hpushed

/-- The inner side ceases to be on the move, and the outer one goes on with its list. -/
theorem leave {k : Nat} (h : Duet s (.inner k) m a b) (hk : m.frames.length = k)
    (hframes : m.frames ≠ []) {r : Reply} (hcontrol : m.control = .returned r)
    (hopens : ∀ op, ¬ m.Opens s op) (hb : Solo (.initial configs procedures) done b)
    (hassigns : s.Assigns m.step.world) : Duet s .outer m.step a.step b := by
  obtain ⟨w, frames, c⟩ := m
  dsimp only at hframes hcontrol
  subst hcontrol
  -- what lies on top is the list in which the operation stands
  obtain ⟨P, last, rest, below, rfl⟩ : ∃ (P : Pursuit) (last : Option String)
      (rest : List Action) (below : List Frame), frames = P.frame last rest :: below := by
    obtain ⟨p, q, v, -, hwaits, -⟩ := h.returns hk (fun e => by cases e) hb
    dsimp only at hwaits
    cases hwaits with
    | idle _ => exact absurd rfl hframes
    | pursuing hop last' r' hP hrest hbelow => exact ⟨_, _, _, _, rfl⟩
  cases h.ready hk hb with
  | @intro p q v reach P' rest' below' last' r' hworld hP hrest hbelow hidle =>
    have hkept : ∀ op ∈ rest.head?, ¬ (Side.outer = .outer ∧ s.block op) := by
      rintro op hop ⟨-, hblock⟩
      obtain ⟨tail, rfl⟩ := List.head?_eq_some_iff.1 hop
      exact hopens op (.intro hblock)
    rw [Machine.step_returned, Pursuit.resume_frame] at hassigns ⊢
    rw [Machine.step_returned, Pursuit.resume_frame]
    obtain ⟨p', hp, hworld', hpushed, hcontrol⟩ := hworld.goOn hP hrest hkept hassigns
    exact .outer hworld' (List.rel_append hpushed (Stack.Echoes.mono hbelow hp)) hcontrol hidle

/-! ## Operations at top level -/

/-- When the machine of the joint run is idle, so are those of both sides. -/
theorem idle (h : Duet s phase m a b) (hidle : m.isIdle = true) :
    a.isIdle = true ∧ b.isIdle = true := by
  obtain ⟨hframes, hcontrol⟩ := Machine.isIdle_iff.1 hidle
  -- an empty stack means that neither side has frames on it
  cases h with
  | outer hworld hstack hcontrol' hb =>
    rw [hframes] at hstack
    refine ⟨?_, hb⟩
    rw [Machine.isIdle_iff, hcontrol']
    exact ⟨List.forall₂_nil_left_iff.1 hstack, Control.alone_ne_aborted hcontrol⟩
  | inner hworld hstack hm hcontrol' hwaits houter hinner =>
    rw [hframes] at hm
    obtain ⟨rfl, rfl⟩ := List.append_eq_nil_iff.1 hm.symm
    cases hwaits with
    | idle ha =>
      refine ⟨ha, ?_⟩
      rw [Machine.isIdle_iff, hcontrol']
      exact ⟨List.forall₂_nil_left_iff.1 hstack, Control.alone_ne_aborted hcontrol⟩

/-- The worlds are related then in whatever order the sides are named. -/
theorem rests (h : Duet s phase m a b) (hidle : m.isIdle = true)
    (hb : Solo (.initial configs procedures) done b) :
    ∃ p q, Echoes s .outer p q m.world a.world b.world := by
  obtain ⟨hframes, hcontrol⟩ := Machine.isIdle_iff.1 hidle
  cases phase with
  | outer =>
    -- who moved last is related as it stands; the inner side hands over first
    cases h with
    | outer hworld hstack hcontrol' hb => exact ⟨_, _, hworld⟩
  | inner k =>
    have hk : m.frames.length = k := by
      cases h with
      | inner _ _ hm =>
        rw [hframes] at hm ⊢
        rw [(List.append_eq_nil_iff.1 hm.symm).2]
    obtain ⟨p, q, v, hworld, hwaits, -⟩ := h.returns hk hcontrol hb
    rw [hframes] at hwaits
    cases hwaits with
    | idle ha => exact ⟨p, q, hworld⟩

theorem callOuter (h : Duet s phase m a b) (hidle : m.isIdle = true)
    (hb : Solo (.initial configs procedures) done b) {call call' : Action}
    (hcall : call.Echoes s .outer .top call')
    (hassigns : s.Assigns (Machine.begin m.world call).world) :
    Duet s .outer (.begin m.world call) (.begin a.world call') b := by
  obtain ⟨p, q, hworld⟩ := h.rests hidle hb
  obtain ⟨p', hp, hworld', hpushed, hcontrol⟩ := hworld.perform (.top {}) hcall hassigns
  refine .outer hworld' ?_ hcontrol (h.idle hidle).2
  simpa [Machine.begin, Machine.ofMove] using hpushed

theorem callInner (h : Duet s phase m a b) (hidle : m.isIdle = true)
    (hb : Solo (.initial configs procedures) done b) {op op' : Action}
    (hop : op.Echoes s .inner .top op')
    (hassigns : s.Assigns (Machine.begin m.world op).world) :
    Duet s (.inner 0) (.begin m.world op) a (.begin b.world op') := by
  obtain ⟨p, q, hworld⟩ := h.rests hidle hb
  obtain ⟨ha, hidle'⟩ := h.idle hidle
  obtain ⟨q', hq', q'', hq, hworld', hpushed, hcontrol⟩ :=
    hworld.begins hb hidle' hop {} hassigns
  refine .inner hworld' ?_ rfl hcontrol (.idle ha) hworld.running (hq.thread hq')
  simpa [Machine.begin, Machine.ofMove] using hpushed

end Duet

end Lemmas

end FairLock
