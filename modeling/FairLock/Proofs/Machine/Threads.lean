import FairLock.Proofs.Machine.Loops

/-!
# Threads on a stack

A thread that is started is joined at once, so the frames of the threads lie on one stack, those of
the youngest at the top.  A run down to a stack ends on the thread on which it began.  In between
only that thread and younger ones were running, and a thread that does not run keeps what lies on
its run lists.

## Main definitions

- `ThreadsOn`: what the threads of a stack are like, the one at the bottom apart.
- `Machine.OnTheWay`: what stays true above a stack while a run goes down to it.

## Main statements

- `World.Makes.threadsOn`, `World.Makes.deferredOn`: what a move does with threads.
- `Machine.Acts.threadsOn`, `Machine.Acts.deferredOn`: what a step does with them.
- `Machine.Reachable.threadsOn`: every thread on the stack was started before.
- `Machine.ComesTo.same_thread`: a run down to a stack.
-/

namespace FairLock

/-- The thread at the bottom of a stack has one property, those that were started above it have
    another. -/
def ThreadsOn (base young : ThreadId → Prop) (thread : ThreadId) : List Frame → Prop
  | [] => base thread
  | .joining waiting _ :: rest => young thread ∧ ThreadsOn base young waiting rest
  | _ :: rest => ThreadsOn base young thread rest

section ThreadsOn

variable {base young : ThreadId → Prop} {thread : ThreadId}

theorem threadsOn_cons {f : Frame} (hf : ∀ waiting entered, f ≠ .joining waiting entered)
    (rest : List Frame) :
    ThreadsOn base young thread (f :: rest) ↔ ThreadsOn base young thread rest := by
  cases f with
  | joining waiting entered => exact absurd rfl (hf waiting entered)
  | _ => exact Iff.rfl

theorem threadsOn_plain {f : Frame} (hf : f.isPlain = true) (rest : List Frame) :
    ThreadsOn base young thread (f :: rest) ↔ ThreadsOn base young thread rest := by
  refine threadsOn_cons ?_ rest
  rintro waiting entered rfl
  cases hf

theorem threadsOn_append_plain {pushed : List Frame} (hf : ∀ f ∈ pushed, f.isPlain = true)
    (rest : List Frame) :
    ThreadsOn base young thread (pushed ++ rest) ↔ ThreadsOn base young thread rest := by
  induction pushed with
  | nil => exact Iff.rfl
  | cons f pushed ih =>
    rw [List.cons_append, threadsOn_plain (hf f (by simp))]
    exact ih fun f' hf' => hf f' (by simp [hf'])

namespace ThreadsOn

theorem mono {base' young' : ThreadId → Prop} {frames : List Frame}
    (h : ThreadsOn base young thread frames) (hbase : ∀ t, base t → base' t)
    (hyoung : ∀ t, young t → young' t) : ThreadsOn base' young' thread frames := by
  induction frames generalizing thread with
  | nil => exact hbase _ h
  | cons f rest ih =>
    cases f with
    | joining waiting entered => exact ⟨hyoung _ h.1, ih h.2⟩
    | _ => exact ih h

/-- The running thread is the one at the bottom or a younger one. -/
theorem running {frames : List Frame} (h : ThreadsOn base young thread frames) :
    base thread ∨ young thread := by
  induction frames generalizing thread with
  | nil => exact .inl h
  | cons f rest ih =>
    cases f with
    | joining waiting entered => exact .inr h.1
    | _ => exact ih h

/-- So is every thread that runs a loop. -/
theorem of_loop {frames : List Frame} (h : ThreadsOn base young thread frames) {t : ThreadId}
    {lock : LockId} (hl : (t, lock) ∈ loopsOf thread frames) : base t ∨ young t := by
  induction frames generalizing thread with
  | nil => cases hl
  | cons f rest ih =>
    cases f with
    -- below a join another thread was running, and that one was not young
    | joining waiting entered => exact ih h.2 hl
    | dispatching lock' outcome =>
      rcases List.mem_cons.1 hl with heq | hl
      · cases heq
        exact running h
      · exact ih h hl
    | _ => exact ih h hl

end ThreadsOn

end ThreadsOn

/-! ## What the other threads keep -/

namespace Lock

variable {α : Type} {l l' : Lock α} {thread t : ThreadId}

/-- Where only run lists of one thread were changed, the others find on theirs what was there. -/
theorem deferredOn_of_ne {before mid mid' after : List (RunList α)}
    (hl : l.runLists = before ++ mid ++ after) (hl' : l'.runLists = before ++ mid' ++ after)
    (hmid : ∀ run ∈ mid, run.thread = thread) (hmid' : ∀ run ∈ mid', run.thread = thread)
    (ht : t ≠ thread) : l'.deferredOn t = l.deferredOn t := by
  have hnone : ∀ runs : List (RunList α), (∀ run ∈ runs, run.thread = thread) →
      (runs.find? fun run => run.thread == t) = none := by
    intro runs hruns
    rw [List.find?_eq_none]
    intro run hrun
    simpa [hruns run hrun] using Ne.symm ht
  simp [deferredOn, hl, hl', List.find?_append, hnone mid hmid, hnone mid' hmid']

theorem deferredOn_openRunList (l : Lock α) (batch : List (Request α)) (ht : t ≠ thread) :
    (l.openRunList thread batch).deferredOn t = l.deferredOn t := by
  have hopened : (l.openRunList thread batch).runLists =
      l.runLists ++ [⟨thread, batch⟩] ++ [] := by simp [openRunList]
  have hl : l.runLists = l.runLists ++ [] ++ [] := by simp
  exact deferredOn_of_ne hl hopened (by simp) (by simp) ht

theorem deferredOn_schedule (l : Lock α) (batch : List (Request α)) (ht : t ≠ thread) :
    (l.schedule thread batch).1.deferredOn t = l.deferredOn t := by
  cases hloop : l.isDispatching thread with
  -- the thread has no run list and begins one, or the batch joins the one it has
  | false =>
    rw [schedule, hloop]
    exact l.deferredOn_openRunList batch ht
  | true =>
    obtain ⟨before, deferred, after, hl, hb⟩ := exists_focus_of_isDispatching hloop
    have hfocus : l.runLists = before ++ [⟨thread, deferred⟩] ++ after := by simp [hl]
    have hjoined : (l.schedule thread batch).1.runLists =
        before ++ [⟨thread, deferred ++ batch⟩] ++ after := by
      simp [schedule, hloop, hl, deferTo_focus hb]
    exact deferredOn_of_ne hfocus hjoined (by simp) (by simp) ht

theorem deferredOn_next {r : Request α} (h : l.next thread = some (r, l')) (ht : t ≠ thread) :
    l'.deferredOn t = l.deferredOn t := by
  obtain ⟨before, deferred, after, -, hl, rfl⟩ := next_cases h
  have hfocus : l.runLists = before ++ [⟨thread, r :: deferred⟩] ++ after := by simp [hl]
  have htaken : before ++ ⟨thread, deferred⟩ :: after =
      before ++ [(⟨thread, deferred⟩ : RunList α)] ++ after := by simp
  exact deferredOn_of_ne hfocus htaken (by simp) (by simp) ht

theorem deferredOn_close (l : Lock α) (ht : t ≠ thread) :
    (l.close thread).1.deferredOn t = l.deferredOn t := by
  rcases l.close_cases thread with ⟨before, deferred, after, -, hl, he⟩ | ⟨-, he⟩
  · have hfocus : l.runLists = before ++ [⟨thread, deferred⟩] ++ after := by simp [hl]
    have hclosed : (l.close thread).1.runLists = before ++ [] ++ after := by simp [he]
    exact deferredOn_of_ne hfocus hclosed (by simp) (by simp) ht
  · rw [he]

end Lock

/-! ## Moves -/

namespace World

variable {w : World} {m : Move} {t : ThreadId}

/-- What lies on the run lists of a thread that gets no other lock is read off the lock. -/
theorem deferredOn_setLock {lock : LockId} {l : Lock Entry} (hid : lock < w.locks.length)
    (hl : l.deferredOn t = (w.lock lock).deferredOn t) (id : LockId) :
    ((w.setLock lock l).lock id).deferredOn t = (w.lock id).deferredOn t := by
  by_cases hlock : lock = id
  · subst hlock
    rw [lock_setLock_self hid, hl]
  · rw [lock_setLock_of_ne hlock]

namespace Makes

theorem threads_le (h : w.Makes m) : w.threads ≤ m.world.threads := by
  induction h with
  | quiet _ hsame ih => exact hsame.threads ▸ ih
  | threaded => exact Nat.le_succ _
  | under _ _ ih => exact ih
  | invoked _ _ ih => exact ih
  | looped _ _ _ ih => exact ih
  | _ => exact Nat.le_refl _

/-- A move leaves the running thread as it is, or puts a new one on top. -/
theorem threadsOn {base young : ThreadId → Prop} {below : List Frame} (h : w.Makes m)
    (hw : ThreadsOn base young w.thread below)
    (hnew : ∀ t, w.threads ≤ t → t < m.world.threads → young t) :
    ThreadsOn base young m.world.thread (m.frames ++ below) := by
  induction h generalizing below with
  | done control => exact hw
  | quiet _ hsame ih => exact ih (hsame.thread ▸ hw) (hsame.threads ▸ hnew)
  | under hm hf ih => simpa [List.append_assoc] using ih ((threadsOn_plain hf _).2 hw) hnew
  | @invoked w m g hm hloop ih =>
    have hcovered : ThreadsOn base young w.thread (.invocation g :: below) := hw
    simpa [List.append_assoc] using ih hcovered hnew
  | scheduled hid batch =>
    simp only [schedule]
    split <;> exact hw
  | @looped w m lock hid hidle hm ih =>
    have hcovered : ThreadsOn base young w.thread (.dispatching lock none :: below) := hw
    simpa [List.append_assoc] using ih hcovered hnew
  | @threaded w context body =>
    -- the new thread lies above the one that waits for it
    have hyoung : young w.threads := hnew w.threads (Nat.le_refl _) (Nat.lt_succ_self _)
    exact ⟨hyoung, hw⟩

/-- It changes nothing on the run lists of another thread. -/
theorem deferredOn (h : w.Makes m) (ht : t ≠ w.thread) (id : LockId) :
    (m.world.lock id).deferredOn t = (w.lock id).deferredOn t := by
  -- only the run list of the running thread is opened or gets a batch
  induction h with
  | quiet _ hsame ih =>
    rw [ih (hsame.thread ▸ ht), Lock.deferredOn, hsame.lists id]
    rfl
  | under _ _ ih => exact ih ht
  | invoked _ _ ih => exact ih ht
  | scheduled hid batch =>
    exact deferredOn_setLock hid ((Lock.deferredOn_schedule _ batch) ht) id
  | looped hid hidle _ ih =>
    exact (ih ht).trans (deferredOn_setLock hid (Lock.deferredOn_openRunList _ [] ht) id)
  | _ => rfl

end Makes

end World

/-! ## Steps -/

namespace Machine

variable {m m' : Machine}

namespace Acts

variable {may : Call → Prop}

theorem threads_le (h : m.Acts may m') : m.world.threads ≤ m'.world.threads := by
  cases h with
  | moves _ h => exact h.makes.threads_le
  | takes hid hnext => exact (World.makes_taken hid hnext).threads_le
  | handsBack hid => exact (World.makes_endGrant _ _).threads_le
  | discards hid => exact (World.sameLists_discard _ _ _).threads.ge
  | _ => exact Nat.le_refl _

/-- A transition knows the threads of the stack above any part of it. -/
theorem threadsOn {base young : ThreadId → Prop} {f : Frame} {above rest : List Frame}
    (h : m.Acts may m') (hm : m.frames = f :: above ++ rest)
    (hthreads : ThreadsOn base young m.world.thread (f :: above))
    (hnew : ∀ t, m.world.threads ≤ t → t < m'.world.threads → young t) :
    ∃ above', m'.frames = above' ++ rest ∧ ThreadsOn base young m'.world.thread above' := by
  -- what was put on the stack lies on what was left of it above the part
  have hpushed : ∀ {w : World} {move : Move} (top covering : List Frame), w.Makes move →
      move.frames ++ top = m'.frames → top = covering ++ rest → move.world = m'.world →
      w.threads = m.world.threads → ThreadsOn base young w.thread covering →
      ∃ above', m'.frames = above' ++ rest ∧ ThreadsOn base young m'.world.thread above' := by
    intro w move top covering hmakes hframes htop hworld hold hcovering
    refine ⟨move.frames ++ covering, ?_, ?_⟩
    · rw [← hframes, htop, List.append_assoc]
    · rw [← hworld]
      refine hmakes.threadsOn hcovering fun t ht hlt => hnew t ?_ ?_
      · exact hold ▸ ht
      · exact hworld ▸ hlt
  have habove : (∀ waiting entered, f ≠ .joining waiting entered) →
      ThreadsOn base young m.world.thread above := fun hf => (threadsOn_cons hf above).1 hthreads
  cases h with
  | rests => exact ⟨f :: above, hm, hthreads⟩
  | @moves w top below control move htop h =>
    cases top with
    | none => exact hpushed below (f :: above) h.makes rfl hm rfl rfl hthreads
    | some f' =>
      obtain ⟨rfl, rfl⟩ : f' = f ∧ below = above ++ rest := by simpa using hm
      refine hpushed _ above h.makes rfl rfl rfl rfl (habove ?_)
      rintro waiting entered rfl
      exact absurd (htop _ rfl) (by simp [Frame.isSimple])
  | @takes w lock outcome below reply r l hid hnext =>
    obtain ⟨rfl, rfl⟩ : .dispatching lock outcome = f ∧ below = above ++ rest := by simpa using hm
    exact hpushed _ (.dispatching lock (some (outcome.getD reply)) :: above)
      (World.makes_taken hid hnext) rfl rfl rfl rfl hthreads
  | @closes w lock outcome below reply hid hnext =>
    obtain ⟨rfl, rfl⟩ : .dispatching lock outcome = f ∧ below = above ++ rest := by simpa using hm
    exact ⟨above, rfl, hthreads⟩
  | @unwinds w lock outcome below fault hid =>
    obtain ⟨rfl, rfl⟩ : .dispatching lock outcome = f ∧ below = above ++ rest := by simpa using hm
    exact ⟨_ :: _ :: above, rfl, hthreads⟩
  | @handsBack w lock r items below reply hid =>
    obtain ⟨rfl, rfl⟩ : .handingBack lock (r :: items) = f ∧ below = above ++ rest := by
      simpa using hm
    exact hpushed _ (.discarding (r.grant lock) r.payload :: .handingBack lock items :: above)
      (World.makes_endGrant _ _) rfl rfl rfl rfl hthreads
  | @discards w g entry below reply hid =>
    obtain ⟨rfl, rfl⟩ : .discarding g entry = f ∧ below = above ++ rest := by simpa using hm
    exact ⟨above, rfl, (World.sameLists_discard _ _ _).thread.symm ▸ hthreads⟩
  | @leaves w f' below control control' hf hout =>
    obtain ⟨rfl, rfl⟩ : f' = f ∧ below = above ++ rest := by simpa using hm
    exact ⟨above, rfl, (threadsOn_plain hf above).1 hthreads⟩
  | @joins w thread entered below control reply =>
    obtain ⟨rfl, rfl⟩ : .joining thread entered = f ∧ below = above ++ rest := by simpa using hm
    exact ⟨above, rfl, hthreads.2⟩

/-- It changes nothing on the run lists of a thread that does not run. -/
theorem deferredOn (h : m.Acts may m') {t : ThreadId} (ht : t ≠ m.world.thread) (id : LockId) :
    (m'.world.lock id).deferredOn t = (m.world.lock id).deferredOn t := by
  -- only the running thread closes a list or takes from one
  cases h with
  | moves _ h => exact h.makes.deferredOn ht id
  | takes hid hnext =>
    exact ((World.makes_taken hid hnext).deferredOn ht id).trans
      (World.deferredOn_setLock hid (Lock.deferredOn_next hnext ht) id)
  | closes hid _ => exact World.deferredOn_setLock hid (Lock.deferredOn_close _ ht) id
  | unwinds hid => exact World.deferredOn_setLock hid (Lock.deferredOn_close _ ht) id
  | handsBack hid => exact (World.makes_endGrant _ _).deferredOn ht id
  | @discards w g entry below reply hid =>
    have hlists := (w.sameLists_discard (some g) entry).lists id
    simp only [Lock.deferredOn, hlists]
  | _ => rfl

end Acts

/-! ## Reachable machines -/

theorem thread_initial (configs : List Config) (procedures : Table (List Action)) :
    (World.initial configs procedures).thread < (World.initial configs procedures).threads := by
  have hstart : ({ procedures := procedures } : World).thread <
      ({ procedures := procedures } : World).threads := Nat.zero_lt_one
  unfold World.initial
  generalize ({ procedures := procedures } : World) = w at hstart
  induction configs generalizing w with
  | nil => exact hstart
  | cons config rest ih => exact ih (w.create config) hstart

/-- Every thread on the stack was started before. -/
theorem Reachable.threadsOn (h : m.Reachable) :
    ThreadsOn (· < m.world.threads) (· < m.world.threads) m.world.thread m.frames := by
  obtain ⟨configs, procedures, hr⟩ := h
  induction hr with
  | refl => exact thread_initial configs procedures
  | @tail m m' hbefore hn ih =>
    have hm : m.Reachable := ⟨configs, procedures, hbefore⟩
    have hacts := hm.acts hn
    -- threads are numbered as they are started, so earlier ones stay below the number of all
    have hlater : ∀ t, t < m.world.threads → t < m'.world.threads := fun t ht =>
      Nat.lt_of_lt_of_le ht hacts.threads_le
    have hthreads := ih.mono hlater hlater
    -- with an empty stack only the running thread counts
    cases hframes : m.frames with
    | nil =>
      cases hn with
      | step =>
        have hsame : m.step = m := by
          obtain ⟨w, frames, control⟩ := m
          cases hframes
          rfl
        rw [hsame]
        exact ih
      | @call w control a hcontrol =>
        have hmakes := (World.deals_perform hm.exists_ledger.1.world {} a).makes
        exact hmakes.threadsOn hthreads fun t _ ht => ht
    | cons f above =>
      rw [hframes] at hthreads
      have hwhole : m.frames = f :: above ++ [] := by simpa using hframes
      obtain ⟨above', habove, hthreads'⟩ := hacts.threadsOn hwhole hthreads fun t _ ht => ht
      rw [habove, List.append_nil]
      exact hthreads'

/-- What is true on the way from a machine down to a stack: above it only the thread on which the
    way began runs, and younger ones.  The other threads find on their run lists what was there. -/
structure OnTheWay (m : Machine) (rest : List Frame) (x : Machine) : Prop where
  reachable : x.Reachable
  threads : m.world.threads ≤ x.world.threads
  stack : ∃ above, x.frames = above ++ rest ∧
    ThreadsOn (· = m.world.thread) (m.world.threads ≤ ·) x.world.thread above
  lists : ∀ t, t ≠ m.world.thread → t < m.world.threads → ∀ id,
    (x.world.lock id).deferredOn t = (m.world.lock id).deferredOn t

theorem OnTheWay.step {x : Machine} {f : Frame} {above rest : List Frame}
    (h : OnTheWay m rest x) (hx : x.frames = f :: above ++ rest) : OnTheWay m rest x.step := by
  have hacts := h.reachable.acts (.step x)
  obtain ⟨above', habove', hthreads⟩ := h.stack
  obtain rfl : above' = f :: above := List.append_cancel_right (habove'.symm.trans hx)
  refine ⟨h.reachable.reaches (.single (.step x)), Nat.le_trans h.threads hacts.threads_le, ?_, ?_⟩
  · exact hacts.threadsOn hx hthreads fun t ht _ => Nat.le_trans h.threads ht
  · intro t hne hold id
    -- a thread that was there before is not the one that runs
    have hidle : t ≠ x.world.thread := by
      rintro rfl
      rcases hthreads.running with hsame | hyoung
      · exact hne hsame
      · exact absurd hold (Nat.not_lt.2 hyoung)
    rw [hacts.deferredOn hidle, h.lists t hne hold]

/-- A run down to a stack that nothing of another thread covers ends on the thread on which it
    began.  The threads that there were besides have done nothing. -/
theorem ComesTo.same_thread (h : m.ComesTo m') (hm : m.Reachable) {above : List Frame}
    (hframes : m.frames = above ++ m'.frames) (habove : ∀ f ∈ above, f.isPlain = true) :
    m'.world.thread = m.world.thread ∧
      ∀ t, t ≠ m.world.thread → t < m.world.threads → ∀ id,
        (m'.world.lock id).deferredOn t = (m.world.lock id).deferredOn t := by
  -- on the way nothing but plain frames and younger threads covers the stack
  have hfirst : OnTheWay m m'.frames m := by
    refine ⟨hm, Nat.le_refl _, ⟨above, hframes, ?_⟩, fun _ _ _ _ => rfl⟩
    have hbase : ThreadsOn (· = m.world.thread) (m.world.threads ≤ ·) m.world.thread [] := rfl
    simpa using (threadsOn_append_plain habove []).2 hbase
  have hlast : OnTheWay m m'.frames m' :=
    h.preserves (fun x f covering hx hway => hway.step hx) hfirst
  obtain ⟨above', habove', hthreads⟩ := hlast.stack
  obtain rfl : above' = [] := by simpa using habove'
  exact ⟨hthreads, hlast.lists⟩

end Machine

end FairLock
