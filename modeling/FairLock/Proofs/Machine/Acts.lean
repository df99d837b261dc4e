import FairLock.Proofs.Machine.Deals

/-!
# What a transition does

A machine goes on by a step, or because an idle one is called.  Either way there is little that can
happen, and all of it is listed here: a move that comes down to one deed, a loop that takes a
request off its run list or gives the list up, the cleaning up after an unwound loop, the end of a
thread.

## Main definitions

- `Machine.Calls`: a transition makes a call.
- `Machine.Acts`: what a transition does.

## Main statements

- `Machine.Ok.acts`: nothing else happens.
-/

namespace FairLock.Machine

/-- The transition from one machine to another makes a call. -/
inductive Calls : Machine → Machine → Call → Prop where
  | step {w : World} {f : Frame} {below : List Frame} {reply : Reply} {call : Call}
      (h : f.Asks w reply call) :
      Calls ⟨w, f :: below, .returned reply⟩ (ofMove (f.resume w reply) below) call
  /-- The call is made at top level. -/
  | call {w : World} {control : Control} {a : Action} {call : Call} (hcontrol : control ≠ .aborted)
      (h : w.Asks {} a call) : Calls ⟨w, [], control⟩ (begin w a) call

/-- What a transition does, if the calls that it makes are among the given ones. -/
inductive Acts (may : Call → Prop) : Machine → Machine → Prop where
  | rests (m : Machine) : Acts may m m
  /-- The topmost frame is a simple one, or there is none. -/
  | moves {w : World} {t : Option Frame} {below : List Frame} {control : Control} {move : Move}
      (htop : ∀ f ∈ t, f.isSimple = true) (h : w.Deals may move) :
      Acts may ⟨w, t.toList ++ below, control⟩ (ofMove move below)
  /-- A loop takes a request off its run list and stays below what is started. -/
  | takes {w : World} {lock : LockId} {outcome : Option Reply} {below : List Frame} {reply : Reply}
      {r : Request Entry} {l : Lock Entry} (hid : lock < w.locks.length)
      (hnext : (w.lock lock).next w.thread = some (r, l)) :
      Acts may ⟨w, .dispatching lock outcome :: below, .returned reply⟩
        (ofMove ((w.setLock lock l).start lock r)
          (.dispatching lock (some (outcome.getD reply)) :: below))
  /-- A loop is done, and gives up its run list. -/
  | closes {w : World} {lock : LockId} {outcome : Option Reply} {below : List Frame} {reply : Reply}
      (hid : lock < w.locks.length) (hnext : (w.lock lock).next w.thread = none) :
      Acts may ⟨w, .dispatching lock outcome :: below, .returned reply⟩
        ⟨w.setLock lock ((w.lock lock).close w.thread).1, below, .returned (outcome.getD reply)⟩
  /-- A loop is unwound, and gives up its run list with what is on it. -/
  | unwinds {w : World} {lock : LockId} {outcome : Option Reply} {below : List Frame}
      {fault : Fault} (hid : lock < w.locks.length) :
      Acts may ⟨w, .dispatching lock outcome :: below, .unwinding fault⟩
        ⟨w.setLock lock ((w.lock lock).close w.thread).1,
          .handingBack lock ((w.lock lock).deferredOn w.thread) :: .rethrowing fault :: below,
          .returned .nothing⟩
  /-- A grant is handed back, and its entry point is dropped next. -/
  | handsBack {w : World} {lock : LockId} {r : Request Entry} {items : List (Request Entry)}
      {below : List Frame} {reply : Reply} (hid : lock < w.locks.length) :
      Acts may ⟨w, .handingBack lock (r :: items) :: below, .returned reply⟩
        (ofMove (w.endGrant (r.grant lock))
          (.discarding (r.grant lock) r.payload :: .handingBack lock items :: below))
  | discards {w : World} {g : Grant} {entry : Entry} {below : List Frame} {reply : Reply}
      (hid : g.lock < w.locks.length) :
      Acts may ⟨w, .discarding g entry :: below, .returned reply⟩
        ⟨w.discard (some g) entry, below, .returned .nothing⟩
  /-- Nothing is left to be handed back, or nobody will hand anything back any more. -/
  | leaves {w : World} {f : Frame} {below : List Frame} {control control' : Control}
      (hf : f.isPlain = true)
      (hout : f.out = [] ∨ isAborting ⟨w, f :: below, control⟩ = true) :
      Acts may ⟨w, f :: below, control⟩ ⟨w, below, control'⟩
  | joins {w : World} {thread : ThreadId} {entered : List Grant} {below : List Frame}
      {control : Control} (reply : Reply) :
      Acts may ⟨w, .joining thread entered :: below, control⟩
        ⟨w.join thread entered, below, .returned reply⟩

namespace Ok

variable {w : World} {f : Frame} {below : List Frame}

theorem acts_returned {reply : Reply} (h : Ok ⟨w, f :: below, .returned reply⟩) :
    Acts (f.Asks w reply) ⟨w, f :: below, .returned reply⟩
      (Machine.ofMove (f.resume w reply) below) := by
  obtain ⟨hworld, hstack⟩ := h
  -- the frames that clean up after a loop come in this order only,
  -- which the shape of the stack says
  cases hstack with
  | @handingBack lock items fault rest hlock hrest =>
    cases items with
    | nil => exact .leaves rfl (.inl rfl)
    | cons r items =>
      have hmove : Machine.ofMove (w.handBack lock (r :: items)) (.rethrowing fault :: rest) =
          Machine.ofMove (w.endGrant (r.grant lock))
            (.discarding (r.grant lock) r.payload :: .handingBack lock items ::
              .rethrowing fault :: rest) := by
        simp [Machine.ofMove, World.handBack, Request.grant]
      exact hmove ▸ .handsBack hlock
  | @discarding g entry items rest hrest =>
    have hid : g.lock < w.locks.length := by
      cases hrest with
      | frame hf _ => exact hf.elim
      | handingBack hlock _ => exact hlock
    exact .discards hid
  | frame hf hbelow =>
    -- a frame that is not a loop, a join or part of the cleaning deals with a lock at most once
    by_cases hsimple : f.isSimple = true
    · have hdeals := Frame.deals_resume hworld hf hsimple reply
      exact .moves (t := some f) (by simpa using hsimple) hdeals
    · cases f with
      | dispatching lock outcome =>
        simp only [Frame.resume, World.dispatch]
        cases hnext : (w.lock lock).next w.thread with
        | none => exact .closes hf hnext
        | some found =>
          obtain ⟨r, l⟩ := found
          have htakes : Acts (Frame.Asks w reply (.dispatching lock outcome))
              ⟨w, .dispatching lock outcome :: below, .returned reply⟩
              (Machine.ofMove ((w.setLock lock l).start lock r)
                (.dispatching lock (some (outcome.getD reply)) :: below)) := .takes hf hnext
          simpa [Machine.ofMove] using htakes
      | joining thread entered => exact .joins _
      | handingBack lock items => exact hf.elim
      | discarding g entry => exact hf.elim
      | _ => exact absurd rfl hsimple

theorem acts_unwinding (may : Call → Prop) {fault : Fault}
    (h : Ok ⟨w, f :: below, .unwinding fault⟩) :
    Acts may ⟨w, f :: below, .unwinding fault⟩ (Machine.ofMove (f.unwind w fault) below) := by
  obtain ⟨hworld, hstack⟩ := h
  cases hstack with
  | handingBack hlock hrest => exact .leaves rfl (.inr rfl)
  | discarding hrest => exact .leaves rfl (.inr rfl)
  | frame hf hbelow =>
    by_cases hsimple : f.isSimple = true
    · exact .moves (t := some f) (by simpa using hsimple) (Frame.deals_unwind hsimple fault)
    · cases f with
      | dispatching lock outcome => exact .unwinds hf
      | joining thread entered => exact .joins _
      | handingBack lock items => exact hf.elim
      | discarding g entry => exact hf.elim
      | _ => exact absurd rfl hsimple

theorem Acts.mono {may may' : Call → Prop} (hmay : ∀ call, may call → may' call) {m m' : Machine}
    (h : m.Acts may m') : m.Acts may' m' := by
  -- what may be asked for stands in two of the cases only
  cases h with
  | rests => exact .rests _
  | moves htop h => exact .moves htop (h.mono hmay)
  | takes hid hnext => exact .takes hid hnext
  | closes hid hnext => exact .closes hid hnext
  | unwinds hid => exact .unwinds hid
  | handsBack hid => exact .handsBack hid
  | discards hid => exact .discards hid
  | leaves hf hout => exact .leaves hf hout
  | joins reply => exact .joins reply

/-- A transition does nothing else. -/
theorem acts {m m' : Machine} (h : m.Ok) (hn : Next m m') : m.Acts (m.Calls m') m' := by
  cases hn with
  | step =>
    -- a step does what the frame on top does with what is passed to it
    obtain ⟨w, frames, control⟩ := m
    cases frames with
    | nil => exact .rests _
    | cons f below =>
      cases control with
      | aborted => exact .rests _
      | returned reply => exact Acts.mono (fun _ hcall => .step hcall) h.acts_returned
      | unwinding fault => exact h.acts_unwinding _
  | @call w control a hcontrol =>
    have hdeals := (World.deals_perform h.world {} a).mono fun _ hcall => Calls.call hcontrol hcall
    exact .moves (t := none) (by simp) hdeals

end Ok

theorem Reachable.acts {m m' : Machine} (h : m.Reachable) (hn : Next m m') :
    m.Acts (m.Calls m') m' :=
  h.exists_ledger.1.acts hn

end FairLock.Machine
