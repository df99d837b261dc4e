import FairLock.Proofs.Rejection
import FairLock.Proofs.Working

/-!
# Redundant releases

A capability stays where it is when its grant is released, so it can be released again; and a grant
may have ended in another way before it is released.  Only the first end counts: every later release
is answered with no, is counted, and changes nothing else.  So it may as well not be made.

## Main definitions

- `World.ReleasesAgain`: a release of a grant that has ended, and what it leaves behind.

## Main statements

- `World.ReleasesAgain.comesBack`: that it leaves nothing else behind.
- `Machine.Releases.not_again`: of all transitions of a run one at most ends a grant.
- `redundant_releases_erasable`: no grant ends twice, a release tells whether it was the end, and
  nothing else depends on the releases that were not.
-/

namespace FairLock

/-- What the release of a grant that has ended leaves behind: it is counted, it is reported, and
    the answer is no. -/
def Vestige.redundancy (g : Grant) (entered : List Grant) : Vestige where
  lock := g.lock
  tally := { redundant := 1 }
  word := "release"
  lines := [.notice (.redundant g) entered]
  reply := .flag false

namespace World

variable {w : World} {context : Context} {cap : CapRef} {place : Place} {g : Grant}

/-- A release, in a world, of a grant that has ended there. -/
inductive ReleasesAgain (w : World) (context : Context) : Action → Vestige → Prop where
  | release {cap : CapRef} {place : Place} {g : Grant}
      (hcap : w.locate context cap = some (place, g)) (hended : w.isUnended g = false) :
      ReleasesAgain w context (.release cap) (.redundancy g w.entered)

/-- A grant that has not ended is released for the first time. -/
theorem releasesAgain_iff (hcap : w.locate context cap = some (place, g)) :
    (∃ v, w.ReleasesAgain context (.release cap) v) ↔ w.isUnended g = false := by
  constructor
  · rintro ⟨v, hv⟩
    cases hv with
    | release hagain hended =>
      rw [hcap] at hagain
      cases hagain
      exact hended
  · intro hended
    exact ⟨_, .release hcap hended⟩

/-- A release answers whether the grant had not ended before. -/
theorem release_snd (w : World) (g : Grant) : (w.release g).2 = w.isUnended g := by
  unfold release
  split <;> simp_all

theorem release_eq_leave (hended : w.isUnended g = false) :
    (w.release g).1 = { world := w.leave (.redundancy g w.entered) } := by
  -- setting the counter of a lock that is not there does nothing, and neither does raising it
  have hset : w.locks.set g.lock (w.lock g.lock).countRedundant =
      w.locks.modify g.lock fun l => l.raised { redundant := 1 } := by
    rw [List.modify_eq_set_getElem?]
    cases hget : w.locks[g.lock]? with
    | none => exact List.set_eq_of_length_le (List.getElem?_eq_none_iff.1 hget)
    | some l =>
      simp [lock, List.getD_eq_getElem?_getD, hget, Lock.raised, Lock.countRedundant,
        Stats.raised, Stats.countRedundant]
  simp only [release, hended, Bool.false_eq_true, ↓reduceIte, leave, Vestige.redundancy, ← hset]
  rfl

/-- A release of a grant that has ended leaves nothing else behind. -/
theorem ReleasesAgain.comesBack {a : Action} {v : Vestige} (h : w.ReleasesAgain context a v) :
    w.ComesBack context a v := by
  cases h with
  | @release cap place g hcap hended =>
    refine ⟨rfl, ?_⟩
    intro below
    -- the release only answers, so one step leads back
    have hperform : w.perform context (.release cap) =
        { world := w.leave (.redundancy g w.entered), frames := [.answering (.flag false)] } := by
      simp only [perform, withCapability, hcap, release_snd, release_eq_leave hended, hended]
      rfl
    rw [hperform]
    exact .step (.answering _) [] rfl (.here _)

end World

namespace Machine

variable {m m' x y : Machine} {w : World} {g : Grant}

/-- A grant that a transition has ended is ended by no later one. -/
theorem Releases.not_again (h : m.Reachable) (hnext : m.Next m') (hends : m.Releases m' g)
    (hlater : Reaches m' x) : ¬x.Releases y g := by
  intro hagain
  have hreachable : m'.Reachable := h.reaches (.single hnext)
  exact hagain.1 (hreachable.mem_occurrences hlater hends.2)

/-- A release is answered with no if and only if its grant has ended before. -/
theorem Begins.release_again_iff {context : Context} {cap : CapRef} {place : Place}
    (hcap : w.locate context cap = some (place, g))
    (hx : (ofMove (w.perform context (.release cap)) x.frames).ComesTo x) {reply : Reply}
    (hreply : x.control = .returned reply) :
    reply = .flag false ↔ ∃ v, w.ReleasesAgain context (.release cap) v := by
  have hframes : (ofMove (w.perform context (.release cap)) x.frames).frames =
      (w.release g).1.frames ++ .answering (.flag (w.release g).2) :: x.frames := by
    simp [World.perform, World.withCapability, hcap, ofMove, Move.answering]
  -- the frame that answers is what the call comes back to
  have hanswer := hx.answering hframes ⟨_, hreply⟩
  rw [hreply, World.release_snd] at hanswer
  rw [Control.returned.inj hanswer, World.releasesAgain_iff hcap]
  simp

/-- The release at the end of the work of a future always ends its grant. -/
theorem Reachable.releases_of_worked {name : String} {work : Work} {last : Option String}
    {below : List Frame} {reply : Reply}
    (h : Reachable ⟨w, .working name work g last [] :: below, .returned reply⟩) :
    Releases ⟨w, .working name work g last [] :: below, .returned reply⟩
      (step ⟨w, .working name work g last [] :: below, .returned reply⟩) g := by
  have hquits : Quits name work g ⟨w, .working name work g last [] :: below, .returned reply⟩
      (step ⟨w, .working name work g last [] :: below, .returned reply⟩) := .completed
  exact ⟨hquits.works.not_ended h, hquits.ended h⟩

/-- Lines that say nothing about requests and grants change nothing that is said of them. -/
theorem Without.sameGrants {gone : List Vestige} (h : m.Without gone m')
    (hlines : ∀ v ∈ gone, Ledger.Issues v.lines []) (id : LockId) :
    SameGrants (m.world.journal id) (m'.world.journal id) := by
  have hsame : ∀ {pick : Event → Option Grant},
      (∀ tag word reply, pick (.acted tag word reply) = none) →
      (∀ v ∈ gone, occurrences pick v.lines = []) →
      occurrences pick (m.world.journal id) = occurrences pick (m'.world.journal id) := by
    -- what an omitted call reports says nothing that the journal would pick
    intro pick hacted hsilent
    refine h.occurrences_eq hacted ?_ id
    intro v hv e he
    cases hpick : pick e with
    | none => rfl
    | some g =>
      have hg : g ∈ occurrences pick v.lines := mem_occurrences.2 ⟨e, he, hpick⟩
      rw [hsilent v hv] at hg
      cases hg
  exact
    { accepted := hsame (fun _ _ _ => rfl) fun v hv => (hlines v hv).accepted
      issued := hsame (fun _ _ _ => rfl) fun v hv => (hlines v hv).issued
      ended := hsame (fun _ _ _ => rfl) fun v hv => (hlines v hv).ended
      started := hsame (fun _ _ _ => rfl) fun v hv => (hlines v hv).started
      handedBack := hsame (fun _ _ _ => rfl) fun v hv => (hlines v hv).handedBack }

end Machine

/-- Whoever ends a grant, by a release, by dropping its capability, by containing the failure of its
    entry point or by handing it back, it ends once at most.  A release answers whether it was the
    end; it is answered with no if and only if the grant has ended before.  The release at the end
    of the work of a future always is the end.

    Take a run and the same run without any of the releases that are answered with no in it, at top
    level, in entry points, in started threads, or in the work of a future.  At every moment the
    machine of the second differs from that of the first in nothing but this: the counters of
    redundant releases are lower by the number of omitted calls, and so is every answer with
    counters; and the lines of the omitted calls, with the answers to them, are missing from the
    history.  So on every lock the state, the queue and the number of the next grant are the same,
    the same grants are held, the run lists hold the same, and the same requests are accepted and
    the same grants issued, ended, started and handed back in the same order. -/
theorem redundant_releases_erasable :
    (∀ {m : Machine} {g : Grant}, m.Reachable → (m.world.journal g.lock).ended.count g ≤ 1 ∧
      ∀ {m' x y : Machine}, m.Next m' → m.Releases m' g → Machine.Reaches m' x →
        ¬x.Releases y g) ∧
    (∀ {m x : Machine} {w : World} {context : Context} {cap : CapRef} {place : Place} {g : Grant}
        {below : List Frame} {reply : Reply},
      m.Reachable → m.Begins w context (.release cap) below →
      w.locate context cap = some (place, g) →
      (Machine.ofMove (w.perform context (.release cap)) below).ComesTo x → x.frames = below →
      x.control = .returned reply →
        reply = .flag (decide
          (m.Releases (Machine.ofMove (w.perform context (.release cap)) below) g)) ∧
        (reply = .flag false ↔ ∃ v, w.ReleasesAgain context (.release cap) v)) ∧
    (∀ {w : World} {name : String} {work : Work} {g : Grant} {last : Option String}
        {below : List Frame} {reply : Reply},
      Machine.Reachable ⟨w, .working name work g last [] :: below, .returned reply⟩ →
        Machine.Releases ⟨w, .working name work g last [] :: below, .returned reply⟩
          (Machine.step ⟨w, .working name work g last [] :: below, .returned reply⟩) g) ∧
    (∀ {gone : List Vestige} {m m' : Machine}, Machine.Omits World.ReleasesAgain gone m m' →
      m.Without gone m' ∧
        (∀ id < m.world.locks.length, m.world.lock id =
          { m'.world.lock id with
            stats :=
              { (m'.world.lock id).stats with
                redundantReleases := (m'.world.lock id).stats.redundantReleases +
                  gone.countP fun v => v.lock = id } }) ∧
        ∀ id, SameGrants (m.world.journal id) (m'.world.journal id)) := by
  refine ⟨?once, ?answer, Machine.Reachable.releases_of_worked, ?omitted⟩
  case once =>
    intro m g h
    -- the ended grants of a lock differ, so none ends twice
    refine ⟨List.nodup_iff_count_le_one.1 (h.balanced g.lock).endedOnce g, ?_⟩
    intro m' x y hnext hends hlater
    exact hends.not_again h hnext hlater
  case answer =>
    intro m x w context cap place g below reply h hbegins hcap hx hbelow hreply
    subst hbelow
    refine ⟨?_, Machine.Begins.release_again_iff hcap hx hreply⟩
    have hanswer := hbegins.release_answers h hcap hx ⟨_, hreply⟩
    exact Control.returned.inj (hreply.symm.trans hanswer)
  case omitted =>
    intro gone m m' h
    have hwithout := h.without World.ReleasesAgain.comesBack
    -- only releases of ended grants were omitted
    have hkind : ∀ v ∈ gone, ∃ g entered, v = .redundancy g entered := by
      intro v hv
      obtain ⟨w, context, a, hagain⟩ := h.exists_of_mem hv
      cases hagain
      exact ⟨_, _, rfl⟩
    refine ⟨hwithout, ?_, hwithout.sameGrants ?_⟩
    -- each of them raised the one counter by one, so the counters differ by their number
    · intro id hid
      have htally : ∀ v ∈ gone, v.tally = { redundant := 1 } := by
        intro v hv
        obtain ⟨g, entered, rfl⟩ := hkind v hv
        rfl
      rw [hwithout.lock_eq hid, tallies_of_alike htally]
      simp [Tally.times, Lock.raised, Stats.raised]
    · intro v hv
      obtain ⟨g, entered, rfl⟩ := hkind v hv
      exact ⟨rfl, rfl, rfl, rfl, rfl, rfl, rfl⟩

/-! ## A writer that releases twice -/

/-- A writer releases its grant twice, and looks at the counters; after that a future does its work
    as a reader. -/
def releasedTwice : Action :=
  .guard (.actions
    [.submit 0 .write "writer" (.actions [.release .own, .release .own, .stats 0]) .done false,
     .run 0 .read "reader" (.actions []) .null, .poll "reader"])

/-- The machine that performs this on one lock, after some steps. -/
def releasedTwiceAfter (n : Nat) : Machine :=
  Machine.step^[n] (Machine.begin (World.initial [{}] []) releasedTwice)

theorem reachable_releasedTwiceAfter (n : Nat) : (releasedTwiceAfter n).Reachable :=
  Machine.reachable_iterate _ _ _ n

theorem redundant_releases_erasable_releasedTwice :
    ((releasedTwiceAfter 1).Releases (releasedTwiceAfter 2) ⟨0, 1, .write⟩ ∧
      ¬(releasedTwiceAfter 3).Releases (releasedTwiceAfter 4) ⟨0, 1, .write⟩) ∧
    ((releasedTwiceAfter 5).control = .returned (.flag false) ∧
      decide ((releasedTwiceAfter 3).Releases (releasedTwiceAfter 4) ⟨0, 1, .write⟩) = false) ∧
    (releasedTwiceAfter 17).Releases (releasedTwiceAfter 18) ⟨0, 2, .read⟩ ∧
    ∃ (w w' : World) (v : Vestige),
      Machine.Omits World.ReleasesAgain [v] ⟨w, [], .returned .ok⟩ ⟨w', [], .returned .ok⟩ ∧
      v = .redundancy ⟨0, 1, .write⟩ [⟨0, 1, .write⟩] ∧
      (w.lock 0).stats.redundantReleases = (w'.lock 0).stats.redundantReleases + 1 ∧
      (w.lock 0).core = (w'.lock 0).core ∧ SameGrants (w.journal 0) (w'.journal 0) := by
  obtain ⟨honce, hanswer, hworked, homitted⟩ := redundant_releases_erasable
  have hnext : ∀ n, (releasedTwiceAfter n).Next (releasedTwiceAfter (n + 1)) := by
    intro n
    rw [releasedTwiceAfter, releasedTwiceAfter, Function.iterate_succ_apply']
    exact .step _
  have hends : (releasedTwiceAfter 1).Releases (releasedTwiceAfter 2) ⟨0, 1, .write⟩ := by decide
  -- from the end of the grant to the second release is one step
  have hlater : Machine.Reaches (releasedTwiceAfter 2) (releasedTwiceAfter 3) := .single (hnext 2)
  have hbegins : (releasedTwiceAfter 3).Begins _ ⟨"writer", some ⟨0, 1, .write⟩, false⟩
      (.release .own) _ := .action
  have hagain : ((releasedTwiceAfter 3).world.logReply ⟨"writer", some ⟨0, 1, .write⟩, false⟩
      (some "release") (.flag true)).ReleasesAgain ⟨"writer", some ⟨0, 1, .write⟩, false⟩
      (.release .own) (.redundancy ⟨0, 1, .write⟩ [⟨0, 1, .write⟩]) :=
    @World.ReleasesAgain.release _ _ .own .owned _ rfl rfl
  have hcall := hagain.comesBack.comesTo
  have hrefused := hanswer (reachable_releasedTwiceAfter 3) hbegins rfl (hcall _) rfl rfl
  -- the first run makes the call, and both go on alike for as long as is asked
  have hrun := (Machine.Omits.pass (.start (releasedTwiceAfter 3)) hbegins hagain (hcall _)
    rfl).follow (List.replicate 16 none)
  obtain ⟨-, hlocks, hsame⟩ := homitted hrun
  have hlock := hlocks 0 (by decide)
  refine ⟨⟨hends, ?_⟩, ⟨rfl, ?_⟩, hworked (reachable_releasedTwiceAfter 17), ?_⟩
  · exact (honce (reachable_releasedTwiceAfter 1)).2 (hnext 1) hends hlater
  · exact Reply.flag.inj hrefused.1.symm
  · exact ⟨_, _, _, hrun, rfl, congrArg (·.stats.redundantReleases) hlock,
      congrArg (·.core) hlock, hsame 0⟩

end FairLock
