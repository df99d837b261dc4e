import FairLock.Proofs.Echo.Lock
import FairLock.Proofs.Journal
import FairLock.Proofs.Machine.Refused
import FairLock.Proofs.Machine.Stored

/-!
# The worlds of two sides

The world of the joint run holds what belongs to both sides, and each side has a world of its own in
which it is alone.  What belongs to a side is in both worlds alike, and the history of the joint run
is put together from those of the sides.

## Main definitions

- `Event.Echoes`: an event of a side, and the same event in the run of that side alone.
- `Merges`: a history that is put together from two.
- `Mirrors`: what belongs to a side is alike in two worlds.
- `Echoes`: the world of the joint run and those of both sides.

## Main statements

- `Echoes.setLock` and its companions: one lemma for each change of a component.
- `Echoes.swap`: the other side comes to move.
-/

namespace FairLock

/-! ## Histories -/

/-- An event of a side, and the same event in the run of that side alone.  The spans that are
    entered and the running thread may be others; and what is done at top level alone may be done
    on behalf of an entry point of the other side. -/
inductive Event.Echoes (s : Sides) (x : Side) : Event → Event → Prop where
  | notice {n : Notice} (entered entered' : List Grant) (hn : s.lock n.lock = x) :
      Event.Echoes s x (.notice n entered) (.notice n entered')
  | issued {g : Grant} (parent parent' : Option Grant) (hg : s.lock g.lock = x) :
      Event.Echoes s x (.issued g parent) (.issued g parent')
  | started {g : Grant} (thread thread' : ThreadId) (shown : Option (String × Option State))
      (hg : s.lock g.lock = x) :
      Event.Echoes s x (.started g thread shown) (.started g thread' shown)
  | ended (tag : String) : Event.Echoes s x (.ended tag) (.ended tag)
  | discarded {g : Option Grant} (tag : Option String) (hg : ∀ g' ∈ g, s.lock g'.lock = x) :
      Event.Echoes s x (.discarded g tag) (.discarded g tag)
  | acted {tag tag' : String} (htag : tag' = tag ∨ tag' = "") (word : String) (r : Reply) :
      Event.Echoes s x (.acted tag word r) (.acted tag' word (r.alone s x))
  | logged {tag tag' : String} (htag : tag' = tag ∨ tag' = "") (message : Json) :
      Event.Echoes s x (.logged tag message) (.logged tag' message)
  | woken (future : String) : Event.Echoes s x (.woken future) (.woken future)
  | workStarted (future : String) : Event.Echoes s x (.workStarted future) (.workStarted future)
  | workDropped (future : String) : Event.Echoes s x (.workDropped future) (.workDropped future)

/-- A history of the joint run, that of a side alone, and that of the other side alone.  In every
    run the locks have been created before.  From then on every event of the joint run is one of
    either side, and nothing is missing; only the answer to an operation of the inner side may be
    logged by a list of the outer one in which it stands. -/
inductive Merges (s : Sides) (x : Side) : List Event → List Event → List Event → Prop where
  | created {past : List Event} (hpast : ∀ e ∈ past, ∃ id, e = .notice (.created id) []) :
      Merges s x past past past
  | own {e e' : Event} {h k l : List Event} (he : e.Echoes s x e') (hrest : Merges s x h k l) :
      Merges s x (e :: h) (e' :: k) l
  | other {e e' : Event} {h k l : List Event} (he : e.Echoes s x.other e')
      (hrest : Merges s x h k l) : Merges s x (e :: h) k (e' :: l)
  | answer {op : Action} {h k l : List Event} (hop : s.block op) (tag : String) (r : Reply)
      (hrest : Merges s x h k l) : Merges s x (.acted tag op.word r :: h) k l

theorem Merges.swap {s : Sides} {x : Side} {h k l : List Event} (hm : Merges s x h k l) :
    Merges s x.other h l k := by
  induction hm with
  | created hpast => exact .created hpast
  | own he _ ih => exact .other (by rwa [Side.other_other]) ih
  | other he _ ih => exact .own he ih
  | answer hop tag r _ ih => exact .answer hop tag r ih

/-! ## Futures -/

section Relations

variable (s : Sides) (x : Side) (p : Pairing)

/-- A channel of a side. -/
inductive Channel.Echoes : Channel → Channel → Prop where
  | «open» (waker : Option String) : Channel.Echoes (.open waker) (.open waker)
  | sent {g : Grant} (hg : s.lock g.lock = x) : Channel.Echoes (.sent g) (.sent g)
  | abandoned : Channel.Echoes .abandoned .abandoned
  | taken : Channel.Echoes .taken .taken
  | gone : Channel.Echoes .gone .gone

/-- A piece of work of a side. -/
structure Work.Echoes (work work' : Work) : Prop where
  side : s.lock work.lock = x
  lock : work'.lock = work.lock
  mode : work'.mode = work.mode
  body : work.body.Echoes s x ⟨true, true⟩ work'.body
  output : work'.output = work.output

/-- How far a future of a side has come. -/
inductive Stage.Echoes : Stage → Stage → Prop where
  | unstarted : Stage.Echoes .unstarted .unstarted
  | waiting {c c' : ChannelId} (hc : p.channel c c') : Stage.Echoes (.waiting c) (.waiting c')
  | working {g : Grant} {reach : Reach} {rest rest' : List Action} (hg : s.lock g.lock = x)
      (hrest : Strips s x reach rest rest') : Stage.Echoes (.working g rest) (.working g rest')

/-- A future of a side. -/
inductive Future.Echoes : Future → Future → Prop where
  | accepted {c c' : ChannelId} (hc : p.channel c c') :
      Future.Echoes (.acquire (.accepted c)) (.acquire (.accepted c'))
  | refused (failure : Option Failure) :
      Future.Echoes (.acquire (.refused failure)) (.acquire (.refused failure))
  | run {work work' : Work} {stage stage' : Stage} (hwork : work.Echoes s x work')
      (hstage : stage.Echoes s x p stage') :
      Future.Echoes (.run work stage) (.run work' stage')

/-! ## Worlds -/

/-- What is kept under a name of a side is the same capability of the side in both runs, if any. -/
structure Kept.Echoes (found found' : Option Grant) : Prop where
  same : found' = found
  side : ∀ g, found = some g → s.lock g.lock = x

/-- What belongs to a side is alike in the joint run and in the run of that side alone. -/
structure Mirrors (w v : World) : Prop where
  locks : v.locks.length = w.locks.length
  lock : ∀ id, s.lock id = x → (w.lock id).Echoes s x p (v.lock id)
  handles : v.handles.length = s.number x w.handles.length
  handle : ∀ n, s.handle n = x → v.lockOf? (s.number x n) = w.lockOf? n
  procedures : Procedures s x w.procedures v.procedures
  store : ∀ name, s.name name = x → Kept.Echoes s x (w.store.get? name) (v.store.get? name)
  owned : ∀ g, s.lock g.lock = x → v.owned.count g = w.owned.count g
  channels : Pairs p.channel w.channels.length v.channels.length
  channel : ∀ {c c'}, p.channel c c' → (w.channel c).Echoes s x (v.channel c')
  future : ∀ name, s.name name = x →
    Option.Rel (fun f f' : Future => f.Echoes s x p f') (w.futures.get? name)
      (v.futures.get? name)
  count : ∀ key, s.counter key = x → v.countOf key = w.countOf key
  threads : Pairs p.thread w.threads v.threads

end Relations

/-- The handles of the joint run mean the locks of the sides whose handles they are. -/
structure Sides.Assigns (s : Sides) (w : World) : Prop where
  shared : s.shared ≤ w.handles.length
  handle : ∀ n id, w.lockOf? n = some id → s.lock id = s.handle n

/-- The world of the joint run, that of the side that is on the move, and that of the other side. -/
structure Echoes (s : Sides) (x : Side) (p q : Pairing) (w v u : World) : Prop where
  own : Mirrors s x p w v
  other : Mirrors s x.other q w u
  apart : ∀ {c c' d'}, p.channel c c' → q.channel c d' → False
  running : p.thread w.thread v.thread
  assigns : s.Assigns w
  told : Merges s x w.history v.history u.history

section Lemmas

variable {s : Sides} {x : Side} {p p' q : Pairing} {w v u : World}

/-- A channel of a side is the same in both runs. -/
theorem Channel.Echoes.same {c c' : Channel} (h : c.Echoes s x c') :
    c' = c ∧ ∀ g, c = .sent g → s.lock g.lock = x := by
  -- only a sent capability names a lock, and that is one of this side
  cases h with
  | @sent g hg =>
    refine ⟨rfl, ?_⟩
    rintro g' hg'
    cases hg'
    exact hg
  | _ => exact ⟨rfl, fun g hg => by cases hg⟩

section Channels

variable (hchannels : ∀ {c c'}, p.channel c c' → p'.channel c c')
include hchannels

theorem Stage.Echoes.mono {stage stage' : Stage} (h : stage.Echoes s x p stage') :
    stage.Echoes s x p' stage' := by
  cases h with
  | unstarted => exact .unstarted
  | waiting hc => exact .waiting (hchannels hc)
  | working hg hrest => exact .working hg hrest

theorem Future.Echoes.mono {f f' : Option Future}
    (h : Option.Rel (fun f f' : Future => f.Echoes s x p f') f f') :
    Option.Rel (fun f f' : Future => f.Echoes s x p' f') f f' := by
  cases h with
  -- a stored future looks at the pairs through its channel
  | none => exact .none
  | some h =>
    cases h with
    | accepted hc => exact .some (.accepted (hchannels hc))
    | refused failure => exact .some (.refused failure)
    | run hwork hstage => exact .some (.run hwork (hstage.mono hchannels))

end Channels

theorem Grant.apart {g g' : Grant} (hg : s.lock g.lock = x) (hg' : s.lock g'.lock = x.other) :
    g' ≠ g := by
  rintro rfl
  exact x.other_ne (hg'.symm.trans hg)

section Tables

variable {α : Type} {side : String → Side} {t t' : Table α} {R : Option α → Option α → Prop}
  {name : String}

/-- What stands under the names of a side stays alike in two tables when something is put under one
    name in both. -/
theorem Table.alike_put (h : ∀ other, side other = x → R (t.get? other) (t'.get? other)) {a a' : α}
    (ha : R (some a) (some a')) (other : String) (hother : side other = x) :
    R ((t.put name a).get? other) ((t'.put name a').get? other) := by
  by_cases hsame : other = name
  · rw [hsame, Table.get?_put_self, Table.get?_put_self]
    exact ha
  · rw [Table.get?_put_of_ne hsame, Table.get?_put_of_ne hsame]
    exact h other hother

theorem Table.alike_remove (h : ∀ other, side other = x → R (t.get? other) (t'.get? other))
    (hnone : R none none) (other : String) (hother : side other = x) :
    R ((t.remove name).get? other) ((t'.remove name).get? other) := by
  by_cases hsame : other = name
  · rw [hsame, Table.get?_remove_self, Table.get?_remove_self]
    exact hnone
  · rw [Table.get?_remove_of_ne hsame, Table.get?_remove_of_ne hsame]
    exact h other hother

/-- It stays alike as well when something is put under a name of the other side in one table. -/
theorem Table.alike_put_apart (hname : side name = x)
    (h : ∀ other, side other = x.other → R (t.get? other) (t'.get? other)) (a : α)
    (other : String) (hother : side other = x.other) :
    R ((t.put name a).get? other) (t'.get? other) := by
  rw [Table.get?_put_of_ne (Side.apart hname hother)]
  exact h other hother

theorem Table.alike_remove_apart (hname : side name = x)
    (h : ∀ other, side other = x.other → R (t.get? other) (t'.get? other)) (other : String)
    (hother : side other = x.other) : R ((t.remove name).get? other) (t'.get? other) := by
  rw [Table.get?_remove_of_ne (Side.apart hname hother)]
  exact h other hother

end Tables

/-- A new handle changes what no other number means. -/
theorem World.lockOf?_append_of_ne {handle : Option LockId} {n : Nat} (hn : n ≠ w.handles.length) :
    ({ w with handles := w.handles ++ [handle] } : World).lockOf? n = w.lockOf? n := by
  unfold World.lockOf?
  -- below the end of the list nothing has changed, and above it there is nothing
  rcases Nat.lt_or_gt_of_ne hn with hlt | hgt
  · simp only [List.getElem?_append_left hlt]
  · have hnone : w.handles[n]? = none := List.getElem?_eq_none (Nat.le_of_lt hgt)
    have hnone' : (w.handles ++ [handle])[n]? = none := by
      refine List.getElem?_eq_none ?_
      simpa using Nat.succ_le_of_lt hgt
    simp only [hnone, hnone']

namespace Echoes

/-- The other side comes to move, on a thread that it knows. -/
theorem swap (h : Echoes s x p q w v u) (hrunning : q.thread w.thread u.thread) :
    Echoes s x.other q p w u v where
  own := h.other
  other := by
    rw [Side.other_other]
    -- the sides change places, so that what was the other one is now the one that moves
    exact h.own
  apart hc hd := h.apart hd hc
  running := hrunning
  assigns := h.assigns
  told := h.told.swap

variable (h : Echoes s x p q w v u)
include h

/-! ### Looking -/

/-- The lock behind a handle of the side belongs to the side, and is the same in both runs. -/
theorem lockOf? {n : Nat} (hn : s.handle n = x) :
    v.lockOf? (s.number x n) = w.lockOf? n ∧ ∀ id, w.lockOf? n = some id → s.lock id = x :=
  ⟨h.own.handle n hn, fun id hid => (h.assigns.handle n id hid).trans hn⟩

theorem stateOf? {n : Nat} (hn : s.handle n = x) :
    v.stateOf? (s.number x n) = w.stateOf? n := by
  obtain ⟨hsame, hside⟩ := h.lockOf? hn
  unfold World.stateOf?
  rw [hsame]
  cases hid : w.lockOf? n with
  | none => rfl
  | some id => exact congrArg some (h.own.lock id (hside id hid)).state

theorem isUnended {g : Grant} (hg : s.lock g.lock = x) : v.isUnended g = w.isUnended g :=
  (h.own.lock g.lock hg).isUnended g.id

theorem contains {g : Grant} (hg : s.lock g.lock = x) :
    v.owned.contains g = w.owned.contains g := by
  rw [Bool.eq_iff_iff, List.contains_iff_mem, List.contains_iff_mem, ← List.count_pos_iff,
    ← List.count_pos_iff, h.own.owned g hg]

/-! ### What is recorded -/

theorem emit {e e' : Event} (he : e.Echoes s x e') :
    Echoes s x p q (w.emit e) (v.emit e') u :=
  { h with
    own := { h.own with }
    other := { h.other with }
    assigns := ⟨h.assigns.shared, h.assigns.handle⟩
    told := .own he h.told }

theorem notify (n : Notice) (hn : s.lock n.lock = x) :
    Echoes s x p q (w.notify n) (v.notify n) u :=
  h.emit (.notice _ _ hn)

/-- The joint run logs the answer to an operation of the inner side that stands in a list. -/
theorem answer {op : Action} (hop : s.block op) (tag : String) (r : Reply) :
    Echoes s x p q (w.emit (.acted tag op.word r)) v u :=
  { h with
    own := { h.own with }
    other := { h.other with }
    assigns := ⟨h.assigns.shared, h.assigns.handle⟩
    told := .answer hop tag r h.told }

/-- The spans that are entered do not matter. -/
theorem enter (entered entered' : List Grant) :
    Echoes s x p q { w with entered := entered } { v with entered := entered' } u :=
  { h with
    own := { h.own with }
    other := { h.other with }
    assigns := ⟨h.assigns.shared, h.assigns.handle⟩ }

/-- Nor do the grants that have leaked. -/
theorem leak (leaked leaked' : List Grant) :
    Echoes s x p q { w with leaked := leaked } { v with leaked := leaked' } u :=
  { h with
    own := { h.own with }
    other := { h.other with }
    assigns := ⟨h.assigns.shared, h.assigns.handle⟩ }

/-! ### Changes -/

theorem setLock {id : LockId} (hid : s.lock id = x) {l l' : Lock Entry}
    (hl : l.Echoes s x p l') : Echoes s x p q (w.setLock id l) (v.setLock id l') u :=
  { h with
    own := { h.own with
      locks := by simp [h.own.locks]
      lock := by
        intro other hother
        -- the lock that is set, if it is there, and any other lock of the side
        by_cases hsame : id = other
        · subst hsame
          by_cases hlt : id < w.locks.length
          · rw [World.lock_setLock_self hlt, World.lock_setLock_self (h.own.locks ▸ hlt)]
            exact hl
          · have hnone := h.own.lock id hid
            have hle : w.locks.length ≤ id := Nat.le_of_not_lt hlt
            rw [World.setLock, World.setLock, List.set_eq_of_length_le hle,
              -- on a lock that is not there nothing is set
              List.set_eq_of_length_le (h.own.locks ▸ hle)]
            exact hnone
        · rw [World.lock_setLock_of_ne hsame, World.lock_setLock_of_ne hsame]
          exact h.own.lock other hother }
    other := { h.other with
      locks := by simp [h.other.locks]
      lock := by
        -- a lock of the other side is another lock
        intro other hother
        rw [World.lock_setLock_of_ne (Side.apart hid hother).symm]
        exact h.other.lock other hother }
    assigns := ⟨h.assigns.shared, h.assigns.handle⟩ }

/-- An entry point gets its capability. -/
theorem own_cons {g : Grant} (hg : s.lock g.lock = x) :
    Echoes s x p q { w with owned := g :: w.owned } { v with owned := g :: v.owned } u :=
  { h with
    own := { h.own with
      owned := by
        intro other hother
        rw [List.count_cons, List.count_cons, h.own.owned other hother] }
    other := { h.other with
      owned := by
        intro other hother
        -- a grant of the other side is another grant, so it is counted as before
        rw [List.count_cons_of_ne (Grant.apart hg hother).symm]
        exact h.other.owned other hother }
    assigns := ⟨h.assigns.shared, h.assigns.handle⟩ }

/-- The capability of an entry point is taken from it. -/
theorem own_erase {g : Grant} (hg : s.lock g.lock = x) :
    Echoes s x p q { w with owned := w.owned.erase g } { v with owned := v.owned.erase g } u :=
  { h with
    own := { h.own with
      owned := by
        intro other hother
        rw [List.count_erase, List.count_erase, h.own.owned other hother] }
    other := { h.other with
      owned := by
        intro other hother
        rw [List.count_erase_of_ne (Grant.apart hg hother)]
        -- the one that is taken is of this side, and the others are counted as before
        exact h.other.owned other hother }
    assigns := ⟨h.assigns.shared, h.assigns.handle⟩ }

theorem put_store {name : String} (hname : s.name name = x) {g : Grant} (hg : s.lock g.lock = x) :
    Echoes s x p q { w with store := w.store.put name g } { v with store := v.store.put name g }
      u := by
  have hkept : Kept.Echoes s x (some g) (some g) := by
    refine ⟨rfl, ?_⟩
    rintro g' ⟨⟩
    exact hg
  exact { h with
    own := { h.own with store := Table.alike_put h.own.store hkept }
    other := { h.other with store := Table.alike_put_apart hname h.other.store g }
    assigns := ⟨h.assigns.shared, h.assigns.handle⟩ }

theorem remove_store {name : String} (hname : s.name name = x) :
    Echoes s x p q { w with store := w.store.remove name } { v with store := v.store.remove name }
      u :=
  { h with
    own := { h.own with store := Table.alike_remove h.own.store ⟨rfl, fun g hg => by cases hg⟩ }
    other := { h.other with store := Table.alike_remove_apart hname h.other.store }
    assigns := ⟨h.assigns.shared, h.assigns.handle⟩ }

theorem put_future {name : String} (hname : s.name name = x) {f f' : Future}
    (hf : f.Echoes s x p f') :
    Echoes s x p q { w with futures := w.futures.put name f }
      { v with futures := v.futures.put name f' } u :=
  { h with
    own := { h.own with future := Table.alike_put h.own.future (.some hf) }
    other := { h.other with future := Table.alike_put_apart hname h.other.future f }
    assigns := ⟨h.assigns.shared, h.assigns.handle⟩ }

theorem remove_future {name : String} (hname : s.name name = x) :
    Echoes s x p q { w with futures := w.futures.remove name }
      { v with futures := v.futures.remove name } u :=
  { h with
    own := { h.own with future := Table.alike_remove h.own.future .none }
    other := { h.other with future := Table.alike_remove_apart hname h.other.future }
    assigns := ⟨h.assigns.shared, h.assigns.handle⟩ }

theorem put_count {key : String} (hkey : s.counter key = x) (n : Nat) :
    Echoes s x p q { w with counts := w.counts.put key n } { v with counts := v.counts.put key n }
      u :=
  { h with
    own := { h.own with
      count := Table.alike_put (R := fun found found' => found'.getD 0 = found.getD 0)
        h.own.count rfl }
    other := { h.other with
      count := Table.alike_put_apart (R := fun found found' => found'.getD 0 = found.getD 0) hkey
        h.other.count n }
    assigns := ⟨h.assigns.shared, h.assigns.handle⟩ }

/-! ### Channels -/

theorem setChannel {c c' : ChannelId} (hc : p.channel c c') {ch ch' : Channel}
    (hch : ch.Echoes s x ch') :
    Echoes s x p q (w.setChannel c ch) (v.setChannel c' ch') u :=
  { h with
    own := { h.own with
      channels := by simpa [World.setChannel] using h.own.channels
      channel := by
        intro d d' hd
        obtain ⟨hlt, hlt'⟩ := h.own.channels.lt hc
        have hsame := h.own.channels.iff hc hd
        -- the channel that is set, whose twin is the one that is set with it, and any other
        by_cases hcd : c = d
        · obtain rfl := hcd
          obtain rfl := hsame.1 rfl
          simpa [World.setChannel, World.channel, hlt, hlt'] using hch
        · have hcd' : c' ≠ d' := fun e => hcd (hsame.2 e)
          simpa [World.setChannel, World.channel, List.getElem?_set_ne hcd,
            List.getElem?_set_ne hcd'] using h.own.channel hd }
    other := { h.other with
      channels := by simpa [World.setChannel] using h.other.channels
      channel := by
        intro d d' hd
        have hcd : c ≠ d := by
          rintro rfl
          -- a channel of the other side has another number
          exact h.apart hc hd
        simpa [World.setChannel, World.channel, List.getElem?_set_ne hcd]
          using h.other.channel hd }
    assigns := ⟨h.assigns.shared, h.assigns.handle⟩ }

/-- A new channel has the next number in both runs. -/
theorem newChannel :
    ∃ p', p.Le p' ∧ p'.channel w.newChannel.2 v.newChannel.2 ∧
      Echoes s x p' q w.newChannel.1 v.newChannel.1 u := by
  refine ⟨{ p with
    channel := fun c c' => p.channel c c' ∨ c = w.channels.length ∧ c' = v.channels.length },
    ⟨.inl, id⟩, .inr ⟨rfl, rfl⟩, ?_⟩
  have hle : p.Le { p with
    channel := fun c c' => p.channel c c' ∨ c = w.channels.length ∧ c' = v.channels.length } :=
    ⟨.inl, id⟩
  exact { h with
    own := { h.own with
      lock := fun id hid => (h.own.lock id hid).mono hle
      channels := by simpa [World.newChannel] using h.own.channels.next
      channel := by
        -- the pairs from before keep their numbers, and the new pair is past the ends
        rintro c c' (hc | ⟨rfl, rfl⟩)
        · obtain ⟨hlt, hlt'⟩ := h.own.channels.lt hc
          simpa [World.newChannel, World.channel, List.getElem?_append_left hlt,
            List.getElem?_append_left hlt'] using h.own.channel hc
        · simpa [World.newChannel, World.channel] using Channel.Echoes.open none
      future := fun name hname => Future.Echoes.mono hle.channel (h.own.future name hname) }
    other := { h.other with
      channels := by
        refine h.other.channels.mono ?_ (Nat.le_refl _)
        simp [World.newChannel]
      channel := by
        intro c c' hc
        have hlt := (h.other.channels.lt hc).1
        simpa [World.newChannel, World.channel, List.getElem?_append_left hlt]
          using h.other.channel hc }
    apart := by
      rintro c c' d' (hc | ⟨rfl, rfl⟩) hd
      · exact h.apart hc hd
      -- the other side has no channel past the end
      · exact absurd (h.other.channels.lt hd).1 (Nat.lt_irrefl _)
    assigns := ⟨h.assigns.shared, h.assigns.handle⟩ }

/-! ### Handles and threads -/

/-- A clone has the next number in both runs, if the number is one of the side. -/
theorem clone {lock : LockId} (hlock : s.lock lock = x)
    (hassigns : s.Assigns { w with handles := w.handles ++ [some lock] }) :
    Echoes s x p q { w with handles := w.handles ++ [some lock] }
        { v with handles := v.handles ++ [some lock] } u ∧
      v.handles.length = s.number x w.handles.length := by
  -- the new handle is assigned to the side of its lock
  have hnew : s.handle w.handles.length = x := by
    have hside := hassigns.handle w.handles.length lock (by simp [World.lockOf?])
    exact hside.symm.trans hlock
  refine ⟨{ h with
    own := { h.own with
      handles := by simp [h.own.handles, Sides.number_succ_own hnew]
      handle := by
        intro n hn
        -- the new number means the lock, and every older one what it meant
        by_cases hsame : n = w.handles.length
        · subst hsame
          simp [World.lockOf?, ← h.own.handles]
        · have hne : s.number x n ≠ v.handles.length := by
            rw [h.own.handles]
            exact fun e => hsame ((Sides.number_inj hn hnew).1 e)
          rw [World.lockOf?_append_of_ne hsame, World.lockOf?_append_of_ne hne, h.own.handle n hn] }
    other := { h.other with
      handles := by
        -- numbers of the other side are counted apart, and none of them is added
        have hne : s.handle w.handles.length ≠ x.other := hnew ▸ x.other_ne.symm
        rw [h.other.handles, List.length_append, List.length_singleton,
          Sides.number_succ_other h.assigns.shared hne]
      handle := by
        intro n hn
        rw [World.lockOf?_append_of_ne (Side.apart hnew hn)]
        exact h.other.handle n hn }
    assigns := hassigns }, h.own.handles⟩

theorem set_handle {n : Nat} (hn : s.handle n = x) :
    Echoes s x p q { w with handles := w.handles.set n none }
      { v with handles := v.handles.set (s.number x n) none } u :=
  { h with
    own := { h.own with
      handles := by simpa using h.own.handles
      handle := by
        intro m hm
        have hm' := h.own.handle m hm
        unfold World.lockOf? at hm' ⊢
        by_cases hsame : n = m
        · subst hsame
          simp only [List.getElem?_set_self']
          cases w.handles[n]? <;> cases v.handles[s.number x n]? <;> rfl
        -- another handle of the side has another number in the run alone
        · have hne : s.number x n ≠ s.number x m := fun e => hsame ((Sides.number_inj hn hm).1 e)
          simpa [List.getElem?_set_ne hsame, List.getElem?_set_ne hne] using hm' }
    other := { h.other with
      handles := by simpa using h.other.handles
      handle := by
        intro m hm
        rw [h.other.handle m hm]
        unfold World.lockOf?
        simp [List.getElem?_set_ne (Side.apart hn hm).symm] }
    assigns := by
      refine ⟨by simpa using h.assigns.shared, ?_⟩
      intro m id hid
      refine h.assigns.handle m id ?_
      -- the handle that is dropped means nothing any more, so it is assigned nothing wrong
      unfold World.lockOf? at hid ⊢
      by_cases hsame : n = m
      · subst hsame
        simp only [List.getElem?_set_self'] at hid
        cases hn : w.handles[n]? with
        | none => simp [hn] at hid
        | some handle => simp [hn] at hid
      · simpa [List.getElem?_set_ne hsame] using hid }

/-- A thread goes on that was waiting. -/
theorem join {thread thread' : ThreadId} (hthread : p.thread thread thread')
    (entered entered' : List Grant) :
    Echoes s x p q (w.join thread entered) (v.join thread' entered') u :=
  { h with
    own := { h.own with }
    other := { h.other with }
    running := hthread
    assigns := ⟨h.assigns.shared, h.assigns.handle⟩ }

/-- A new thread has the next number in both runs. -/
theorem newThread (entered entered' : List Grant) :
    ∃ p', p.Le p' ∧
      Echoes s x p' q
        { w with thread := w.threads, threads := w.threads + 1, entered := entered }
        { v with thread := v.threads, threads := v.threads + 1, entered := entered' } u := by
  have hle : p.Le { p with
      thread := fun t t' => p.thread t t' ∨ t = w.threads ∧ t' = v.threads } :=
    ⟨id, .inl⟩
  exact ⟨_, hle, { h with
    own := { h.own with
      lock := fun id hid => (h.own.lock id hid).mono hle
      future := fun name hname => Future.Echoes.mono hle.channel (h.own.future name hname)
      threads := h.own.threads.next }
    other := { h.other with
      threads := h.other.threads.mono (Nat.le_succ _) (Nat.le_refl _) }
    -- the new thread runs, in both runs under the number that is new there
    running := .inr ⟨rfl, rfl⟩
    assigns := ⟨h.assigns.shared, h.assigns.handle⟩ }⟩

end Echoes

end Lemmas

end FairLock
