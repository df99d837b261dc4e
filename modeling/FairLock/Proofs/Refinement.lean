import FairLock.Proofs.Reference

/-!
# A lock behaves like the plain model

The plain model and a lock are taken through the same operations.  An accepted request is numbered
by its place among the accepted ones, so the numbers of the model and the grants of the lock belong
together, and with them the two queues, what is held, and what is in the store.

## Main definitions

- `Course.Meets`: the model and the lock belong together.
- `Course.Stands`: a world has come to where the model is.

## Main statements

- `Course.Meets.granted`, `Course.Meets.queued`, `Course.Meets.rejected`, `Course.Meets.released`:
  what one operation of the lock preserves.
- `Course.Stands.step`: one operation of the machine.
- `Course.Stands.run`, `Course.Stands.releasesAll`: any number of them.
- `lock_refines_plain_model`.
-/

namespace FairLock

theorem Table.mem_put {β : Type} {t : Table β} {name : String} {value : β}
    (hfree : ∀ e ∈ t, e.1 ≠ name) (e : String × β) :
    e ∈ t.put name value ↔ e = (name, value) ∨ e ∈ t := by
  induction t with
  | nil => simp [put]
  -- the first entry has another name, so the new one is put somewhere behind it
  | cons entry rest ih =>
    have hne : entry.1 ≠ name := hfree entry List.mem_cons_self
    have hrest := ih fun e he => hfree e (List.mem_cons_of_mem _ he)
    unfold put
    rw [if_neg hne]
    split
    · simp
    · rw [List.mem_cons, hrest, List.mem_cons]
      exact or_left_comm

/-- Many values are put under names that are free and different. -/
theorem Table.mem_putAll {β : Type} {t : Table β} {entries : List (String × β)}
    (hnodup : (entries.map (·.1)).Nodup) (hfree : ∀ e ∈ t, ∀ e' ∈ entries, e.1 ≠ e'.1)
    (e : String × β) : e ∈ t.putAll entries ↔ e ∈ entries ∨ e ∈ t := by
  induction entries generalizing t with
  | nil => simp [putAll]
  | cons entry rest ih =>
    rw [List.map_cons, List.nodup_cons] at hnodup
    have hfirst : ∀ e' ∈ t, e'.1 ≠ entry.1 := fun e' he' => hfree e' he' entry List.mem_cons_self
    have hrest : ∀ e' ∈ t.put entry.1 entry.2, ∀ e'' ∈ rest, e'.1 ≠ e''.1 := by
      -- the name just put differs from those still to come
      intro e' he' e'' he''
      rcases (mem_put hfirst e').1 he' with rfl | he'
      · exact fun heq => hnodup.1 (heq ▸ List.mem_map_of_mem he'')
      · exact hfree e' he' e'' (List.mem_cons_of_mem _ he'')
    show e ∈ putAll (t.put entry.1 entry.2) rest ↔ _
    rw [ih hnodup.2 hrest, mem_put hfirst, List.mem_cons, or_left_comm, or_assoc]

/-- A name under which there is one value only. -/
theorem Table.get?_of_mem {β : Type} {t : Table β} {name : String} {value : β}
    (h : (name, value) ∈ t) (honly : ∀ v, (name, v) ∈ t → v = value) :
    t.get? name = some value := by
  cases hget : t.get? name with
  | some v => rw [honly v (mem_of_get? hget)]
  | none =>
    -- a lookup that finds nothing says that the entry is not there
    have hnone := List.lookup_eq_none_iff.1 hget _ h
    simp at hnone

namespace Course

variable {c c' : Course} {i : Nat} {r : Nat × Mode}

/-- The number of an accepted request at the lock. -/
def number (c : Course) (i : Nat) : GrantId := c.accepted.idxOf i + 1

/-- The grant of a request at the lock. -/
def grant (c : Course) (r : Nat × Mode) : Grant := ⟨0, c.number r.1, r.2⟩

/-- What is kept in the store for a request that was granted. -/
def entry (tag : Nat → String) (c : Course) (r : Nat × Mode) : String × Grant :=
  (tag r.1, c.grant r)

/-- Who was accepted has its own number. -/
theorem number_inj {j : Nat} (hi : i ∈ c.accepted) : c.number i = c.number j ↔ i = j := by
  rw [number, number, Nat.add_right_cancel_iff]
  exact List.idxOf_inj hi

/-- The numbers stay when more is accepted. -/
theorem number_append {more : List Nat} (h : c'.accepted = c.accepted ++ more)
    (hi : i ∈ c.accepted) : c'.number i = c.number i := by
  rw [number, number, h, List.idxOf_append_of_mem hi]

/-- The plain model and the lock belong together. -/
structure Meets (limit : Option Nat) (tag : Nat → String) (c : Course) (l : Lock Entry)
    (store : Table Grant) (tags : List String) : Prop where
  limit : l.config.maxPending = limit
  idle : l.runLists = []
  state : l.core.state = c.plain.state
  queue : l.core.queue = c.plain.queue.map fun r => parkingRequest (c.entry tag r)
  nextId : l.core.nextId = c.accepted.length + 1
  unended : l.unended = c.plain.held.map fun r => (c.number r.1, r.2)
  /-- Whatever was granted is in the store. -/
  stored : ∀ e, e ∈ store ↔ ∃ r ∈ c.plain.held ++ c.released, e = c.entry tag r
  counts : c.plain.state.Counts (c.plain.held.map (·.2))
  /-- Nobody waits for a free lock. -/
  waits : c.plain.state = .free → c.plain.queue = []
  /-- Whatever was accepted was granted or waits. -/
  places : c.accepted.Perm ((c.plain.held ++ c.released ++ c.plain.queue).map (·.1))
  nodup : c.accepted.Nodup
  before : ∀ i ∈ c.accepted, i < c.submitted
  /-- What was started and what waits is together what was accepted, in this order. -/
  order : c.accepted.map tag = tags ++ c.plain.queue.map fun r => tag r.1

namespace Meets

variable {limit : Option Nat} {tag : Nat → String} {l l' : Lock Entry} {store : Table Grant}
  {tags : List String}

section Store

variable (h : c.Meets limit tag l store tags) (htag : Function.Injective tag)
include h

theorem mem_accepted (hr : r ∈ c.plain.held ++ c.released ∨ r ∈ c.plain.queue) :
    r.1 ∈ c.accepted := by
  refine h.places.mem_iff.2 (List.mem_map_of_mem ?_)
  exact List.mem_append.2 hr

/-- A request has one place only. -/
theorem eq_of_fst_eq {s : Nat × Mode} (hr : r ∈ c.plain.held ++ c.released ++ c.plain.queue)
    (hs : s ∈ c.plain.held ++ c.released ++ c.plain.queue) (hfst : r.1 = s.1) : r = s :=
  List.inj_on_of_nodup_map (h.places.nodup_iff.1 h.nodup) hr hs hfst

include htag

/-- What was granted is found under its tag. -/
theorem get?_entry (hr : r ∈ c.plain.held ++ c.released) :
    store.get? (tag r.1) = some (c.grant r) := by
  -- two values under one name would be two requests with one tag
  refine Table.get?_of_mem ((h.stored _).2 ⟨r, hr, rfl⟩) fun v hv => ?_
  obtain ⟨s, hs, hentry⟩ := (h.stored _).1 hv
  obtain ⟨hname, rfl⟩ := Prod.mk.inj hentry
  rw [h.eq_of_fst_eq (List.mem_append_left _ hr) (List.mem_append_left _ hs) (htag hname)]

/-- Nothing else is. -/
theorem get?_of_not_granted (hi : ∀ r ∈ c.plain.held ++ c.released, r.1 ≠ i) :
    store.get? (tag i) = none := by
  cases hget : store.get? (tag i) with
  | none => rfl
  | some g =>
    obtain ⟨r, hr, hentry⟩ := (h.stored _).1 (Table.mem_of_get? hget)
    exact absurd (htag (Prod.mk.inj hentry).1).symm (hi r hr)

end Store

/-- Only what is held is unended. -/
theorem isUnended_iff (h : c.Meets limit tag l store tags) (hi : i ∈ c.accepted) :
    l.isUnended (c.number i) = true ↔ ∃ r ∈ c.plain.held, r.1 = i := by
  simp only [Lock.isUnended, h.unended, List.any_map, List.any_eq_true, Function.comp_apply,
    beq_iff_eq]
  refine exists_congr fun r => and_congr_right fun _ => ?_
  rw [eq_comm, number_inj hi, eq_comm]

/-! ## Submissions -/

section Accepted

variable (h : c.Meets limit tag l store tags) (plain : Plain)
include h

theorem submitted_not_accepted : c.submitted ∉ c.accepted := fun hmem =>
  Nat.lt_irrefl _ (h.before _ hmem)

/-- A request that is accepted gets the next number. -/
theorem number_submitted : (c.accept plain).number c.submitted = l.core.nextId := by
  rw [number, accept, List.idxOf_append_of_notMem h.submitted_not_accepted, h.nextId]
  simp

/-- The others keep theirs. -/
theorem number_accept (hr : r ∈ c.plain.held ++ c.released ∨ r ∈ c.plain.queue) :
    (c.accept plain).number r.1 = c.number r.1 :=
  number_append rfl (h.mem_accepted hr)

theorem entry_accept (hr : r ∈ c.plain.held ++ c.released ∨ r ∈ c.plain.queue) :
    (c.accept plain).entry tag r = c.entry tag r := by
  rw [entry, entry, grant, grant, h.number_accept plain hr]

theorem entry_submitted (mode : Mode) :
    (c.accept plain).entry tag (c.submitted, mode) =
      (tag c.submitted, ⟨0, l.core.nextId, mode⟩) := by
  rw [entry, grant, h.number_submitted plain]

theorem nodup_accept : (c.accept plain).accepted.Nodup :=
  List.nodup_append'.2 ⟨h.nodup, by simp, by simpa using h.submitted_not_accepted⟩

theorem before_accept : ∀ i ∈ (c.accept plain).accepted, i < c.submitted + 1 := by
  intro i hi
  rcases List.mem_append.1 hi with hi | hi
  · exact Nat.lt_succ_of_lt (h.before i hi)
  · rw [List.mem_singleton.1 hi]
    exact Nat.lt_succ_self _

end Accepted

/-- A request that is granted on the spot joins what is held. -/
theorem granted (h : c.Meets limit tag l store tags) (htag : Function.Injective tag) {mode : Mode}
    {payload : Entry} {request : Request Entry}
    (hsubmit : l.submit mode payload = (l', .granted request)) :
    ∃ c', c.perform limit (.submit mode) = some (c', .ok) ∧ c'.submitted = c.submitted + 1 ∧
      c'.Meets limit tag l' (store.put (tag c.submitted) ⟨0, request.id, request.mode⟩)
        (tags ++ [tag c.submitted]) := by
  obtain ⟨hqueue, hadmits, rfl, rfl⟩ := Lock.submit_granted hsubmit
  -- only who finds an empty queue is granted on the spot
  have hempty : c.plain.queue = [] := List.map_eq_nil_iff.1 (h.queue.symm.trans hqueue)
  rw [h.state] at hadmits
  -- the tag is new, since this request was not accepted before
  have hfree : ∀ e ∈ store, e.1 ≠ tag c.submitted := by
    intro e he heq
    obtain ⟨r, hr, rfl⟩ := (h.stored e).1 he
    exact h.submitted_not_accepted (htag heq ▸ h.mem_accepted (.inl hr))
  -- what the model comes to is named once, and the fields below read it by these equations
  generalize hplain : (⟨c.plain.state.acquired mode, [], c.plain.held ++ [(c.submitted, mode)]⟩ :
    Plain) = plain
  have hstate : plain.state = c.plain.state.acquired mode := hplain ▸ rfl
  have hnone : plain.queue = [] := hplain ▸ rfl
  have hheld : plain.held = c.plain.held ++ [(c.submitted, mode)] := hplain ▸ rfl
  refine ⟨c.accept plain, ?_, rfl, ?_⟩
  · simp [perform, Plain.submit, Plain.grant, hempty, hadmits, State.plus_of_admits hadmits, hplain]
  refine
    { limit := h.limit, idle := h.idle, state := ?state, queue := ?queue, nextId := ?nextId,
      unended := ?unended, stored := ?stored, counts := ?counts, waits := fun _ => hnone,
      places := ?places, nodup := h.nodup_accept plain, before := h.before_accept plain,
      order := ?order }
  case state => exact (congrArg (State.acquired · mode) h.state).trans hstate.symm
  case queue =>
    show l.core.queue = plain.queue.map _
    rw [hnone, hqueue]
    rfl
  case nextId =>
    show l.core.nextId + 1 = (c.accepted ++ [c.submitted]).length + 1
    rw [h.nextId, List.length_append]
    rfl
  -- a new grant is put last on both sides, and the old ones keep their numbers
  case unended =>
    show l.unended ++ [(l.core.nextId, mode)] = plain.held.map _
    rw [hheld, List.map_append, List.map_singleton, h.number_submitted plain, h.unended]
    congr 1
    refine List.map_congr_left fun r hr => ?_
    rw [h.number_accept plain (.inl (List.mem_append_left _ hr))]
  -- the store gains this one entry
  case stored =>
    intro e
    have hgranted : ∀ r, r ∈ plain.held ++ c.released ↔
        r = (c.submitted, mode) ∨ r ∈ c.plain.held ++ c.released := by
      intro r
      simp only [hheld, List.mem_append, List.mem_singleton]
      tauto
    rw [Table.mem_put hfree, h.stored]
    constructor
    · rintro (rfl | ⟨r, hr, rfl⟩)
      · exact ⟨_, (hgranted _).2 (.inl rfl), (h.entry_submitted plain mode).symm⟩
      · exact ⟨r, (hgranted r).2 (.inr hr), (h.entry_accept plain (.inl hr)).symm⟩
    · rintro ⟨r, hr, rfl⟩
      rcases (hgranted r).1 hr with rfl | hr
      · exact .inl (h.entry_submitted plain mode)
      · exact .inr ⟨r, hr, h.entry_accept plain (.inl hr)⟩
  case counts =>
    show plain.state.Counts (plain.held.map _)
    rw [hstate, hheld, List.map_append]
    exact h.counts.acquired hadmits
  case places =>
    show (c.accepted ++ [c.submitted]).Perm ((plain.held ++ c.released ++ plain.queue).map _)
    have hplaces := h.places.append_right [c.submitted]
    rw [hempty, List.append_nil, List.map_append, List.append_assoc] at hplaces
    rw [hheld, hnone, List.append_nil, List.map_append, List.map_append, List.append_assoc]
    exact hplaces.trans (List.Perm.append_left _ List.perm_append_comm)
  -- who is granted on the spot was accepted last, and nobody waits behind it
  case order =>
    show (c.accepted ++ [c.submitted]).map tag = _ ++ plain.queue.map _
    rw [hnone, List.map_append, h.order, hempty]
    simp

/-- The model lets those wait whom the lock lets wait. -/
theorem not_admitted (h : c.Meets limit tag l store tags) {mode : Mode}
    (hwait : l.core.MustWait mode) :
    -- both sides ask the same question of the same queue and state
    ¬(c.plain.queue.isEmpty && c.plain.state.admits mode) = true := by
  have hnot := Core.not_admitted_iff.2 hwait
  rwa [h.queue, h.state, List.isEmpty_map] at hnot

/-- They have the same bound. -/
theorem reachedLimit (h : c.Meets limit tag l store tags) :
    l.config.reachedLimit l.pending = limit.filter (· ≤ c.plain.queue.length) := by
  have hpending : l.pending = c.plain.queue.length := by
    simp [Lock.pending, h.queue]
  rw [Config.reachedLimit, h.limit, hpending]

/-- A request that has to wait joins the queue. -/
theorem queued (h : c.Meets limit tag l store tags) {mode : Mode} {n pending : Nat}
    (hsubmit : l.submit mode (.task (.parking (tag c.submitted))) = (l', .queued n pending)) :
    ∃ c', c.perform limit (.submit mode) = some (c', .ok) ∧ c'.submitted = c.submitted + 1 ∧
      c'.Meets limit tag l' store tags := by
  obtain ⟨hwait, hlimit, rfl, -, rfl⟩ := Lock.submit_queued hsubmit
  generalize hplain : (⟨c.plain.state, c.plain.queue ++ [(c.submitted, mode)], c.plain.held⟩ :
    Plain) = plain
  have hstate : plain.state = c.plain.state := hplain ▸ rfl
  have hqueue : plain.queue = c.plain.queue ++ [(c.submitted, mode)] := hplain ▸ rfl
  have hheld : plain.held = c.plain.held := hplain ▸ rfl
  -- the lock let it wait within its bound, so the model does
  have hmust := h.not_admitted hwait
  rw [h.reachedLimit] at hlimit
  refine ⟨c.accept plain, ?_, rfl, ?_⟩
  · simp only [perform, Plain.submit, if_neg hmust, hlimit, Option.map_some, hplain]
  refine
    { limit := h.limit, idle := h.idle, state := h.state.trans hstate.symm, queue := ?queue,
      nextId := ?nextId, unended := ?unended, stored := ?stored, counts := ?counts,
      waits := ?waits, places := ?places, nodup := h.nodup_accept plain,
      before := h.before_accept plain, order := ?order }
  -- the request joins the end of the queue under the number it was just given
  case queue =>
    show l.core.queue ++ [⟨l.core.nextId, mode, .task (.parking (tag c.submitted))⟩] =
      plain.queue.map _
    rw [hqueue, List.map_append, List.map_singleton, h.entry_submitted plain, h.queue]
    congr 1
    refine List.map_congr_left fun r hr => ?_
    rw [h.entry_accept plain (.inr hr)]
  case nextId =>
    show l.core.nextId + 1 = (c.accepted ++ [c.submitted]).length + 1
    rw [h.nextId, List.length_append]
    rfl
  case unended =>
    show l.unended = plain.held.map _
    rw [hheld, h.unended]
    refine List.map_congr_left fun r hr => ?_
    rw [h.number_accept plain (.inl (List.mem_append_left _ hr))]
  case stored =>
    intro e
    show _ ↔ ∃ r ∈ plain.held ++ c.released, _
    rw [h.stored, hheld]
    refine exists_congr fun r => and_congr_right fun hr => ?_
    rw [h.entry_accept plain (.inl hr)]
  case counts =>
    show plain.state.Counts (plain.held.map _)
    rw [hstate, hheld]
    exact h.counts
  -- it would not have had to wait for a free lock
  case waits =>
    intro hfree
    have hfree : c.plain.state = .free := hstate.symm.trans hfree
    rw [h.waits hfree, hfree] at hmust
    exact absurd rfl hmust
  case places =>
    show (c.accepted ++ [c.submitted]).Perm ((plain.held ++ c.released ++ plain.queue).map _)
    have hplaces := h.places.append_right [c.submitted]
    rw [hheld, hqueue, ← List.append_assoc, List.map_append]
    exact hplaces
  -- who waits stands behind all that were accepted before
  case order =>
    show (c.accepted ++ [c.submitted]).map tag = _ ++ plain.queue.map _
    rw [hqueue, List.map_append, h.order, List.map_append, List.append_assoc]
    rfl

/-- A request that is turned away leaves everything as it is. -/
theorem rejected (h : c.Meets limit tag l store tags) {mode : Mode} {payload refused : Entry}
    {n : Nat} (hsubmit : l.submit mode payload = (l', .rejected refused n)) :
    ∃ c', c.perform limit (.submit mode) = some (c', .failed (.queueFull n)) ∧
      c'.submitted = c.submitted + 1 ∧ c'.Meets limit tag l' store tags := by
  obtain ⟨hwait, hlimit, rfl, rfl⟩ := Lock.submit_rejected hsubmit
  have hmust := h.not_admitted hwait
  rw [h.reachedLimit] at hlimit
  refine ⟨{ c with submitted := c.submitted + 1 }, ?_, rfl, ?_⟩
  · simp only [perform, Plain.submit, if_neg hmust, hlimit, Option.map_some]
  -- only the count of submissions goes on
  · exact { h with before := fun i hi => Nat.lt_succ_of_lt (h.before i hi) }

/-! ## Releases -/

/-- What is held under a number is found. -/
theorem find?_held (h : c.Meets limit tag l store tags) (hr : r ∈ c.plain.held) :
    (c.plain.held.find? fun s => s.1 == r.1) = some r := by
  have hplace : ∀ s ∈ c.plain.held, s ∈ c.plain.held ++ c.released ++ c.plain.queue := fun s hs =>
    List.mem_append_left _ (List.mem_append_left _ hs)
  cases hfind : c.plain.held.find? fun s => s.1 == r.1 with
  | none => exact absurd (beq_self_eq_true r.1) (List.find?_eq_none.1 hfind r hr)
  | some s =>
    -- held twice under one number would be one request in two places
    have hfst : s.1 = r.1 := by simpa using List.find?_some hfind
    rw [h.eq_of_fst_eq (hplace s (List.mem_of_find?_eq_some hfind)) (hplace r hr) hfst]

/-- What is left when something was released and the batch at the front of the queue granted. -/
def afterRelease (c : Course) (r : Nat × Mode) (state : State) (batch rest : List (Nat × Mode)) :
    Course :=
  { c with
    plain := ⟨state, rest, c.plain.held.erase r ++ batch⟩
    released := r :: c.released }

/-- The model and the lock grant the same batch. -/
theorem release_batch (h : c.Meets limit tag l store tags) (hr : r ∈ c.plain.held)
    {granted : List (Request Entry)} (hrelease : l.release (c.number r.1) r.2 = (l', granted)) :
    ∃ batch rest, c.plain.queue = batch ++ rest ∧
      granted = (batch.map (c.entry tag)).map parkingRequest ∧
      c.perform limit (.release r.1) =
        some (afterRelease c r l'.core.state batch rest, .flag true) ∧
      l'.core.queue = rest.map (fun s => parkingRequest (c.entry tag s)) ∧
      l'.core.nextId = l.core.nextId ∧ l'.config = l.config ∧ l'.runLists = l.runLists ∧
      l'.unended = (l.unended.filter fun g => g.1 != c.number r.1) ++
        batch.map (fun s => (c.number s.1, s.2)) ∧
      l'.core.state.Counts ((c.plain.held.erase r ++ batch).map (·.2)) ∧
      (l'.core.state = .free → rest = []) := by
  have hminus : c.plain.state.minus = some (c.plain.state.released r.2) :=
    h.counts.minus (List.mem_map_of_mem hr)
  have hcounts : (c.plain.state.released r.2).Counts ((c.plain.held.erase r).map (·.2)) :=
    h.counts.released hr
  have hfind := h.find?_held hr
  -- either others still hold the lock, and nobody is granted
  rcases Lock.release_cases hrelease with ⟨hbusy, rfl, rfl⟩ | ⟨hfree, rfl, rfl⟩
  · rw [h.state] at hbusy
    refine ⟨[], c.plain.queue, rfl, rfl, ?_, h.queue, rfl, rfl, rfl, ?_, ?_, ?_⟩
    · simp [perform, hfind, Plain.release, hminus, hbusy, afterRelease, h.state]
    · simp
    · simpa [h.state] using hcounts
    · intro hfree
      exact absurd (h.state ▸ hfree) hbusy
  -- or the lock is free now and both drain
  · rw [h.state] at hfree
    rw [hfree] at hcounts
    have hnone : c.plain.held.erase r = [] :=
      List.map_eq_nil_iff.1 (hcounts.eq_free_iff.1 rfl)
    obtain ⟨batch, rest, hqueue, hbatch, hrest, hdrain⟩ :=
      Plain.drain_eq (p := ⟨.free, c.plain.queue, c.plain.held.erase r⟩)
        (fun s => parkingRequest (c.entry tag s)) (fun s => rfl) rfl
    -- the drain of the lock takes as many requests as the one of the model
    rw [← h.queue] at hbatch hrest
    have hstate := counts_stateOf_batchOf l.core.queue
    refine ⟨batch, rest, hqueue, ?_, ?_, hrest, rfl, rfl, rfl, ?_, ?_, ?_⟩
    · rw [hbatch, List.map_map]
      rfl
    · simp [perform, hfind, Plain.release, hminus, hfree, hdrain, afterRelease, hbatch]
    · rw [hbatch]
      simp [parkingRequest, entry, grant]
    · rw [hbatch] at hstate
      rw [hnone]
      simpa [hbatch, parkingRequest, entry, grant, Function.comp_def] using hstate
    -- a lock that is still free after a drain granted nothing, so nobody had waited
    · intro hstill
      have hgone : (batchOf l.core.queue).map (·.mode) = [] := hstate.eq_free_iff.1 hstill
      have hempty := batchOf_eq_nil_iff.1 (List.map_eq_nil_iff.1 hgone)
      rw [hempty] at hrest
      exact List.map_eq_nil_iff.1 hrest.symm

/-- What is held is released. -/
theorem released (h : c.Meets limit tag l store tags) (htag : Function.Injective tag)
    (hr : r ∈ c.plain.held) {granted : List (Request Entry)}
    (hrelease : l.release (c.number r.1) r.2 = (l', granted)) :
    ∃ c' entries, granted = entries.map parkingRequest ∧ (∀ e ∈ entries, e.2.lock = 0) ∧
      (entries.map (·.1)).Nodup ∧ (∀ e ∈ entries, store.get? e.1 = none) ∧
      c.perform limit (.release r.1) = some (c', .flag true) ∧ c'.submitted = c.submitted ∧
      c'.accepted = c.accepted ∧ c'.released = r :: c.released ∧
      c'.Meets limit tag l' (store.putAll entries) (tags ++ entries.map (·.1)) := by
  obtain ⟨batch, rest, hqueue, hgranted, hperform, hqueue', hnextId, hconfig, hruns, hunended,
    hcounts, hwaits⟩ := h.release_batch hr hrelease
  have hplaces : (c.plain.held ++ c.released ++ c.plain.queue).Nodup :=
    (h.places.nodup_iff.1 h.nodup).of_map
  -- nobody who waits is held or was released
  have hwaiting : ∀ s ∈ batch, ∀ t ∈ c.plain.held ++ c.released, s.1 ≠ t.1 := by
    intro s hs t ht hfst
    have hs' : s ∈ c.plain.queue := hqueue ▸ List.mem_append_left _ hs
    have heq := h.eq_of_fst_eq (List.mem_append_right _ hs') (List.mem_append_left _ ht) hfst
    exact (List.nodup_append.1 hplaces).2.2 t ht s hs' heq.symm
  have hentries : (batch.map (c.entry tag)).map (·.1) = batch.map fun s => tag s.1 := by
    rw [List.map_map]
    rfl
  have hheld : c.plain.held.Nodup := hplaces.sublist (by simp)
  -- different requests have different tags
  have hnodup : ((batch.map (c.entry tag)).map (·.1)).Nodup := by
    have hsub : (batch.map (·.1)).Sublist
        ((c.plain.held ++ c.released ++ c.plain.queue).map (·.1)) := by
      refine List.Sublist.map _ ?_
      rw [hqueue, ← List.append_assoc]
      exact (List.sublist_append_right _ _).trans (List.sublist_append_left _ _)
    have hnodup := ((h.places.nodup_iff.1 h.nodup).sublist hsub).map htag
    rwa [List.map_map] at hnodup ⊢
  refine ⟨afterRelease c r l'.core.state batch rest, batch.map (c.entry tag), hgranted, ?_, hnodup,
    ?_, hperform, rfl, rfl, rfl, ?_⟩
  · intro e he
    obtain ⟨s, -, rfl⟩ := List.mem_map.1 he
    rfl
  · intro e he
    obtain ⟨s, hs, rfl⟩ := List.mem_map.1 he
    exact h.get?_of_not_granted htag fun t ht hfst => hwaiting s hs t ht hfst.symm
  refine
    { limit := hconfig ▸ h.limit, idle := hruns.trans h.idle, state := rfl, queue := hqueue',
      nextId := hnextId.trans h.nextId, unended := ?unended, stored := ?stored, counts := hcounts,
      waits := hwaits, places := ?places, nodup := h.nodup, before := h.before, order := ?order }
  -- the numbers are different, so what is filtered out by number is this one request
  case unended =>
    show l'.unended = (c.plain.held.erase r ++ batch).map fun s => (c.number s.1, s.2)
    rw [hunended, h.unended, List.filter_map, List.map_append, hheld.erase_eq_filter]
    congr 2
    refine List.filter_congr fun s hs => ?_
    have hother : c.number s.1 = c.number r.1 ↔ s = r := by
      rw [number_inj (h.mem_accepted (.inl (List.mem_append_left _ hs)))]
      refine ⟨fun hfst => ?_, congrArg _⟩
      exact h.eq_of_fst_eq (by simp [hs]) (by simp [hr]) hfst
    rw [Function.comp_apply, bne, bne, Bool.beq_eq_decide_eq, Bool.beq_eq_decide_eq]
    simp [hother]
  -- what was released stays in the store, only the batch is new
  case stored =>
    intro e
    have hplace : ∀ s, s ∈ c.plain.held.erase r ++ batch ++ r :: c.released ↔
        s ∈ batch ∨ s ∈ c.plain.held ++ c.released := by
      intro s
      by_cases hs : s = r
      · subst hs
        simp [hr]
      · simp only [List.mem_append, List.mem_erase_of_ne hs, List.mem_cons, hs, false_or]
        tauto
    have hothers : ∀ e ∈ store, ∀ e' ∈ batch.map (c.entry tag), e.1 ≠ e'.1 := by
      intro e he e' he' hname
      obtain ⟨t, ht, rfl⟩ := (h.stored e).1 he
      obtain ⟨s, hs, rfl⟩ := List.mem_map.1 he'
      exact hwaiting s hs t ht (htag hname).symm
    -- the names of the batch are free, so putting it adds its entries and keeps the others
    show _ ↔ ∃ s ∈ c.plain.held.erase r ++ batch ++ r :: c.released, e = c.entry tag s
    rw [Table.mem_putAll hnodup hothers, h.stored, List.mem_map]
    constructor
    · rintro (⟨s, hs, rfl⟩ | ⟨s, hs, rfl⟩)
      · exact ⟨s, (hplace s).2 (.inl hs), rfl⟩
      · exact ⟨s, (hplace s).2 (.inr hs), rfl⟩
    · rintro ⟨s, hs, rfl⟩
      exact ((hplace s).1 hs).imp (fun hs => ⟨s, hs, rfl⟩) fun hs => ⟨s, hs, rfl⟩
  -- each request moves from one place to another, so counting it decides
  case places =>
    show c.accepted.Perm ((c.plain.held.erase r ++ batch ++ r :: c.released ++ rest).map _)
    refine h.places.trans (List.Perm.map _ ?_)
    have herase := List.perm_cons_erase hr
    rw [hqueue, List.perm_iff_count]
    intro s
    have hcount := herase.count_eq s
    simp only [List.count_append, List.count_cons] at hcount ⊢
    omega
  case order =>
    show c.accepted.map tag = _ ++ rest.map _
    rw [h.order, hqueue, hentries, List.map_append, List.append_assoc]

end Meets

/-! ## Worlds -/

/-- A world has come to where the plain model is. -/
def Stands (limit : Option Nat) (tag : Nat → String) (c : Course) (w : World) : Prop :=
  ∃ l store tags, w.Shows l store tags ∧ c.Meets limit tag l store tags

namespace Stands

variable {limit : Option Nat} {tag : Nat → String} {w : World}

/-- A submission is answered as in the model. -/
theorem submit (h : c.Stands limit tag w) (htag : Function.Injective tag) (mode : Mode) :
    ∃ c' reply w', c.perform limit (.submit mode) = some (c', reply) ∧
      w.Performs (.submitParking mode (tag c.submitted)) reply w' ∧
      c'.submitted = c.submitted + 1 ∧ c'.Stands limit tag w' := by
  obtain ⟨l, store, tags, hw, hmeets⟩ := h
  -- the lock has three answers, and each is that of the model
  cases hsubmit : l.submit mode (.task (.parking (tag c.submitted))) with
  | mk l' submission =>
    cases submission with
    | granted request =>
      have hfree : store.get? (tag c.submitted) = none :=
        hmeets.get?_of_not_granted htag fun r hr hfst =>
          hmeets.submitted_not_accepted (hfst ▸ hmeets.mem_accepted (.inl hr))
      obtain ⟨w', hperforms, hw'⟩ := hw.submit_granted hmeets.idle hfree hsubmit
      obtain ⟨c', hperform, hsubmitted, hmeets'⟩ := hmeets.granted htag hsubmit
      exact ⟨c', _, w', hperform, hperforms, hsubmitted, _, _, _, hw', hmeets'⟩
    | queued n pending =>
      obtain ⟨w', hperforms, hw'⟩ := hw.submit_queued hsubmit
      obtain ⟨c', hperform, hsubmitted, hmeets'⟩ := hmeets.queued hsubmit
      exact ⟨c', _, w', hperform, hperforms, hsubmitted, _, _, _, hw', hmeets'⟩
    | rejected refused n =>
      obtain ⟨w', hperforms, hw'⟩ := hw.submit_rejected hsubmit
      obtain ⟨c', hperform, hsubmitted, hmeets'⟩ := hmeets.rejected hsubmit
      exact ⟨c', _, w', hperform, hperforms, hsubmitted, _, _, _, hw', hmeets'⟩

/-- The first release of what is held answers true. -/
theorem release_held (h : c.Stands limit tag w) (htag : Function.Injective tag)
    (hr : r ∈ c.plain.held) :
    ∃ c' w', c.perform limit (.release r.1) = some (c', .flag true) ∧
      w.Performs (.release (.named (tag r.1))) (.flag true) w' ∧ c'.submitted = c.submitted ∧
      c'.accepted = c.accepted ∧ c'.released = r :: c.released ∧ c'.Stands limit tag w' := by
  obtain ⟨l, store, tags, hw, hmeets⟩ := h
  -- what is held is in the store and has not ended
  have hstored := hmeets.get?_entry htag (List.mem_append_left _ hr)
  have haccepted := hmeets.mem_accepted (.inl (List.mem_append_left _ hr))
  have hunended : l.isUnended (c.grant r).id = true :=
    (hmeets.isUnended_iff haccepted).2 ⟨r, hr, rfl⟩
  cases hrelease : l.release (c.grant r).id (c.grant r).mode with
  | mk l' granted =>
    obtain ⟨c', entries, rfl, hlocks, hnodup, hfree, hperform, hsubmitted, haccepted', hreleased,
      hmeets'⟩ := hmeets.released htag hr hrelease
    obtain ⟨w', hperforms, hw'⟩ := hw.release_unended hmeets.idle hstored rfl hunended hrelease
      hlocks hnodup hfree
    exact ⟨c', w', hperform, hperforms, hsubmitted, haccepted', hreleased, _, _, _, hw', hmeets'⟩

/-- So does every release, and those that come too late or too early change nothing. -/
theorem release (h : c.Stands limit tag w) (htag : Function.Injective tag) (i : Nat) :
    ∃ c' reply w', c.perform limit (.release i) = some (c', reply) ∧
      w.Performs (.release (.named (tag i))) reply w' ∧ c'.submitted = c.submitted ∧
      c'.Stands limit tag w' := by
  -- what is held is released; what is not was either released before or never granted
  cases hheld : c.plain.held.find? fun r => r.1 == i with
  | some r =>
    have hfst : r.1 = i := by simpa using List.find?_some hheld
    subst hfst
    obtain ⟨c', w', hperform, hperforms, hsubmitted, -, -, hstands⟩ :=
      h.release_held htag (List.mem_of_find?_eq_some hheld)
    exact ⟨c', _, w', hperform, hperforms, hsubmitted, hstands⟩
  | none =>
    -- no longer held, so its release is redundant
    obtain ⟨l, store, tags, hw, hmeets⟩ := h
    have hnot : ∀ r ∈ c.plain.held, r.1 ≠ i := by
      intro r hr hfst
      exact List.find?_eq_none.1 hheld r hr (by simp [hfst])
    by_cases hreleased : ∃ r ∈ c.released, r.1 = i
    · obtain ⟨r, hr, rfl⟩ := hreleased
      have hstored := hmeets.get?_entry htag (List.mem_append_right _ hr)
      have haccepted := hmeets.mem_accepted (.inl (List.mem_append_right _ hr))
      have hended : l.isUnended (c.grant r).id = false := by
        rw [Bool.eq_false_iff, Ne, show (c.grant r).id = c.number r.1 from rfl,
          hmeets.isUnended_iff haccepted]
        rintro ⟨s, hs, hfst⟩
        exact hnot s hs hfst
      obtain ⟨w', hperforms, hw'⟩ := hw.release_ended hstored rfl hended
      refine ⟨c, .flag false, w', ?_, hperforms, rfl, l.countRedundant, store, tags, hw', ?_⟩
      · have hany : (c.released.any fun s => s.1 == r.1) = true :=
          List.any_eq_true.2 ⟨r, hr, beq_self_eq_true _⟩
        simp only [perform, hheld, hany, if_true]
      · exact { hmeets with }
    -- no capability was ever kept under this tag, so there is nothing to release
    · have hunknown : store.get? (tag i) = none := by
        refine hmeets.get?_of_not_granted htag fun r hr hfst => ?_
        rcases List.mem_append.1 hr with hr | hr
        · exact hnot r hr hfst
        · exact hreleased ⟨r, hr, hfst⟩
      refine ⟨c, .noCapability, w, ?_, hw.release_unknown hunknown, rfl, l, store, tags, hw, hmeets⟩
      have hnone : (c.released.any fun s => s.1 == i) = false := by
        rw [List.any_eq_false]
        exact fun s hs hfst => hreleased ⟨s, hs, by simpa using hfst⟩
      simp [perform, hheld, hnone]

/-- Every operation does what the model does. -/
theorem step (h : c.Stands limit tag w) (htag : Function.Injective tag) (op : Op) :
    ∃ c' reply w', c.perform limit op = some (c', reply) ∧
      w.Performs (op.action tag c.submitted) reply w' ∧
      c'.submitted = c.submitted + op.submissions ∧ c'.Stands limit tag w' := by
  cases op with
  | submit mode => exact h.submit htag mode
  | release i => exact h.release htag i

/-- So do any number of them. -/
theorem run (h : c.Stands limit tag w) (htag : Function.Injective tag) (ops : List Op) :
    ∃ c' replies w', c.run limit ops = some (c', replies) ∧
      w.PerformsAll (Op.actions tag c.submitted ops) replies w' ∧ c'.Stands limit tag w' := by
  -- the tags go on with the count of submissions
  induction ops generalizing c w with
  | nil => exact ⟨c, [], w, rfl, .nil w, h⟩
  | cons op rest ih =>
    obtain ⟨c₁, reply, w₁, hperform, hperforms, hsubmitted, h₁⟩ := h.step htag op
    obtain ⟨c₂, replies, w₂, hrun, hrest, h₂⟩ := ih h₁
    rw [hsubmitted] at hrest
    refine ⟨c₂, reply :: replies, w₂, ?_, .cons hperforms hrest, h₂⟩
    simp [Course.run, hperform, hrun]

/-- Releasing what is held comes to an end. -/
theorem exists_releasesAll (h : c.Stands limit tag w) (htag : Function.Injective tag) :
    ∃ rs last, c.ReleasesAll limit rs last := by
  -- by induction on how many of the accepted were not yet released, which every release lowers
  generalize hn : c.accepted.length - c.released.length = n
  induction n generalizing c w with
  | zero =>
    obtain ⟨l, store, tags, hw, hmeets⟩ := h
    have hlength := hmeets.places.length_eq
    simp only [List.length_map, List.length_append] at hlength
    exact ⟨[], c, .done (List.eq_nil_of_length_eq_zero (by omega))⟩
  | succ n ih =>
    cases hheld : c.plain.held with
    | nil => exact ⟨[], c, .done hheld⟩
    | cons r rest =>
      have hr : r ∈ c.plain.held := hheld ▸ List.mem_cons_self
      obtain ⟨c', w', hperform, -, -, haccepted, hreleased, h'⟩ := h.release_held htag hr
      have hn' : c'.accepted.length - c'.released.length = n := by
        rw [haccepted, hreleased, List.length_cons]
        omega
      obtain ⟨rs, last, hrest⟩ := ih h' hn'
      exact ⟨r.1 :: rs, last, .release hr hperform hrest⟩

/-- Each of these releases answers true, and in the end nothing is held and nobody waits. -/
theorem releasesAll {rs : List Nat} {last : Course} (hall : c.ReleasesAll limit rs last)
    (h : c.Stands limit tag w) (htag : Function.Injective tag) :
    ∃ w', w.PerformsAll (rs.map fun i => .release (.named (tag i)))
        (List.replicate rs.length (.flag true)) w' ∧
      last.Stands limit tag w' ∧ last.plain.held = [] ∧ last.accepted = c.accepted := by
  -- along the releases, each of which answers true
  induction hall generalizing w with
  | done hheld => exact ⟨w, .nil w, h, hheld, rfl⟩
  | @release c next last r reply rest hr hperform hrest ih =>
    obtain ⟨c', w₁, hperform', hperforms, -, haccepted, -, h₁⟩ := h.release_held htag hr
    -- both sides took the same step of the model
    cases hperform.symm.trans hperform'
    obtain ⟨w₂, hperforms₂, h₂, hheld, hlast⟩ := ih h₁
    exact ⟨w₂, .cons hperforms hperforms₂, h₂, hheld, hlast.trans haccepted⟩

/-! ### What is seen -/

/-- The lock shows the state of the model and the length of its queue. -/
theorem seen (h : c.Stands limit tag w) :
    (w.lock 0).state = c.plain.state ∧ (w.lock 0).pending = c.plain.queue.length := by
  obtain ⟨l, store, tags, hw, hmeets⟩ := h
  rw [hw.lock]
  exact ⟨hmeets.state, by simp [Lock.pending, hmeets.queue]⟩

/-- The unreleased capabilities in the store are what is held. -/
theorem mem_keptUnended (h : c.Stands limit tag w) (e : String × Mode) :
    e ∈ w.keptUnended.map (fun kept => (kept.1, kept.2.mode)) ↔
      e ∈ c.plain.held.map fun r => (tag r.1, r.2) := by
  obtain ⟨l, store, tags, hw, hmeets⟩ := h
  -- of what is stored only what is held is unended
  have hunended : ∀ r ∈ c.plain.held ++ c.released,
      w.isUnended (c.entry tag r).2 = true ↔ r ∈ c.plain.held := by
    intro r hr
    have hlock : w.isUnended (c.entry tag r).2 = l.isUnended (c.number r.1) := by
      rw [World.isUnended, show (c.entry tag r).2.lock = 0 from rfl, hw.lock]
      rfl
    rw [hlock, hmeets.isUnended_iff (hmeets.mem_accepted (.inl hr))]
    constructor
    · rintro ⟨s, hs, hfst⟩
      exact hmeets.eq_of_fst_eq (by simp [hs]) (List.mem_append_left _ hr) hfst ▸ hs
    · exact fun hheld => ⟨r, hheld, rfl⟩
  have hkept : ∀ kept, kept ∈ w.keptUnended ↔ ∃ r ∈ c.plain.held, kept = c.entry tag r := by
    intro kept
    rw [World.keptUnended, List.mem_filter, hw.store, hmeets.stored]
    constructor
    · rintro ⟨⟨r, hr, rfl⟩, hkept⟩
      exact ⟨r, (hunended r hr).1 hkept, rfl⟩
    · rintro ⟨r, hr, rfl⟩
      have hr' : r ∈ c.plain.held ++ c.released := List.mem_append_left _ hr
      exact ⟨⟨r, hr', rfl⟩, (hunended r hr').2 hr⟩
  simp only [List.mem_map, hkept]
  constructor
  · rintro ⟨-, ⟨r, hr, rfl⟩, rfl⟩
    exact ⟨r, hr, rfl⟩
  · rintro ⟨r, hr, rfl⟩
    exact ⟨_, ⟨r, hr, rfl⟩, rfl⟩

/-- What was started and what waits is together what was accepted. -/
theorem order (h : c.Stands limit tag w) :
    c.accepted.map tag = shownTags w.history ++ c.plain.queue.map fun r => tag r.1 := by
  obtain ⟨l, store, tags, hw, hmeets⟩ := h
  rw [hw.shown]
  exact hmeets.order

/-- Nobody waits if nothing is held. -/
theorem idle (h : c.Stands limit tag w) (hheld : c.plain.held = []) :
    c.plain.state = .free ∧ c.plain.queue = [] := by
  obtain ⟨l, store, tags, hw, hmeets⟩ := h
  -- a state without holders is free
  have hfree : c.plain.state = .free := hmeets.counts.eq_free_iff.2 (by simp [hheld])
  exact ⟨hfree, hmeets.waits hfree⟩

/-- A lock that was just created. -/
theorem initial (config : Config) (procedures : Table (List Action)) (tag : Nat → String) :
    Stands config.maxPending tag {} (World.initial [config] procedures) := by
  refine ⟨{ config := config }, [], [], ⟨rfl, rfl, rfl, rfl, rfl, rfl⟩, ?_⟩
  exact
    { limit := rfl, idle := rfl, state := rfl, queue := rfl, nextId := rfl, unended := rfl,
      stored := by simp, counts := .free, waits := fun _ => rfl, places := .refl _,
      nodup := .nil, before := by simp, order := rfl }

end Stands

end Course

/-- A lock whose entry points park their capability behaves like the plain model.  Whatever is
    submitted and released at top level, the model goes all the way, and every submission and every
    release is answered as it says.  Then the lock has its state and as many waiting requests, the
    unreleased capabilities are what it holds, and the entry points were started in the order in
    which their requests were accepted.  From there whatever is held can be released until nothing
    is; each of these releases answers true, in whatever order they are made, and they leave a free
    lock that has started everything. -/
theorem lock_refines_plain_model (config : Config) (procedures : Table (List Action))
    {tag : Nat → String} (htag : Function.Injective tag) (ops : List Op) :
    ∃ c replies w, Course.run config.maxPending {} ops = some (c, replies) ∧
      (World.initial [config] procedures).PerformsAll (Op.actions tag 0 ops) replies w ∧
      (w.lock 0).state = c.plain.state ∧ (w.lock 0).pending = c.plain.queue.length ∧
      (∀ e, e ∈ w.keptUnended.map (fun kept => (kept.1, kept.2.mode)) ↔
        e ∈ c.plain.held.map fun r => (tag r.1, r.2)) ∧
      c.accepted.map tag = shownTags w.history ++ c.plain.queue.map (fun r => tag r.1) ∧
      (∃ rs last, c.ReleasesAll config.maxPending rs last) ∧
      ∀ rs last, c.ReleasesAll config.maxPending rs last →
        ∃ w', w.PerformsAll (rs.map fun i => .release (.named (tag i)))
            (List.replicate rs.length (.flag true)) w' ∧
          (w'.lock 0).state = .free ∧ (w'.lock 0).pending = 0 ∧
          shownTags w'.history = c.accepted.map tag := by
  -- the run keeps both sides together, and what is seen is read off its end
  obtain ⟨c, replies, w, hrun, hperforms, hstands⟩ :=
    (Course.Stands.initial config procedures tag).run htag ops
  refine ⟨c, replies, w, hrun, hperforms, hstands.seen.1, hstands.seen.2,
    hstands.mem_keptUnended, hstands.order, hstands.exists_releasesAll htag, ?_⟩
  -- any way of releasing what is held ends with nobody waiting
  intro rs last hall
  obtain ⟨w', hperforms', hlast, hheld, haccepted⟩ := hstands.releasesAll hall htag
  obtain ⟨hfree, hempty⟩ := hlast.idle hheld
  -- so what was started is what was accepted
  have horder := hlast.order
  rw [hempty, List.map_nil, List.append_nil, haccepted] at horder
  refine ⟨w', hperforms', ?_, ?_, horder.symm⟩
  · rw [hlast.seen.1, hfree]
  · rw [hlast.seen.2, hempty]
    rfl

/-- Tags that differ in their length. -/
def strokes (n : Nat) : String := String.ofList (List.replicate n '|')

theorem strokes_injective : Function.Injective strokes := by
  intro a b h
  simpa using congrArg List.length (String.ofList_inj.1 h)

/-- A writer, two readers and a writer are submitted, and the first writer is released twice. -/
theorem lock_refines_plain_model_twoReaders :
    ∃ w, (World.initial [{}] []).PerformsAll
        [.submitParking .write (strokes 0), .submitParking .read (strokes 1),
          .submitParking .read (strokes 2), .submitParking .write (strokes 3),
          .release (.named (strokes 0)), .release (.named (strokes 0))]
        [.ok, .ok, .ok, .ok, .flag true, .flag false] w ∧
      (w.lock 0).state = .reading 2 ∧ (w.lock 0).pending = 1 ∧
      shownTags w.history ++ [strokes 3] = [strokes 0, strokes 1, strokes 2, strokes 3] := by
  obtain ⟨c, replies, w, hrun, hperforms, hstate, hpending, -, horder, -⟩ :=
    lock_refines_plain_model {} [] strokes_injective
      [.submit .write, .submit .read, .submit .read, .submit .write, .release 0, .release 0]
  -- the run of the model computes
  cases hrun
  exact ⟨w, hperforms, hstate, hpending, horder.symm⟩

end FairLock
