import WideRow.Proofs.Isolation
import WideRow.Proofs.Tombstones
import WideRow.Proofs.UniqueFacets
import WideRow.Sample.Script

/-!
# Folding a nested unit into its parent

What runs in a nested unit that is committed afterwards should come to the same as if it had run in
the parent. In one of the two runs a lookup goes through a chain of maps, the nested unit's own
and then its parent's; in the other there is the parent's map alone, with the entries of the nested
one laid over it (`State.Folds`). The two agree on everything, up to two kinds of operations:

* one that looks for several keys at once, if the parent has an entry for one of them and the nested
  unit has one for a later key only (`UnitOfWork.isSplit`). The chain is asked unit by unit before
  it is asked key by key, so the later key answers;
* one that forgets a table of which the parent knows something (`Call.forgotten?`). The nested unit
  drops its own entries and goes on to see those of its parent.

> `runAll_nested`: as long as no operation does either, a run in a nested unit that is committed in
> the end is a run in the parent.
-/

namespace WideRow

/-! ## A chain of two maps, or one map -/

namespace UnitOfWork

variable {outer inner : UnitOfWork} {keys : List String}

/-- Of the keys that a nested unit or the one around it has an entry for, the first is one of the
unit around it only, and a later one is of the nested unit. -/
def isSplit (inner outer : UnitOfWork) : List String → Bool
  | [] => false
  | key :: keys =>
    if (inner.entries[key]?).isSome then false
    else if (outer.entries[key]?).isSome then (inner.find? keys).isSome
    else inner.isSplit outer keys

/-- A unit has an entry for a key of a table. -/
def Knows (u : UnitOfWork) (table : String) : Prop :=
  ∃ key : String, (Facet.schemaStart table).isPrefixOf key = true ∧ u.entries[key]?.isSome = true

/-- Only the entries of a unit decide what it finds. -/
theorem find?_congr {u u' : UnitOfWork} (h : u'.entries = u.entries) (keys : List String) :
    u'.find? keys = u.find? keys := by
  rw [find?, find?, h]

/-- Only the entries of the two units decide which keys are split. -/
theorem isSplit_congr {inner' : UnitOfWork} (h : inner'.entries = inner.entries) :
    ∀ keys, inner'.isSplit outer keys = inner.isSplit outer keys
  | [] => rfl
  | key :: keys => by rw [isSplit, isSplit, h, find?_congr h, isSplit_congr h keys]

/-- One map of all entries answers like the two maps of which it was made. -/
theorem find?_absorb (h : inner.isSplit outer keys = false) :
    (outer.absorb inner).find? keys = (inner.find? keys).or (outer.find? keys) := by
  induction keys with
  | nil => rfl
  | cons key keys ih =>
    rw [isSplit] at h
    rw [find?_cons, find?_cons, find?_cons, entries_absorb]
    cases hinner : inner.entries[key]? with
    | some entry => rfl
    | none =>
      rw [hinner] at h
      cases houter : outer.entries[key]? with
      | some entry =>
        have hnone : inner.find? keys = none := by simpa [houter] using h
        rw [hnone]
        rfl
      | none =>
        rw [ih (by simpa [houter] using h)]
        rfl

/-- For split keys, one map of all entries has that of the unit around, and a chain of the two maps
that of the nested unit. -/
theorem find?_absorb_of_isSplit (h : inner.isSplit outer keys = true) :
    (inner.find? keys).isSome = true ∧ (outer.find? keys).isSome = true ∧
      (outer.absorb inner).find? keys = outer.find? keys := by
  induction keys with
  | nil => exact absurd h (by simp [isSplit])
  | cons key keys ih =>
    rw [isSplit] at h
    rw [find?_cons, find?_cons, find?_cons, entries_absorb]
    cases hinner : inner.entries[key]? with
    | some entry => exact absurd h (by simp [hinner])
    | none =>
      rw [hinner] at h
      cases houter : outer.entries[key]? with
      | some entry => exact ⟨by simpa [houter] using h, rfl, rfl⟩
      | none => exact ih (by simpa [houter] using h)

/-- Units that answer alike under every key have the same entries. -/
theorem entries_ext {u u' : UnitOfWork} (h : ∀ key : String, u'.entries[key]? = u.entries[key]?) :
    u'.entries = u.entries := Std.ExtTreeMap.ext_getElem? fun {key} => h key

/-- To fold in a unit that was just begun changes nothing. -/
theorem absorb_begun (outer : UnitOfWork) (label : String) (parent : Option Nat) :
    outer.absorb { label, parent } = outer := by
  have hentries : (outer.absorb { label, parent }).entries = outer.entries :=
    entries_ext fun key => by
      rw [entries_absorb, Std.ExtTreeMap.getElem?_empty, Option.none_or]
  have htime : ∀ d : Duration, d.add .zero = d := fun d => by
    have hzero : Duration.zero.nanoseconds.val = 0 := by decide
    simp [Duration.add, Duration.ofNanoseconds, hzero]
  unfold absorb at hentries ⊢
  simp only at hentries
  simp [hentries, htime]

/-- What is recorded may be recorded before the unit is folded in or after it. -/
theorem absorb_record (outer inner : UnitOfWork) (cache database : Int) :
    (outer.absorb inner).record cache database = outer.absorb (inner.record cache database) := by
  simp only [absorb, record, Int.add_assoc]

/-- An entry may be put before the unit is folded in or after it: it covers the same keys. -/
theorem absorb_put (outer inner : UnitOfWork) (keys : List String) (entry : UnitEntry) :
    (outer.absorb inner).put keys entry = outer.absorb (inner.put keys entry) := by
  have hentries : ((outer.absorb inner).put keys entry).entries =
      (outer.absorb (inner.put keys entry)).entries := entries_ext fun key => by
    rw [entries_put, entries_absorb, entries_absorb, entries_put]
    split <;> rfl
  unfold absorb put at hentries ⊢
  simp only at hentries ⊢
  rw [hentries]

/-- Forgetting a table is the same before and after the folding, if only the nested unit knows
something of it. -/
theorem absorb_evictSchema {table : String} (h : ¬ outer.Knows table) (inner : UnitOfWork) :
    (outer.absorb inner).evictSchema table = outer.absorb (inner.evictSchema table) := by
  have hentries : ((outer.absorb inner).evictSchema table).entries =
      (outer.absorb (inner.evictSchema table)).entries := entries_ext fun key => by
    rw [entries_evictSchema, entries_absorb, entries_absorb, entries_evictSchema]
    split
    next hstart =>
      have hnone : outer.entries[key]? = none :=
        Option.not_isSome_iff_eq_none.1 fun hsome => h ⟨key, hstart, hsome⟩
      rw [hnone, Option.none_or]
    next => rfl
  unfold absorb evictSchema at hentries ⊢
  simp only at hentries ⊢
  rw [hentries]

/-- Puts several entries, one after the other. -/
def putAll (u : UnitOfWork) (puts : List (List String × UnitEntry)) : UnitOfWork :=
  puts.foldl (fun u put => u.put put.1 put.2) u

/-- So may any number of entries. -/
theorem absorb_putAll (outer : UnitOfWork) : ∀ (puts : List (List String × UnitEntry))
    (inner : UnitOfWork), (outer.absorb inner).putAll puts = outer.absorb (inner.putAll puts)
  | [], _ => rfl
  | put :: puts, inner => by
    show ((outer.absorb inner).put put.1 put.2).putAll puts = _
    rw [absorb_put, absorb_putAll outer puts]
    rfl

/-- Entries that are put leave the parent and the status of a unit as they are. -/
theorem parent_putAll : ∀ (puts : List (List String × UnitEntry)) (u : UnitOfWork),
    (u.putAll puts).parent = u.parent ∧ (u.putAll puts).status = u.status
  | [], _ => ⟨rfl, rfl⟩
  | put :: puts, u => parent_putAll puts (u.put put.1 put.2)

end UnitOfWork

namespace Units

variable {us us' : Units} {i p : Nat} {outer inner : UnitOfWork} {keys : List String}

/-- A chain goes downwards in numbers, so that units with greater ones do not show in it. -/
theorem chain_congr :
    ∀ {i : Nat}, (∀ j ≤ i, us'.get? j = us.get? j) → us'.chain i = us.chain i := by
  intro i
  induction i using Nat.strongRecOn with
  | ind i ih =>
    intro h
    rw [chain, chain, h i (Nat.le_refl i)]
    cases us.get? i with
    | none => rfl
    | some u =>
      cases hparent : u.parent with
      | none => simp only [hparent]
      | some p =>
        by_cases hp : p < i
        · simp only [hparent, if_pos hp, ih p hp fun j hj => h j (by omega)]
        · simp only [hparent, if_neg hp]

/-- What is further out than a unit depends on its parent and on the units before it. -/
theorem exists_chain (us : Units) (p : Nat) (parent : Option Nat) :
    ∃ further, ∀ (us' : Units) (u : UnitOfWork), us'.get? p = some u → u.parent = parent →
      (∀ j < p, us'.get? j = us.get? j) → us'.chain p = u :: further := by
  cases parent with
  | none =>
    refine ⟨[], fun us' u hu hsame _ => ?_⟩
    rw [chain, hu]
    simp only [hsame]
  | some q =>
    by_cases hq : q < p
    · refine ⟨us.chain q, fun us' u hu hsame hbefore => ?_⟩
      rw [chain, hu]
      simp only [hsame, if_pos hq, chain_congr fun j hj => hbefore j (Nat.lt_of_le_of_lt hj hq)]
    · refine ⟨[], fun us' u hu hsame _ => ?_⟩
      rw [chain, hu]
      simp only [hsame, if_neg hq]

/-- The last unit. -/
theorem get?_last (us : Units) (inner : UnitOfWork) :
    (⟨us.list ++ [inner]⟩ : Units).get? us.list.length = some inner := by
  simp [get?]

theorem get?_of_lt (us : Units) (inner : UnitOfWork) (hi : i < us.list.length) :
    (⟨us.list ++ [inner]⟩ : Units).get? i = us.get? i := by
  simp [get?, List.getElem?_append_left hi]

theorem lt_of_get? (h : us.get? p = some outer) : p < us.list.length :=
  (List.getElem?_eq_some_iff.1 h).1

/-- The nested unit is the last one of all. -/
theorem modify_last (us : Units) (inner : UnitOfWork) (f : UnitOfWork → UnitOfWork) :
    (⟨us.list ++ [inner]⟩ : Units).modify us.list.length f = ⟨us.list ++ [f inner]⟩ := by
  simp only [modify, List.modify_eq_take_drop]
  simp [List.modifyHead]

theorem modify_of_lt (us : Units) (inner : UnitOfWork) (f : UnitOfWork → UnitOfWork)
    (hi : i < us.list.length) :
    (⟨us.list ++ [inner]⟩ : Units).modify i f = ⟨(us.modify i f).list ++ [inner]⟩ := by
  have hle : i ≤ us.list.length := Nat.le_of_lt hi
  simp only [modify, List.modify_eq_take_cons_drop hi]
  rw [List.modify_eq_take_cons_drop (by simp; omega), List.take_append_of_le_length hle,
    List.drop_append_of_le_length hi, List.getElem_append_left hi]
  simp

/-- A lookup through a nested unit and on through the one around it. -/
theorem find?_last (hp : us.get? p = some outer) (hparent : inner.parent = some p)
    (hsplit : inner.isSplit outer keys = false) :
    (⟨us.list ++ [inner]⟩ : Units).find? us.list.length keys =
      (us.modify p (·.absorb inner)).find? p keys := by
  have hlt := lt_of_get? hp
  obtain ⟨further, hfurther⟩ := exists_chain us p outer.parent
  have hnested : (⟨us.list ++ [inner]⟩ : Units).chain us.list.length =
      inner :: outer :: further := by
    rw [chain, get?_last]
    simp only [hparent, if_pos hlt]
    rw [hfurther _ outer (by rw [get?_of_lt us inner hlt, hp]) rfl
      fun j hj => get?_of_lt us inner (Nat.lt_trans hj hlt)]
  have hdirect : (us.modify p (·.absorb inner)).chain p = outer.absorb inner :: further := by
    refine hfurther _ _ (get?_modify hp _) rfl fun j hj => ?_
    exact List.getElem?_modify_ne _ _ (Nat.ne_of_gt hj)
  rw [find?, find?, hnested, hdirect]
  simp only [List.findSome?_cons, UnitOfWork.find?_absorb hsplit]
  cases inner.find? keys <;> rfl

end Units

/-! ## Two runs side by side -/

/-- Two states that differ in the units only: one of them has `inner`, a unit nested in unit `p`, as
its last unit, and in the other one it was folded into `p` without a trace. -/
structure State.Folds {σ : Type} (us : Units) (p : Nat) (inner : UnitOfWork)
    (n d : State σ) : Prop where
  parent : inner.parent = some p
  status : inner.status = .opened
  nested : n.units = ⟨us.list ++ [inner]⟩
  direct : d = { n with units := us.modify p (·.absorb inner) }

/-- Two runs with the same result, whose states fold. -/
structure Outcome.Folds {σ α : Type} (us : Units) (p : Nat) (nested direct : Outcome σ α) :
    Prop where
  result : direct.1 = nested.1
  state : ∃ inner, State.Folds us p inner nested.2 direct.2

section

variable {σ α : Type} {s : Session σ} {us : Units} {p : Nat} {outer inner : UnitOfWork}
  {n d : State σ} {keys : List String}

namespace State.Folds

theorem database (h : State.Folds us p inner n d) : d.database = n.database := by rw [h.direct]

theorem cache (h : State.Folds us p inner n d) : d.cache = n.cache := by rw [h.direct]

theorem get?_last (h : State.Folds us p inner n d) :
    n.units.get? us.list.length = some inner := by
  rw [h.nested, Units.get?_last]

theorem get?_parent (h : State.Folds us p inner n d) (hp : us.get? p = some outer) :
    n.units.get? p = some outer := by
  rw [h.nested, Units.get?_of_lt us inner (Units.lt_of_get? hp), hp]

/-- What does not touch the units is done alike on both sides. -/
theorem update (h : State.Folds us p inner n d) {f : State σ → State σ}
    (hf : ∀ w units, f { w with units } = { f w with units })
    (hunits : (f n).units = n.units) : State.Folds us p inner (f n) (f d) where
  parent := h.parent
  status := h.status
  nested := hunits.trans h.nested
  direct := by rw [h.direct, hf]

/-- A change to the nested unit, and the same change to its parent. -/
theorem modify (h : State.Folds us p inner n d) (hp : us.get? p = some outer)
    {f : UnitOfWork → UnitOfWork} (hparent : (f inner).parent = inner.parent)
    (hstatus : (f inner).status = inner.status)
    (hf : f (outer.absorb inner) = outer.absorb (f inner)) :
    State.Folds us p (f inner) (n.modifyUnit us.list.length f) (d.modifyUnit p f) where
  parent := hparent.trans h.parent
  status := hstatus.trans h.status
  nested := by
    show n.units.modify us.list.length f = _
    rw [h.nested, Units.modify_last]
  direct := by
    have hunits : (us.modify p (·.absorb inner)).modify p f =
        us.modify p (·.absorb (f inner)) := by
      refine congrArg Units.mk ?_
      refine (List.modify_modify_eq _ f p us.list).trans (List.ext_getElem? fun j => ?_)
      rw [List.getElem?_modify, List.getElem?_modify]
      by_cases hj : p = j
      · subst hj
        have hlist : us.list[p]? = some outer := hp
        rw [hlist]
        simp [hf]
      · simp [hj]
    rw [h.direct]
    unfold State.modifyUnit
    simp only [hunits]

/-- Recording keeps the two runs together, if each of them records in its own unit. -/
theorem record (h : State.Folds us p inner n d) (hp : us.get? p = some outer)
    (cache database : Int) : State.Folds us p (inner.record cache database)
      (n.modifyUnit us.list.length (·.record cache database))
      (d.modifyUnit p (·.record cache database)) :=
  h.modify hp (f := (·.record cache database)) rfl rfl (outer.absorb_record inner cache database)

/-- What the nested unit puts, the other run puts in the parent. -/
theorem put (h : State.Folds us p inner n d) (hp : us.get? p = some outer) (keys : List String)
    (entry : UnitEntry) : State.Folds us p (inner.put keys entry)
      (n.modifyUnit us.list.length (·.put keys entry)) (d.modifyUnit p (·.put keys entry)) :=
  h.modify hp (f := (·.put keys entry)) rfl rfl (outer.absorb_put inner keys entry)

theorem putAll (h : State.Folds us p inner n d) (hp : us.get? p = some outer)
    (puts : List (List String × UnitEntry)) : State.Folds us p (inner.putAll puts)
      (n.modifyUnit us.list.length (·.putAll puts)) (d.modifyUnit p (·.putAll puts)) :=
  have ⟨hparent, hstatus⟩ := UnitOfWork.parent_putAll puts inner
  h.modify hp (f := (·.putAll puts)) hparent hstatus (outer.absorb_putAll puts inner)

/-- A table that the parent knows nothing of may be forgotten in both runs. Of any other table the
parent keeps its entries in one run and loses them in the other. -/
theorem evictSchema (h : State.Folds us p inner n d) (hp : us.get? p = some outer)
    {table : String} (hunknown : ¬ outer.Knows table) :
    State.Folds us p (inner.evictSchema table)
      (n.modifyUnit us.list.length (·.evictSchema table))
      (d.modifyUnit p (·.evictSchema table)) :=
  h.modify hp (f := (·.evictSchema table)) rfl rfl (outer.absorb_evictSchema hunknown inner)

/-- Both sides find the same entry for keys that are not split. -/
theorem find?_eq (h : State.Folds us p inner n d) (hp : us.get? p = some outer)
    (hsplit : inner.isSplit outer keys = false) :
    d.units.find? p keys = n.units.find? us.list.length keys := by
  rw [h.nested, h.direct]
  exact (Units.find?_last hp h.parent hsplit).symm

/-- Keys that are not split are looked up alike, through two maps or one. -/
theorem lookup_eq (h : State.Folds us p inner n d) (hp : us.get? p = some outer)
    (hsplit : inner.isSplit outer keys = false) :
    d.units.lookup p keys = n.units.lookup us.list.length keys := by
  rw [Units.lookup, Units.lookup, h.find?_eq hp hsplit]

/-- Committing the nested unit makes the two sides equal, but for the closed unit at the end. -/
theorem commit (h : State.Folds us p inner n d) (hp : us.get? p = some outer) :
    n.commit us.list.length =
      (.ok (), { d with units := ⟨d.units.list ++ [inner.closed .committed]⟩ }) := by
  have hlt := Units.lt_of_get? hp
  rw [State.commit_of_parent h.get?_last h.status h.parent, h.nested, Units.modify_last,
    Units.modify_of_lt us _ _ hlt, h.direct]

end State.Folds

/-! ## Steps that all operations share -/

theorem Outcome.Folds.of_state (h : State.Folds us p inner n d) (result : Except Error α) :
    Outcome.Folds us p (result, n) (result, d) := ⟨rfl, inner, h⟩

/-- Two runs side by side come to one result. -/
theorem Outcome.Folds.exists_eq {nested direct : Outcome σ α}
    (h : Outcome.Folds us p nested direct) : ∃ result inner n d,
      State.Folds us p inner n d ∧ nested = (result, n) ∧ direct = (result, d) :=
  have ⟨hresult, inner, hstate⟩ := h
  ⟨nested.1, inner, nested.2, direct.2, hstate, rfl, Prod.ext hresult rfl⟩

/-- Both runs send the same statement and get the same reply. Each counts it for its own unit. -/
theorem execute_folds (h : State.Folds us p inner n d) (hp : us.get? p = some outer)
    (k : OperationKind) (o : StatementOptions) (st : Statement) :
    ∃ n' d', State.Folds us p (inner.record 0 1) n' d' ∧
      s.execute (some us.list.length) k o st n = ((s.reply o st n.database).1, n') ∧
      s.execute (some p) k o st d = ((s.reply o st n.database).1, d') := by
  have hsent : State.Folds us p inner (s.execute none k o st n).2 (s.execute none k o st d).2 :=
    h.update (f := fun w => (s.execute none k o st w).2) (fun _ _ => rfl) rfl
  refine ⟨_, _, hsent.record hp 0 1, Prod.ext execute_fst rfl, Prod.ext ?_ rfl⟩
  rw [execute_fst, h.database]

/-- To count an operation leaves the units alone. -/
theorem counted_folds {k : OperationKind} {runNested runDirect : State σ → Outcome σ α}
    (h : Outcome.Folds us p (runNested n) (runDirect d)) :
    Outcome.Folds us p (Session.counted k runNested n) (Session.counted k runDirect d) := by
  obtain ⟨hresult, inner, hstate⟩ := h
  by_cases hbroken : (runNested n).1 = .error .brokenOff
  · rw [counted_of_brokenOff hbroken, counted_of_brokenOff (hresult.trans hbroken)]
    exact ⟨hresult, inner, hstate⟩
  · rw [counted_of_completed hbroken, counted_of_completed (by rw [hresult]; exact hbroken)]
    exact ⟨hresult, inner, hstate.update (f := (·.completed k)) (fun _ _ => rfl) rfl⟩

/-- A write, and what follows it where it is carried out. -/
theorem write_folds {k : OperationKind} {o : StatementOptions} {st : Statement}
    {throughNested throughDirect : State σ → Outcome σ Unit} (h : State.Folds us p inner n d)
    (hp : us.get? p = some outer)
    (hthrough : s.isApplied o st n.database = true → ∀ inner' n' d',
      inner'.entries = inner.entries → State.Folds us p inner' n' d' →
      Outcome.Folds us p (throughNested n') (throughDirect d')) :
    Outcome.Folds us p (s.write (some us.list.length) k o st throughNested n)
      (s.write (some p) k o st throughDirect d) := by
  obtain ⟨n', d', hstate, hn, hd⟩ := execute_folds (s := s) h hp k o st
  by_cases happlied : s.isApplied o st n.database = true
  · have hdone := Session.isApplied_eq_true.1 happlied
    rw [write_eq_of_applied (by rw [hn]; exact hdone),
      write_eq_of_applied (by rw [hd]; exact hdone), hn, hd]
    obtain ⟨result, inner', n₁, d₁, hstate', hn₁, hd₁⟩ :=
      (hthrough happlied (inner.record 0 1) n' d' rfl hstate).exists_eq
    simp only [hn₁, hd₁]
    cases result with
    | error e => exact .of_state hstate' _
    | ok _ => exact .of_state hstate' _
  · have hnot := mt Session.isApplied_eq_true.2 happlied
    rw [write_of_not_applied (by rw [hn]; exact hnot),
      write_of_not_applied (by rw [hd]; exact hnot), hn, hd]
    exact .of_state hstate _

/-! ## What a unit takes up -/

/-- What an operation puts into a unit depends on what is known of some keys. -/
def Units.Takes (keys : List String) (follow : Nat → Units → Except Error Units) : Prop :=
  ∃ puts : UnitAnswer → Except Error (List (List String × UnitEntry)), ∀ i us,
    follow i us = (puts (us.lookup i keys)).map fun puts => us.modify i (·.putAll puts)

/-- An insert looks under its keys and puts entries, and does nothing else to a unit. -/
theorem RowInsert.takes_followInUnit (policy : CachePolicy) (inserted : Row)
    (keys : List String) : Units.Takes keys (followInUnit policy inserted keys) := by
  refine ⟨fun known => do
    let after ← known.shown.merge inserted
    let facets ← policy.facetsOfRow after
    let promote := policy.entity.any (·.isCacheable) && facets.length ≥ Facet.leastForSession
    return [(Facet.keys facets, .row after promote)], fun i us => ?_⟩
  simp only [followInUnit_eq, bind, Except.bind]
  cases (us.lookup i keys).shown.merge inserted with
  | error e => rfl
  | ok after =>
    simp only
    cases policy.facetsOfRow after <;> rfl

/-- The row that an UPDATE in a unit changes: that of the unit's answer or, where there is none, the
one of the session cache. -/
def RowUpdate.beforeOf (policy : CachePolicy) (keys : List String) (c : SessionCache) :
    UnitAnswer → Row
  | .found r => r
  | .deleted => .empty
  | .missing => if policy.admits c then (c.get? keys).getD .empty else .empty

/-- What an update takes for the old row depends on a unit by one lookup only. -/
theorem RowUpdate.before_eq (policy : CachePolicy) (keys : List String) (i : Nat) (us : Units)
    (c : SessionCache) : before policy keys i us c = beforeOf policy keys c (us.lookup i keys) := by
  unfold before
  cases us.lookup i keys <;> rfl

/-- An update, too, looks under its keys and puts entries. -/
theorem RowUpdate.takes_followInUnit (u : RowUpdate) (prepare : ValuePreparer)
    (policy : CachePolicy) (keys : List String) (c : SessionCache) :
    Units.Takes keys fun i us => u.followInUnit prepare policy keys i us c := by
  refine ⟨fun known => do
    let previous ← policy.keysOfRow (beforeOf policy keys c known)
    let set ← Row.empty.setAll (u.known prepare)
    let after ← (← (beforeOf policy keys c known).merge set).removeAll u.unknown
    let facets ← policy.facetsOfRow after
    let all := keys ++ Facet.keys facets
    let stale := previous.filter fun k => !all.contains k
    let promote := policy.entity.any (·.isCacheable) && facets.length ≥ Facet.leastForSession
    return [(stale, .deleted), (all, .row after promote)], fun i us => ?_⟩
  simp only [followInUnit_eq, before_eq, bind, Except.bind]
  generalize beforeOf policy keys c (us.lookup i keys) = r
  cases policy.keysOfRow r with
  | error e => rfl
  | ok previous =>
    simp only
    cases Row.empty.setAll (u.known prepare) with
    | error e => rfl
    | ok set =>
      simp only
      cases r.merge set with
      | error e => rfl
      | ok merged =>
        simp only
        cases merged.removeAll u.unknown with
        | error e => rfl
        | ok after =>
          simp only
          cases policy.facetsOfRow after <;> rfl

/-- To store a row that was fetched is to look under its keys and to put entries. -/
theorem PointQuery.Plan.takes_populateUnit (q : Plan) (r : Row) :
    Units.Takes ((q.policy.keysOfRow r).toOption.getD []) (q.populateUnit r) := by
  cases hfacets : q.policy.facetsOfRow r with
  | error e =>
    refine ⟨fun _ => .error e, fun i us => ?_⟩
    rw [populateUnit_eq, hfacets]
    rfl
  | ok facets =>
    have hkeys : (q.policy.keysOfRow r).toOption.getD [] = Facet.keys facets := by
      rw [CachePolicy.keysOfRow_of_facets hfacets]
      rfl
    rw [hkeys]
    refine ⟨fun known =>
      if (Facet.keys facets).isEmpty then .ok []
      else (known.merged r).map fun merged => [(Facet.keys facets, .row merged
        (q.policy.entity.any (·.isCacheable) && facets.length ≥ Facet.leastForSession))],
      fun i us => ?_⟩
    rw [populateUnit_eq, hfacets]
    simp only [bind, Except.bind]
    split
    next => exact congrArg (Except.ok ∘ Units.mk) (List.modify_id i us.list).symm
    next => cases (us.lookup i (Facet.keys facets)).merged r <;> rfl

/-- What both sides take up is the same, as long as they know the same. -/
theorem State.Folds.take (h : State.Folds us p inner n d) (hp : us.get? p = some outer)
    {follow : Nat → Units → Except Error Units} (htakes : Units.Takes keys follow)
    (hsplit : inner.isSplit outer keys = false) :
    (∃ e, follow us.list.length n.units = .error e ∧ follow p d.units = .error e) ∨
      ∃ inner' nested direct, follow us.list.length n.units = .ok nested ∧
        follow p d.units = .ok direct ∧ State.Folds us p inner' { n with units := nested }
          { d with units := direct } := by
  obtain ⟨puts, hputs⟩ := htakes
  rw [hputs, hputs, h.lookup_eq hp hsplit]
  cases puts (n.units.lookup us.list.length keys) with
  | error e => exact .inl ⟨e, rfl, rfl⟩
  | ok puts => exact .inr ⟨_, _, _, rfl, rfl, h.putAll hp puts⟩

/-! ## Operations -/

/-- The keys by which a call in a unit looks for what the unit and its ancestors know. -/
def Call.asked (s : Session σ) (i : Nat) (w : State σ) : Call → List (List String)
  | lookup q =>
    let p := q.single.plan s.prepare
    match q.single.statement s.prepare with
    | .error _ => []
    | .ok st =>
      (if p.usesCache = true then [p.keys] else []) ++
        -- the row that is read is laid over what is known of it
        if ¬ p.TakesFromSession i w ∧ p.KeepsAnswer i w then
          ((s.reply q.options st w.database).1.toOption.bind (·.first?)).toList.map fun r =>
            (p.policy.keysOfRow (p.completed r)).toOption.getD []
        else []
  | insert x =>
    match x.statement s.prepare, x.entity with
    | .ok st, .ok e =>
      if s.isApplied x.options st w.database = true then
        [((⟨.update, some e⟩ : CachePolicy).keysOfRow (x.row s.prepare)).toOption.getD []]
      else []
    | _, _ => []
  | update u =>
    match u.statement s.prepare, u.entity with
    | .ok st, .ok e =>
      if s.isApplied u.options st w.database = true then
        [u.conditions.keys ⟨.update, some e⟩ s.prepare]
      else []
    | _, _ => []
  | delete d =>
    match d.statement s.prepare with
    | .ok st =>
      if s.isApplied d.options st w.database = true then
        [d.conditions.keys ⟨.delete, some d.entity⟩ s.prepare]
      else []
    | .error _ => []
  | read _ | count _ => []

/-- The table that a call in a unit makes the unit forget. -/
def Call.forgotten? (s : Session σ) (w : State σ) : Call → Option String
  | delete d => if d.forgets s w = true then some d.entity.table.name else none
  | c => c.dropped? s w

/-- Reads and counts do not go through the caches. -/
theorem read_folds (q : Query α) (h : State.Folds us p inner n d)
    (hp : us.get? p = some outer) :
    Outcome.Folds us p (q.run s (some us.list.length) n) (q.run s (some p) d) := by
  refine counted_folds ?_
  unfold Query.fetch Query.build
  cases q.statement s.prepare with
  | error e => exact .of_state h _
  | ok st =>
    have hlogged := h.update (f := fun w => { w with events := w.events ++ q.warnings st })
      (fun _ _ => rfl) rfl
    obtain ⟨n', d', hstate, hn, hd⟩ := execute_folds (s := s) hlogged hp .select q.options st
    simp only [hn, hd]
    cases (s.reply q.options st n.database).1 with
    | error e => exact .of_state hstate _
    | ok answer => exact .of_state hstate _

theorem count_folds (c : RowCount) (h : State.Folds us p inner n d)
    (hp : us.get? p = some outer) :
    Outcome.Folds us p (c.run s (some us.list.length) n) (c.run s (some p) d) := by
  have hcounted : Outcome.Folds us p
      (Session.counted .count (c.fetch s (some us.list.length)) n)
      (Session.counted .count (c.fetch s (some p)) d) := by
    refine counted_folds ?_
    unfold RowCount.fetch RowCount.build
    cases c.statement s.prepare with
    | error e => exact .of_state h _
    | ok st =>
      obtain ⟨n', d', hstate, hn, hd⟩ := execute_folds (s := s) h hp .count c.options st
      simp only [hn, hd]
      cases (s.reply c.options st n.database).1 with
      | error e => exact .of_state hstate _
      | ok answer => exact .of_state hstate _
  obtain ⟨counts, inner', n', d', hstate, hn, hd⟩ := hcounted.exists_eq
  unfold RowCount.run
  rw [hn, hd]
  cases counts with
  | error e => exact .of_state hstate _
  | ok counts => exact .of_state hstate _

/-- An insert asks for the keys of the row that it writes. -/
theorem insert_folds (x : RowInsert) (h : State.Folds us p inner n d)
    (hp : us.get? p = some outer)
    (hsplit : ∀ keys ∈ (Call.insert x).asked s us.list.length n,
      inner.isSplit outer keys = false) :
    Outcome.Folds us p (x.run s (some us.list.length) n) (x.run s (some p) d) := by
  refine counted_folds ?_
  unfold RowInsert.apply RowInsert.build
  cases hst : x.statement s.prepare with
  | error e => exact .of_state h _
  | ok st =>
    refine write_folds h hp fun happlied inner' n' d' hentries hstate => ?_
    obtain ⟨e, he, -⟩ := RowInsert.of_statement hst
    simp only [Call.asked, hst, he, happlied, if_true, List.forall_mem_singleton] at hsplit
    unfold RowInsert.writeThrough
    simp only [he]
    cases hkeys : (⟨.update, some e⟩ : CachePolicy).keysOfRow (x.row s.prepare) with
    | error e => exact .of_state hstate _
    | ok keys =>
      rw [hkeys] at hsplit
      simp only
      split
      next => exact .of_state hstate _
      next =>
        obtain ⟨e, hn, hd⟩ | ⟨inner₁, nested, direct, hn, hd, hstate₁⟩ :=
          hstate.take hp (RowInsert.takes_followInUnit ⟨.update, some e⟩ (x.row s.prepare) keys)
            (by rw [UnitOfWork.isSplit_congr hentries]; exact hsplit)
        · simp only [hn, hd]
          exact .of_state hstate _
        · simp only [hn, hd]
          exact .of_state hstate₁ _

/-- An update asks for the keys of its filters, or forgets its table if they bind none. -/
theorem update_folds (u : RowUpdate) (h : State.Folds us p inner n d)
    (hp : us.get? p = some outer)
    (hsplit : ∀ keys ∈ (Call.update u).asked s us.list.length n,
      inner.isSplit outer keys = false)
    (hforgets : ∀ table, (Call.update u).forgotten? s n = some table → ¬ outer.Knows table) :
    Outcome.Folds us p (u.run s (some us.list.length) n) (u.run s (some p) d) := by
  refine counted_folds ?_
  unfold RowUpdate.apply RowUpdate.build
  cases hst : u.statement s.prepare with
  | error e => exact .of_state h _
  | ok st =>
    refine write_folds h hp fun happlied inner' n' d' hentries hstate => ?_
    obtain ⟨e, -, -, he, -⟩ := RowUpdate.of_statement hst
    simp only [Call.asked, hst, he, happlied, if_true, List.forall_mem_singleton] at hsplit
    simp only [Call.forgotten?, Call.dropped?, hst, he, happlied, true_and] at hforgets
    unfold RowUpdate.writeThrough
    simp only [he]
    by_cases hnil : u.conditions.keys ⟨.update, some e⟩ s.prepare = []
    · have hevicted := hstate.evictSchema hp (hforgets e.table.name (if_pos hnil))
      simp only [hnil, List.isEmpty_nil, if_true]
      exact .of_state (hevicted.update
        (f := fun w => { w with cache := w.cache.invalidateSchema e.table.name })
        (fun _ _ => rfl) rfl) _
    · have hsome : (u.conditions.keys ⟨.update, some e⟩ s.prepare).isEmpty = false := by
        simpa using hnil
      simp only [hsome, Bool.false_eq_true, if_false]
      obtain ⟨err, hn, hd⟩ | ⟨inner₁, nested, direct, hn, hd, hstate₁⟩ :=
        hstate.take hp (RowUpdate.takes_followInUnit u s.prepare ⟨.update, some e⟩ _ n'.cache)
          (by rw [UnitOfWork.isSplit_congr hentries]; exact hsplit)
      · rw [← hstate.cache] at hd
        simp only [hn, hd]
        exact .of_state hstate _
      · rw [← hstate.cache] at hd
        simp only [hn, hd]
        exact .of_state hstate₁ _

theorem delete_folds (x : RowDelete) (h : State.Folds us p inner n d)
    (hp : us.get? p = some outer)
    (hsplit : ∀ keys ∈ (Call.delete x).asked s us.list.length n,
      inner.isSplit outer keys = false)
    (hforgets : ∀ table, (Call.delete x).forgotten? s n = some table → ¬ outer.Knows table) :
    Outcome.Folds us p (x.run s (some us.list.length) n) (x.run s (some p) d) := by
  refine counted_folds ?_
  unfold RowDelete.apply RowDelete.build
  cases hst : x.statement s.prepare with
  | error e => exact .of_state h _
  | ok st =>
    have hlogged := h.update (f := fun w => { w with events := w.events ++ x.warnings st })
      (fun _ _ => rfl) rfl
    refine write_folds hlogged hp fun happlied inner' n' d' hentries hstate => ?_
    have happlied' : s.isApplied x.options st n.database = true := happlied
    have hdone := Session.isApplied_eq_true.1 happlied'
    have hunknown : (x.isTruncate ||
        (x.conditions.keys ⟨.delete, some x.entity⟩ s.prepare).isEmpty) = true →
        ¬ outer.Knows x.entity.table.name := fun hforgotten => hforgets _ (if_pos (by
      simp only [RowDelete.forgets, hst, hdone, Except.toOption, hforgotten]
      rfl))
    simp only [Call.asked, hst, happlied', if_true, List.forall_mem_singleton] at hsplit
    unfold RowDelete.writeThrough
    by_cases htruncate : x.isTruncate = true
    · have hevicted := hstate.evictSchema hp (hunknown (by simp [htruncate]))
      simp only [htruncate, if_true]
      exact .of_state (hevicted.update
        (f := fun w => { w with cache := w.cache.invalidateSchema x.entity.table.name })
        (fun _ _ => rfl) rfl) _
    · simp only [Bool.eq_false_iff.2 htruncate, Bool.false_eq_true, if_false]
      by_cases hnil : (x.conditions.keys ⟨.delete, some x.entity⟩ s.prepare).isEmpty = true
      · simp only [hnil, if_true]
        exact .of_state (hstate.evictSchema hp (hunknown (by simp [hnil]))) _
      · -- the keys of the row that is known are marked on both sides
        have hkeys : RowDelete.deletedKeys ⟨.delete, some x.entity⟩
            (x.conditions.keys ⟨.delete, some x.entity⟩ s.prepare) p d'.units d'.cache =
            RowDelete.deletedKeys ⟨.delete, some x.entity⟩
              (x.conditions.keys ⟨.delete, some x.entity⟩ s.prepare) us.list.length n'.units
              n'.cache := by
          unfold RowDelete.deletedKeys
          rw [hstate.lookup_eq hp (by rw [UnitOfWork.isSplit_congr hentries]; exact hsplit),
            hstate.cache]
        simp only [Bool.eq_false_iff.2 hnil, Bool.false_eq_true, if_false, hkeys]
        cases RowDelete.deletedKeys ⟨.delete, some x.entity⟩
          (x.conditions.keys ⟨.delete, some x.entity⟩ s.prepare) us.list.length n'.units
          n'.cache with
        | error e => exact .of_state hstate _
        | ok all => exact .of_state (hstate.put hp all .deleted) _

/-! ## Lookups -/

/-- The session cache is the same in both runs. -/
theorem sessionForUnit_folds (q : PointQuery.Plan) (h : State.Folds us p inner n d)
    (hp : us.get? p = some outer) :
    Outcome.Folds us p (q.sessionForUnit us.list.length n) (q.sessionForUnit p d) := by
  unfold PointQuery.Plan.sessionForUnit
  simp only [h.cache]
  split
  next => exact .of_state h _
  next =>
    cases q.fromSession? n.cache with
    | error e => exact .of_state h _
    | ok found =>
      cases found with
      | none =>
        have hmissed := h.update (f := (·.miss .session)) (fun _ _ => rfl) rfl
        exact .of_state (hmissed.record hp (-1) 0) _
      | some r =>
        have hhit := h.update (f := (·.hit .session)) (fun _ _ => rfl) rfl
        have hcounted := hhit.record hp 1 0
        simp only
        cases q.policy.keysOfRow r with
        | error e => exact .of_state hcounted _
        | ok keys => exact .of_state (hcounted.put hp keys (.row r false)) _

/-- A lookup is answered in both runs or in none, as long as its keys are not split. -/
theorem withinUnit_folds (q : PointQuery.Plan) (h : State.Folds us p inner n d)
    (hp : us.get? p = some outer)
    (hsplit : q.usesCache = true → inner.isSplit outer q.keys = false) :
    Outcome.Folds us p (q.withinUnit us.list.length n) (q.withinUnit p d) := by
  have hhit := h.update (f := (·.hit .unitOfWork)) (fun _ _ => rfl) rfl
  have hmissed := h.update (f := (·.miss .unitOfWork)) (fun _ _ => rfl) rfl
  unfold PointQuery.Plan.withinUnit
  by_cases huses : q.usesCache = true
  · simp only [huses, Bool.not_true, Bool.false_eq_true, if_false,
      h.lookup_eq hp (hsplit huses)]
    split
    next => exact .of_state h _
    next =>
      cases n.units.lookup us.list.length q.keys with
      | deleted => exact .of_state (hhit.record hp 1 0) _
      | missing => exact sessionForUnit_folds q hmissed hp
      | found r =>
        simp only
        cases q.accepts r with
        | error e => exact .of_state h _
        | ok accepted =>
          cases accepted with
          | true => exact .of_state (hhit.record hp 1 0) _
          | false => exact sessionForUnit_folds q hmissed hp
  · simp only [Bool.eq_false_iff.2 huses, Bool.not_false, if_true]
    exact .of_state h _

/-- A row that was fetched is stored in both runs under the same keys. -/
theorem fetch_folds (q : Query α) {st : Statement} {populate : Bool}
    (h : State.Folds us p inner n d) (hp : us.get? p = some outer)
    (hsplit : populate = true → ∀ answer r,
      (s.reply q.options st n.database).1 = .ok answer → answer.first? = some r →
      inner.isSplit outer (((q.single.plan s.prepare).policy.keysOfRow
        ((q.single.plan s.prepare).completed r)).toOption.getD []) = false) :
    Outcome.Folds us p
      (q.single.fetch s (some us.list.length) (q.single.plan s.prepare) populate st n)
      (q.single.fetch s (some p) (q.single.plan s.prepare) populate st d) := by
  obtain ⟨n', d', hstate, hn, hd⟩ := execute_folds (s := s) h hp .selectFirst q.options st
  have hoptions : q.single.query.options = q.options := rfl
  have hsame : (inner.record 0 1).entries = inner.entries := rfl
  unfold PointQuery.fetch
  simp only [hoptions, hn, hd]
  cases hreply : (s.reply q.options st n.database).1 with
  | error e => exact .of_state hstate _
  | ok answer =>
    cases hfirst : answer.first? with
    | none =>
      simp only [hfirst]
      exact .of_state hstate _
    | some r =>
      simp only [hfirst]
      cases populate with
      | false => exact .of_state hstate _
      | true =>
        simp only [if_true, PointQuery.Plan.populate]
        obtain ⟨err, hn₁, hd₁⟩ | ⟨inner₁, nested, direct, hn₁, hd₁, hstate₁⟩ :=
          hstate.take hp ((q.single.plan s.prepare).takes_populateUnit
            ((q.single.plan s.prepare).completed r))
            (by rw [UnitOfWork.isSplit_congr hsame]; exact hsplit rfl answer r hreply hfirst)
        · simp only [hn₁, hd₁]
          exact .of_state hstate _
        · simp only [hn₁, hd₁]
          exact .of_state hstate₁ _

/-- A lookup asks for the keys of its filters, and for those of the row that it fetched. -/
theorem lookup_folds (q : Query α) (h : State.Folds us p inner n d)
    (hp : us.get? p = some outer)
    (hsplit : ∀ keys ∈ (Call.lookup q).asked s us.list.length n,
      inner.isSplit outer keys = false) :
    Outcome.Folds us p (q.single.run s (some us.list.length) n) (q.single.run s (some p) d) := by
  refine counted_folds ?_
  cases hst : q.single.statement s.prepare with
  | error e =>
    rw [PointQuery.answer_of_error hst, PointQuery.answer_of_error hst]
    exact .of_state h _
  | ok st =>
    simp only [Call.asked, hst, List.forall_mem_append] at hsplit
    obtain ⟨hasked, hread⟩ := hsplit
    have hlogged := h.update
      (f := fun w => { w with events := w.events ++ q.single.query.warnings st })
      (fun _ _ => rfl) rfl
    have hresolved := withinUnit_folds (q.single.plan s.prepare) hlogged hp fun huses =>
      hasked _ (by rw [if_pos huses]; exact List.mem_singleton_self _)
    obtain ⟨found, inner', n', d', hstate, hn, hd⟩ := hresolved.exists_eq
    rw [PointQuery.answer_eq hst, PointQuery.answer_eq hst, PointQuery.Plan.resolve,
      PointQuery.Plan.resolve, hn, hd]
    cases found with
    | error e => exact .of_state hstate _
    | ok found =>
      cases found with
      | deleted | hit r => exact .of_state hstate _
      | miss populate =>
        refine fetch_folds q hstate hp fun hpopulate answer r hreply hfirst => ?_
        -- a row of the session cache would have been a hit
        have hnot : ¬ (q.single.plan s.prepare).TakesFromSession us.list.length n := by
          intro htakes
          obtain ⟨r', w₁, -, -, hwithin⟩ := PointQuery.Plan.withinUnit_of_takesFromSession
            (w := { n with events := n.events ++ q.single.query.warnings st }) htakes
          rw [hn] at hwithin
          cases hkeys : (q.single.plan s.prepare).policy.keysOfRow r' with
          | error e => exact absurd hwithin (by simp [hkeys])
          | ok keys => exact absurd hwithin (by simp [hkeys])
        obtain ⟨hmoved, hmiss⟩ := PointQuery.Plan.withinUnit_of_not_takesFromSession
          (w := { n with events := n.events ++ q.single.query.warnings st }) hnot
        rw [hn] at hmoved hmiss
        have hkeeps : (q.single.plan s.prepare).KeepsAnswer us.list.length n :=
          hmiss.1 (by rw [hpopulate])
        have hentries : inner'.entries = inner.entries := by
          obtain ⟨u, hu, -, hsame⟩ := hmoved.exists_unit hlogged.get?_last
          rw [hstate.get?_last] at hu
          rw [Option.some.inj hu, hsame]
        rw [hmoved.database] at hreply
        have hanswer : (s.reply q.options st n.database).1 = .ok answer := hreply
        rw [UnitOfWork.isSplit_congr hentries]
        refine hread _ ?_
        rw [if_pos ⟨hnot, hkeeps⟩, hanswer]
        simp [Except.toOption, hfirst]

/-! ## Runs -/

/-- A unit and the one around it would answer a lookup by different keys. -/
def Units.isSplit (us : Units) (i p : Nat) (keys : List String) : Bool :=
  match us.get? i, us.get? p with
  | some inner, some outer => inner.isSplit outer keys
  | _, _ => false

/-- A call in a nested unit looks for keys that are split between the unit and its parent, or makes
the unit forget a table of which the parent knows something. -/
def Call.Overlooks (s : Session σ) (i p : Nat) (w : State σ) (c : Call) : Prop :=
  (∃ keys ∈ c.asked s i w, w.units.isSplit i p keys = true) ∨
    ∃ table outer, c.forgotten? s w = some table ∧ w.units.get? p = some outer ∧ outer.Knows table

/-- Which keys are split is said of the units of the run in the nested one. -/
theorem State.Folds.isSplit_eq (h : State.Folds us p inner n d) (hp : us.get? p = some outer)
    (keys : List String) : n.units.isSplit us.list.length p keys = inner.isSplit outer keys := by
  rw [Units.isSplit, h.get?_last, h.get?_parent hp]

theorem Call.not_overlooks {c : Call} {i : Nat} {w : State σ}
    (hsplit : ∀ keys ∈ c.asked s i w, w.units.isSplit i p keys = false)
    (hforgotten : c.forgotten? s w = none) : ¬ c.Overlooks s i p w := by
  rintro (⟨keys, hkeys, hasked⟩ | ⟨table, -, htable, -⟩)
  · exact absurd hasked (by simp [hsplit keys hkeys])
  · exact absurd htable (by simp [hforgotten])

/-- A nested unit that was just begun has nothing to fold in. -/
theorem State.folds_begin (w : State σ) (label : String) (p : Nat) :
    State.Folds w.units p { label, parent := some p } (w.begin label (some p)).2 w where
  parent := rfl
  status := rfl
  nested := rfl
  direct := by
    have hsame : w.units.modify p (·.absorb { label, parent := some p }) = w.units := by
      simp only [UnitOfWork.absorb_begun]
      exact congrArg Units.mk (List.modify_id p w.units.list)
    simp only [State.begin, hsame]

/-- A call that overlooks nothing comes to the same in a nested unit and in its parent. -/
theorem run_folds (c : Call) (h : State.Folds us p inner n d) (hp : us.get? p = some outer)
    (hnot : ¬ c.Overlooks s us.list.length p n) :
    Outcome.Folds us p (c.run s (some us.list.length) n) (c.run s (some p) d) := by
  have hsplit : ∀ keys ∈ c.asked s us.list.length n, inner.isSplit outer keys = false :=
    fun keys hkeys => Bool.eq_false_iff.2 fun hsplit =>
      hnot (.inl ⟨keys, hkeys, (h.isSplit_eq hp keys).trans hsplit⟩)
  have hforgets : ∀ table, c.forgotten? s n = some table → ¬ outer.Knows table :=
    fun table hforgotten hknows => hnot (.inr ⟨table, outer, hforgotten, h.get?_parent hp, hknows⟩)
  cases c with
  | lookup q => exact lookup_folds q h hp hsplit
  | read q => exact read_folds q h hp
  | count x => exact count_folds x h hp
  | insert x => exact insert_folds x h hp hsplit
  | update u => exact update_folds u h hp hsplit hforgets
  | delete x => exact delete_folds x h hp hsplit hforgets

/-- Along a run the two states keep to each other, and the calls have the same results. -/
theorem runAll_folds (hp : us.get? p = some outer) : ∀ (calls : List Call) {inner : UnitOfWork}
    {n d : State σ}, State.Folds us p inner n d →
    s.Along (some us.list.length) (fun c w => ¬ c.Overlooks s us.list.length p w) calls n →
    (s.runAll (some us.list.length) calls n).1 = (s.runAll (some p) calls d).1 ∧
      ∃ inner', State.Folds us p inner' (s.runAll (some us.list.length) calls n).2
        (s.runAll (some p) calls d).2
  | [], inner, _, _, h, _ => ⟨rfl, inner, h⟩
  | c :: calls, _, n, d, h, hcalls => by
    obtain ⟨hresult, inner', hstate⟩ := run_folds c h hp hcalls.1
    obtain ⟨hresults, hend⟩ := runAll_folds hp calls hstate hcalls.2
    refine ⟨?_, hend⟩
    simp only [Session.runAll]
    rw [hresult, hresults]

/-! ## A run in a nested unit -/

/-- Running in a nested unit that is committed afterwards is running in its parent, as long as no
operation looks for keys that are split between the two units or forgets what the parent knows. For
split keys the entry of the nested unit is found, where the parent would have its own. -/
theorem runAll_nested (s : Session σ) {w : State σ} (hp : w.units.get? p = some outer)
    (label : String) {calls : List Call}
    (hcalls : s.Along (some w.units.list.length)
      (fun c w' => ¬ c.Overlooks s w.units.list.length p w') calls
      (w.begin label (some p)).2) :
    let i := w.units.list.length
    let nested := s.runAll (some i) calls (w.begin label (some p)).2
    let direct := s.runAll (some p) calls w
    nested.1 = direct.1 ∧
    (∃ closed : UnitOfWork, closed.status = .committed ∧ closed.entries = ∅ ∧
      nested.2.commit i =
        (.ok (), { direct.2 with units := ⟨direct.2.units.list ++ [closed]⟩ })) ∧
    ∀ (inner : UnitOfWork) (keys : List String), nested.2.units.get? i = some inner →
      inner.isSplit outer keys = true →
      (inner.find? keys).isSome = true ∧ (outer.find? keys).isSome = true ∧
        nested.2.units.find? i keys = inner.find? keys ∧
        direct.2.units.find? p keys = outer.find? keys := by
  obtain ⟨hresults, inner', hend⟩ := runAll_folds hp calls (State.folds_begin w label p) hcalls
  refine ⟨hresults, ⟨_, rfl, rfl, hend.commit hp⟩, fun inner keys hinner hsplit => ?_⟩
  rw [hend.get?_last, Option.some.injEq] at hinner
  subst hinner
  obtain ⟨hfound, hknown, habsorbed⟩ := UnitOfWork.find?_absorb_of_isSplit hsplit
  obtain ⟨entry, hentry⟩ := Option.isSome_iff_exists.1 hfound
  obtain ⟨entry', hentry'⟩ := Option.isSome_iff_exists.1 hknown
  refine ⟨hfound, hknown, ?_, ?_⟩
  · rw [hentry]
    exact Units.find?_of_get? hend.get?_last hentry
  · rw [hentry']
    refine Units.find?_of_get? ?_ (habsorbed.trans hentry')
    rw [hend.direct]
    exact Units.get?_modify hp _

end

/-! ## Users and accounts in nested units -/

namespace User

/-- A unit that has read the name of a user. -/
def reading : State Table := (session.runAll (some 0) [.lookup (nameOf 5)] opened).2

/-- In a nested unit the user is read, renamed and read again. -/
theorem runAll_nested_reread :
    (session.runAll (some 1) rereading (reading.begin "nested" (some 0)).2).1 =
      (session.runAll (some 0) rereading reading).1 := by
  have hsome : (reading.units.get? 0).isSome = true := by decide +kernel
  have hone : reading.units.list.length = 1 := by decide +kernel
  obtain ⟨outer, hp⟩ := Option.isSome_iff_exists.1 hsome
  have hcalls : session.Along (some reading.units.list.length)
      (fun c w => ¬ c.Overlooks session reading.units.list.length 0 w) rereading
      (reading.begin "nested" (some 0)).2 := by
    rw [hone]
    refine ⟨?_, ?_, ?_, trivial⟩
    · exact Call.not_overlooks (by decide +kernel) (by decide +kernel)
    · exact Call.not_overlooks (by decide +kernel) (by decide +kernel)
    · exact Call.not_overlooks (by decide +kernel) (by decide +kernel)
  have hnested := runAll_nested session hp "nested" hcalls
  rw [hone] at hnested
  exact hnested.1

end User

namespace Account

/-- A session that answers each lookup by what was prepared for it. -/
def scripted : Session Script where
  executor := Script.executor

/-- Reads key and address of an account by its key. -/
def addressOf (id : Uuid) : Query (List Typed) :=
  Restricted.whereEq (Query.ofProperties [⟨.uuid, entity, "id"⟩, ⟨.text, entity, "email"⟩])
    (t := .uuid) ⟨entity, "id"⟩ id

/-- Reads the balance of the account with a key and an address. -/
def balanceAt (id : Uuid) (email : String) : Query Int32 :=
  Restricted.whereEq (bareBalanceOf email) (t := .uuid) ⟨entity, "id"⟩ id

/-- A unit has read key and address of an account, whose balance is ten. -/
def addressed : State Script :=
  (scripted.runAll (some 0) [.lookup (addressOf ⟨7⟩)] {
    database.responses := [.ok (.ofCells ["id", "email"] [[some (.uuid ⟨7⟩), some (.text "a@b")]]),
      .ok (.ofCells ["balance"] [[some (.int 10)]]), .ok (.ofCells ["balance"] [[some (.int 10)]])]
    units := Units.begin {} "account" none }).2

/-- The balance is read by the address, and then by key and address. -/
def balances : List Call := [.lookup (bareBalanceOf "a@b"), .lookup (balanceAt ⟨7⟩ "a@b")]

/-- The second lookup looks for two keys. The unit knows a row for the first of them that does not
have the balance, and a nested unit has the balance under the second one, so that it sends one
statement less. -/
theorem nested_sends_less :
    let nested := (scripted.runAll (some 1) balances (addressed.begin "nested" (some 0)).2).2
    let direct := (scripted.runAll (some 0) balances addressed).2
    (nested.commit 1).2.database.executed.length = 2 ∧ direct.database.executed.length = 3 := by
  decide +kernel

end Account

end WideRow
