import WideRow.Proofs.Calls
import WideRow.Proofs.Keys
import WideRow.Proofs.Statements

/-!
# How a unit resolves a lookup

A unit of work is asked first, with its ancestors. What it answers may leave a lookup open
(`IsOpenAfter`): it has no row, or one that does not do. Then the session cache is asked, and if
it has a row that does, this row becomes the unit's own. The ways in which a lookup is resolved are
the constructors of `Outside`, for lookups outside of units, and of `Inside`, for those in a unit,
with `Beyond` for those that the unit leaves open.

> `withinUnit_of_takesFromSession`: a lookup that takes its row from the session cache leaves it
> in the unit;
> `withinUnit_of_not_takesFromSession`: any other lookup is resolved without a change to any unit;
> `answer_in_unit`, `answer_outside`: what a whole lookup does to the caches, and whether it asks
> the database.

None of this depends on what is counted: a state that has moved on answers alike
(`State.Moved.lookup_eq`).
-/

namespace WideRow

/-! ## Answers of units -/

/-- The row that a unit knows, or an empty one. -/
def UnitAnswer.shown : UnitAnswer → Row
  | found r => r
  | deleted | missing => .empty

/-- A row that was read, laid over the row that the unit knows. -/
def UnitAnswer.merged (r : Row) : UnitAnswer → Except Error Row
  | found known => known.merge r
  | deleted | missing => .ok r

/-- A row that was fetched is laid over what the unit knows of it. -/
theorem PointQuery.Plan.populateUnit_eq (p : Plan) (r : Row) (i : Nat) (us : Units) :
    p.populateUnit r i us = (do
      let facets ← p.policy.facetsOfRow r
      let keys := Facet.keys facets
      if keys.isEmpty then return us
      else
        let merged ← (us.lookup i keys).merged r
        let promote :=
          p.policy.entity.any (·.isCacheable) && facets.length ≥ Facet.leastForSession
        return us.modify i (·.put keys (.row merged promote))) := by
  unfold populateUnit
  cases p.policy.facetsOfRow r with
  | error e => rfl
  | ok facets =>
    simp only [bind, Except.bind]
    split
    next => rfl
    next => cases us.lookup i (Facet.keys facets) <;> rfl

/-- A row that was read leaves the session cache as it is, or goes there by itself or laid over the
row that is cached under its keys. -/
theorem PointQuery.Plan.of_populateSession {p : Plan} {r : Row} {c c' : SessionCache}
    (h : p.populateSession r c = .ok c') :
    c' = c ∨ ∃ keys merged b, p.policy.keysOfRow r = .ok keys ∧
      (merged = r ∨ ∃ known, c.get? keys = some known ∧ known.merge r = .ok merged) ∧
      p.policy.update c merged = .ok (b, c') := by
  unfold populateSession at h
  obtain ⟨keys, hkeys, h⟩ := bind_eq_ok.1 h
  split at h
  next => exact .inl (Except.ok.inj h).symm
  next =>
    cases hget : c.get? keys with
    | none =>
      rw [hget] at h
      obtain ⟨merged, hmerged, h⟩ := bind_eq_ok.1 h
      obtain ⟨⟨b, c₁⟩, hupdate, hc⟩ := bind_eq_ok.1 h
      obtain rfl := Except.ok.inj hc
      exact .inr ⟨keys, merged, b, hkeys, .inl (Except.ok.inj hmerged).symm, hupdate⟩
    | some known =>
      rw [hget] at h
      obtain ⟨merged, hmerged, h⟩ := bind_eq_ok.1 h
      obtain ⟨⟨b, c₁⟩, hupdate, hc⟩ := bind_eq_ok.1 h
      obtain rfl := Except.ok.inj hc
      exact .inr ⟨keys, merged, b, hkeys, .inr ⟨known, hget, hmerged⟩, hupdate⟩

/-- The row that a delete in a unit knows of the record: that of the unit, or else that of the
session cache. -/
def RowDelete.known? (keys : List String) (i : Nat) (us : Units) (c : SessionCache) : Option Row :=
  match us.lookup i keys with
  | .found r => some r
  | _ => c.get? keys

/-- A delete marks the keys of its filters, and those of the row that is known by them. -/
theorem RowDelete.deletedKeys_eq (policy : CachePolicy) (keys : List String) (i : Nat) (us : Units)
    (c : SessionCache) : deletedKeys policy keys i us c =
      (known? keys i us c).elim (.ok keys) fun r => (policy.keysOfRow r).map (keys ++ ·) := by
  unfold deletedKeys known?
  cases us.lookup i keys with
  | found r => rfl
  | _ => cases c.get? keys <;> rfl

/-- A delete marks the keys that it was given, and all those of the row that is known by them. -/
theorem RowDelete.of_deletedKeys {policy : CachePolicy} {keys all : List String} {i : Nat}
    {us : Units} {c : SessionCache} (h : deletedKeys policy keys i us c = .ok all) :
    all = keys ∨ ∃ r more, known? keys i us c = some r ∧ policy.keysOfRow r = .ok more ∧
      all = keys ++ more := by
  rw [deletedKeys_eq] at h
  cases hknown : known? keys i us c with
  | none =>
    rw [hknown] at h
    exact .inl (Except.ok.inj h).symm
  | some r =>
    rw [hknown, Option.elim_some, map_eq_ok] at h
    obtain ⟨more, hmore, hall⟩ := h
    exact .inr ⟨r, more, rfl, hmore, hall.symm⟩

/-- Units that are alike in their parents, and in something else, stand in chains that are. -/
theorem Units.map_chain_congr {γ : Type} {us us' : Units} {g : UnitOfWork → Option Nat × γ}
    (hg : ∀ u, (g u).1 = u.parent) (h : ∀ i, (us'.get? i).map g = (us.get? i).map g) (i : Nat) :
    (us'.chain i).map g = (us.chain i).map g := by
  -- a parent was begun before its unit, so the chain is followed by smaller numbers
  induction i using Nat.strongRecOn with
  | ind i ih =>
    have hi := h i
    rw [Units.chain, Units.chain]
    cases hu : us.get? i with
    | none =>
      rw [hu, Option.map_none, Option.map_eq_none_iff] at hi
      rw [hi]
    | some u =>
      rw [hu, Option.map_some, Option.map_eq_some_iff] at hi
      obtain ⟨u', hu', hknows⟩ := hi
      rw [hu']
      have hparent : u'.parent = u.parent := by rw [← hg u', hknows, hg u]
      simp only [hparent]
      cases u.parent with
      | none => simp [hknows]
      | some p =>
        by_cases hp : p < i
        · simp only [if_pos hp, List.map_cons, hknows, ih p hp]
        · simp only [if_neg hp, List.map_cons, hknows, List.map_nil]

/-- What units know decides what they answer. -/
theorem Units.find?_congr {us us' : Units}
    (h : ∀ i, (us'.get? i).map UnitOfWork.knowledge = (us.get? i).map UnitOfWork.knowledge)
    (i : Nat) (keys : List String) : us'.find? i keys = us.find? i keys := by
  -- a unit looks at its entries only, which are part of what it knows
  have hfind : ∀ us : Units, us.find? i keys = ((us.chain i).map UnitOfWork.knowledge).findSome?
      fun known => keys.findSome? (known.2[·]?) := by
    intro us
    rw [List.findSome?_map]
    rfl
  rw [hfind, hfind, Units.map_chain_congr (fun _ => rfl) h]

/-- What units have for some keys decides what they answer to these. -/
theorem Units.find?_congr_keys {us us' : Units} {keys : List String}
    (h : ∀ i, (us'.get? i).map (fun u => (u.parent, u.find? keys)) =
      (us.get? i).map fun u => (u.parent, u.find? keys)) (i : Nat) :
    us'.find? i keys = us.find? i keys := by
  have hfind : ∀ us : Units, us.find? i keys =
      ((us.chain i).map fun u => (u.parent, u.find? keys)).findSome? Prod.snd := by
    intro us
    rw [List.findSome?_map]
    rfl
  rw [hfind, hfind, Units.map_chain_congr (fun _ => rfl) h]

section

variable {σ : Type} {w w' : State σ} {db : σ} {i : Nat} {p : PointQuery.Plan}

/-- A statement does not change what a unit answers. -/
theorem State.Moved.lookup_eq (h : w.Moved db w') (i : Nat) (keys : List String) :
    w'.units.lookup i keys = w.units.lookup i keys := by
  unfold Units.lookup
  rw [Units.find?_congr h.units]

/-! ## Lookups that are left open -/

/-- What a unit answers leaves a lookup open, so that the session cache is asked. -/
def PointQuery.Plan.IsOpenAfter (p : Plan) : UnitAnswer → Prop
  | .found r => p.accepts r = .ok false
  | .deleted => False
  | .missing => True

/-- The session cache has a row that answers a lookup. -/
def PointQuery.Plan.IsInSession (p : Plan) (c : SessionCache) : Prop :=
  ∃ r, p.fromSession? c = .ok (some r)

/-- A lookup in a unit takes its row from the session cache. -/
def PointQuery.Plan.TakesFromSession (p : Plan) (i : Nat) (w : State σ) : Prop :=
  p.usesCache = true ∧ p.policy.admits w.cache = true ∧
    p.IsOpenAfter (w.units.lookup i p.keys) ∧ p.IsInSession w.cache

/-- A lookup in a unit that does not take its row from the session cache asks the database, and
keeps the row that it reads. -/
def PointQuery.Plan.KeepsAnswer (p : Plan) (i : Nat) (w : State σ) : Prop :=
  p.usesCache = true ∧ (p.keys = [] ∨ p.IsOpenAfter (w.units.lookup i p.keys) ∧
    (p.policy.admits w.cache = true → (p.fromSession? w.cache).isOk = true))

instance (p : PointQuery.Plan) : (a : UnitAnswer) → Decidable (p.IsOpenAfter a)
  | .found r =>
    match h : p.accepts r with
    | .ok false => isTrue h
    | .ok true => isFalse fun h' => by cases h.symm.trans h'
    | .error _ => isFalse fun h' => by cases h.symm.trans h'
  | .deleted => isFalse id
  | .missing => isTrue trivial

instance (p : PointQuery.Plan) (c : SessionCache) : Decidable (p.IsInSession c) :=
  match h : p.fromSession? c with
  | .ok (some r) => isTrue ⟨r, h⟩
  | .ok none => isFalse fun ⟨_, h'⟩ => by cases h.symm.trans h'
  | .error _ => isFalse fun ⟨_, h'⟩ => by cases h.symm.trans h'

instance (p : PointQuery.Plan) (i : Nat) (w : State σ) : Decidable (p.TakesFromSession i w) :=
  inferInstanceAs (Decidable (_ ∧ _ ∧ _ ∧ _))

instance (p : PointQuery.Plan) (i : Nat) (w : State σ) : Decidable (p.KeepsAnswer i w) :=
  inferInstanceAs (Decidable (_ ∧ (_ ∨ _ ∧ (_ → _))))

namespace PointQuery.Plan

/-- A row that the session cache has for a lookup stands under its keys and answers it. -/
theorem of_fromSession? {c : SessionCache} {r : Row} (h : p.fromSession? c = .ok (some r)) :
    c.get? p.keys = some r ∧ p.accepts r = .ok true := by
  unfold fromSession? at h
  cases hget : c.get? p.keys with
  | none =>
    rw [hget] at h
    exact absurd (Except.ok.inj h) (by simp)
  | some found =>
    rw [hget] at h
    cases hb : p.accepts found with
    | error e =>
      simp only [hb] at h
      exact absurd h (by simp [bind, Except.bind])
    | ok b =>
      simp only [hb] at h
      cases b with
      | false => exact absurd (Except.ok.inj h) (by simp)
      | true =>
        have heq : found = r := Option.some.inj (Except.ok.inj h)
        rw [← heq]
        exact ⟨rfl, hb⟩

/-- The session cache answers with a row that the filters accept. -/
theorem fromSession?_eq_some {c : SessionCache} {r : Row} : p.fromSession? c = .ok (some r) ↔
    c.get? p.keys = some r ∧ p.accepts r = .ok true := by
  refine ⟨of_fromSession?, fun ⟨hget, haccepts⟩ => ?_⟩
  unfold fromSession?
  simp only [hget, haccepts]
  rfl

/-- Only a row that is there can break a lookup off. -/
theorem exists_of_fromSession?_error {c : SessionCache} {e : Error}
    (h : p.fromSession? c = .error e) : ∃ r, c.get? p.keys = some r ∧ p.accepts r = .error e := by
  unfold fromSession? at h
  cases hget : c.get? p.keys with
  | none => simp [hget] at h
  | some r =>
    refine ⟨r, rfl, ?_⟩
    cases haccepts : p.accepts r with
    | error e' => simpa [hget, haccepts, bind, Except.bind] using h
    | ok b => simp [hget, haccepts, bind, Except.bind, pure, Except.pure] at h

/-- A lookup that is answered had a key to ask for. -/
theorem keys_ne_nil_of_isInSession {c : SessionCache} (h : p.IsInSession c) : p.keys ≠ [] := by
  intro hnil
  obtain ⟨r, hr⟩ := h
  rw [fromSession?, hnil] at hr
  exact absurd hr (by simp [SessionCache.get?])

/-- How a lookup outside of units is resolved. -/
inductive Outside (p : Plan) (w : State σ) : Outcome σ Resolution → Prop
  /-- The session cache is of no use to it. -/
  | passed (h : p.usesCache = true → p.policy.admits w.cache = true → p.keys = []) :
    Outside p w (.ok (.miss (p.policy.admits w.cache)), w)
  | broken {e : Error} (huses : p.usesCache = true) (hadmits : p.policy.admits w.cache = true)
    (h : p.fromSession? w.cache = .error e) : Outside p w (.error e, w)
  | hit {r : Row} (huses : p.usesCache = true) (hadmits : p.policy.admits w.cache = true)
    (h : p.fromSession? w.cache = .ok (some r)) : Outside p w (.ok (.hit r), w.hit .session)
  | missed (huses : p.usesCache = true) (hadmits : p.policy.admits w.cache = true)
    (h : p.fromSession? w.cache = .ok none) : Outside p w (.ok (.miss true), w.miss .session)

/-- How the session cache resolves a lookup that a unit leaves open. -/
inductive Beyond (p : Plan) (i : Nat) (w : State σ) : Outcome σ Resolution → Prop
  | passed (h : p.policy.admits w.cache ≠ true) : Beyond p i w (.ok (.miss true), w)
  | broken {e : Error} (hadmits : p.policy.admits w.cache = true)
    (h : p.fromSession? w.cache = .error e) : Beyond p i w (.error e, w)
  | missed (hadmits : p.policy.admits w.cache = true) (h : p.fromSession? w.cache = .ok none) :
    Beyond p i w (.ok (.miss true), (w.miss .session).modifyUnit i (·.record (-1) 0))
  /-- The row has no keys to become the unit's own. -/
  | unkeyed {r : Row} {e : Error} (hadmits : p.policy.admits w.cache = true)
    (h : p.fromSession? w.cache = .ok (some r)) (hkeys : p.policy.keysOfRow r = .error e) :
    Beyond p i w (.error e, (w.hit .session).modifyUnit i (·.record 1 0))
  | taken {r : Row} {keys : List String} (hadmits : p.policy.admits w.cache = true)
    (h : p.fromSession? w.cache = .ok (some r)) (hkeys : p.policy.keysOfRow r = .ok keys) :
    Beyond p i w (.ok (.hit r), ((w.hit .session).modifyUnit i (·.record 1 0)).modifyUnit i
      (·.put keys (.row r false)))

/-- How a lookup in a unit is resolved. -/
inductive Inside (p : Plan) (i : Nat) (w : State σ) : Outcome σ Resolution → Prop
  | passed (h : p.usesCache ≠ true) : Inside p i w (.ok (.miss false), w)
  | keyless (huses : p.usesCache = true) (h : p.keys = []) : Inside p i w (.ok (.miss true), w)
  | deleted (huses : p.usesCache = true) (hkeys : p.keys ≠ [])
    (h : w.units.lookup i p.keys = .deleted) :
    Inside p i w (.ok .deleted, (w.hit .unitOfWork).modifyUnit i (·.record 1 0))
  | broken {r : Row} {e : Error} (huses : p.usesCache = true) (hkeys : p.keys ≠ [])
    (h : w.units.lookup i p.keys = .found r) (haccepts : p.accepts r = .error e) :
    Inside p i w (.error e, w)
  | hit {r : Row} (huses : p.usesCache = true) (hkeys : p.keys ≠ [])
    (h : w.units.lookup i p.keys = .found r) (haccepts : p.accepts r = .ok true) :
    Inside p i w (.ok (.hit r), (w.hit .unitOfWork).modifyUnit i (·.record 1 0))
  | beyond {outcome : Outcome σ Resolution} (huses : p.usesCache = true) (hkeys : p.keys ≠ [])
    (hopen : p.IsOpenAfter (w.units.lookup i p.keys))
    (h : p.Beyond i (w.miss .unitOfWork) outcome) : Inside p i w outcome

/-- Outside units a lookup goes one of these ways. -/
theorem outside_withoutUnit (p : Plan) (w : State σ) : p.Outside w (p.withoutUnit w) := by
  unfold withoutUnit
  split
  next hskips =>
    refine .passed fun huses hadmits => ?_
    simpa [huses, hadmits] using hskips
  next hasks =>
    simp only [Bool.or_eq_true, Bool.not_eq_true', not_or, Bool.not_eq_false] at hasks
    obtain ⟨⟨huses, hadmits⟩, -⟩ := hasks
    cases hr : p.fromSession? w.cache with
    | error e => exact .broken huses hadmits hr
    | ok found =>
      cases found with
      | none => exact .missed huses hadmits hr
      | some r => exact .hit huses hadmits hr

/-- What a unit leaves open goes one of these ways. -/
theorem beyond_sessionForUnit (p : Plan) (i : Nat) (w : State σ) :
    p.Beyond i w (p.sessionForUnit i w) := by
  unfold sessionForUnit
  split
  next hrefused => exact .passed (by simpa using hrefused)
  next hadmitted =>
    have hadmits : p.policy.admits w.cache = true := by simpa using hadmitted
    cases hr : p.fromSession? w.cache with
    | error e => exact .broken hadmits hr
    | ok found =>
      cases found with
      | none => exact .missed hadmits hr
      | some r =>
        cases hkeys : p.policy.keysOfRow r with
        | error e =>
          simp only [hkeys]
          exact .unkeyed hadmits hr hkeys
        | ok keys =>
          simp only [hkeys]
          exact .taken hadmits hr hkeys

/-- In a unit a lookup goes one of these ways. -/
theorem inside_withinUnit (p : Plan) (i : Nat) (w : State σ) :
    p.Inside i w (p.withinUnit i w) := by
  unfold withinUnit
  split
  next hignores => exact .passed (by simpa using hignores)
  next hasks =>
    have huses : p.usesCache = true := by simpa using hasks
    split
    next hnone => exact .keyless huses (by simpa using hnone)
    next hsome =>
      have hkeys : p.keys ≠ [] := by simpa using hsome
      have hbeyond := p.beyond_sessionForUnit i (w.miss .unitOfWork)
      cases hlookup : w.units.lookup i p.keys with
      | deleted => exact .deleted huses hkeys hlookup
      | missing => exact .beyond huses hkeys (by rw [hlookup]; trivial) hbeyond
      | found r =>
        cases haccepts : p.accepts r with
        | error e =>
          simp only [haccepts]
          exact .broken huses hkeys hlookup haccepts
        | ok b =>
          simp only [haccepts]
          cases b with
          | true => exact .hit huses hkeys hlookup haccepts
          | false => exact .beyond huses hkeys (by rw [hlookup]; exact haccepts) hbeyond

/-- Outside of units the caches resolve a lookup without a change. -/
theorem moved_withoutUnit (p : Plan) (w : State σ) :
    w.Moved w.database (p.withoutUnit w).2 := by
  have houtside := p.outside_withoutUnit w
  generalize p.withoutUnit w = outcome at houtside ⊢
  cases houtside with
  | passed _ | broken _ _ _ => exact .refl w
  | hit _ _ _ => exact w.moved_hit .session
  | missed _ _ _ => exact w.moved_miss .session

/-- A row that the session cache has for a lookup outside of units answers it. -/
theorem withoutUnit_of_row (huses : p.usesCache = true) (hadmits : p.policy.admits w.cache = true)
    {r : Row} (hr : p.fromSession? w.cache = .ok (some r)) :
    p.withoutUnit w = (.ok (.hit r), w.hit .session) := by
  have houtside := p.outside_withoutUnit w
  generalize p.withoutUnit w = outcome at houtside ⊢
  cases houtside with
  | passed hskips => exact absurd (hskips huses hadmits) (keys_ne_nil_of_isInSession ⟨r, hr⟩)
  | broken _ _ hr' | missed _ _ hr' => cases hr.symm.trans hr'
  | hit _ _ hr' =>
    cases hr.symm.trans hr'
    rfl

/-- A session cache that has no row for a lookup outside of units leaves it to the database. -/
theorem withoutUnit_of_no_row (hadmits : p.policy.admits w.cache = true)
    (hnone : p.usesCache = true → p.fromSession? w.cache = .ok none) :
    ∃ w₁, p.withoutUnit w = (.ok (.miss true), w₁) ∧ w.Moved w.database w₁ := by
  have houtside := p.outside_withoutUnit w
  generalize p.withoutUnit w = outcome at houtside ⊢
  cases houtside with
  | passed _ => exact ⟨w, by rw [hadmits], .refl w⟩
  | broken huses _ hr | hit huses _ hr => cases (hnone huses).symm.trans hr
  | missed _ _ _ => exact ⟨_, rfl, w.moved_miss .session⟩

/-- A lookup that a unit leaves open asks the session cache. -/
theorem withinUnit_of_isOpen (huses : p.usesCache = true) (hkeys : p.keys ≠ [])
    (hopen : p.IsOpenAfter (w.units.lookup i p.keys)) :
    p.withinUnit i w = p.sessionForUnit i (w.miss .unitOfWork) := by
  have hsome : p.keys.isEmpty = false := by simpa using hkeys
  unfold withinUnit
  simp only [huses, hsome, Bool.not_true, Bool.false_eq_true, if_false]
  cases hlookup : w.units.lookup i p.keys with
  | missing => rfl
  | deleted =>
    rw [hlookup] at hopen
    exact hopen.elim
  | found known =>
    rw [hlookup] at hopen
    have hrejects : p.accepts known = .ok false := hopen
    simp only [hrejects]

/-- A row that the session cache has for a unit becomes the unit's own. -/
theorem sessionForUnit_of_row (hadmits : p.policy.admits w.cache = true) {r : Row}
    (hr : p.fromSession? w.cache = .ok (some r)) :
    ∃ w₁, w.Moved w.database w₁ ∧ p.sessionForUnit i w = match p.policy.keysOfRow r with
      | .error e => (.error e, w₁)
      | .ok keys => (.ok (.hit r), w₁.modifyUnit i (·.put keys (.row r false))) := by
  refine ⟨_, (w.moved_hit .session).trans (State.moved_record _ i 1 0), ?_⟩
  unfold sessionForUnit
  rw [hadmits, hr]
  rfl

/-- A lookup that takes its row from the session cache leaves it in the unit, under all its
keys. -/
theorem withinUnit_of_takesFromSession (h : p.TakesFromSession i w) :
    ∃ r w₁, p.fromSession? w.cache = .ok (some r) ∧ w.Moved w.database w₁ ∧
      p.withinUnit i w = match p.policy.keysOfRow r with
        | .error e => (.error e, w₁)
        | .ok keys => (.ok (.hit r), w₁.modifyUnit i (·.put keys (.row r false))) := by
  obtain ⟨huses, hadmits, hopen, r, hr⟩ := h
  obtain ⟨w₁, hmoved, hsession⟩ :=
    sessionForUnit_of_row (w := w.miss .unitOfWork) (i := i) hadmits hr
  refine ⟨r, w₁, hr, (w.moved_miss .unitOfWork).trans hmoved, ?_⟩
  rw [withinUnit_of_isOpen huses (keys_ne_nil_of_isInSession ⟨r, hr⟩) hopen, hsession]

/-- Asking a session cache that has no row for the lookup changes no unit. -/
theorem Beyond.moved {outcome : Outcome σ Resolution} (hbeyond : p.Beyond i w outcome)
    (h : ¬ (p.policy.admits w.cache = true ∧ p.IsInSession w.cache)) :
    w.Moved w.database outcome.2 ∧ (outcome.1 = .ok (.miss true) ↔
      (p.policy.admits w.cache = true → (p.fromSession? w.cache).isOk = true)) := by
  cases hbeyond with
  | passed hrefused => exact ⟨.refl w, by simp [hrefused]⟩
  | broken hadmits hr => exact ⟨.refl w, by simp [hadmits, hr, Except.isOk, Except.toBool]⟩
  | missed hadmits hr =>
    have hmoved := (w.moved_miss .session).trans (State.moved_record _ i (-1) 0)
    exact ⟨hmoved, by simp [hr, Except.isOk, Except.toBool]⟩
  | unkeyed hadmits hr | taken hadmits hr => exact absurd ⟨hadmits, _, hr⟩ h

/-- A lookup that does not take its row from the session cache is resolved without a change to any
unit; whether it keeps what the database answers, `KeepsAnswer` says. -/
theorem withinUnit_of_not_takesFromSession (h : ¬ p.TakesFromSession i w) :
    w.Moved w.database (p.withinUnit i w).2 ∧
      ((p.withinUnit i w).1 = .ok (.miss true) ↔ p.KeepsAnswer i w) := by
  have hhit := (w.moved_hit .unitOfWork).trans (State.moved_record _ i 1 0)
  have hinside := p.inside_withinUnit i w
  generalize p.withinUnit i w = outcome at hinside ⊢
  cases hinside with
  | passed hignores => exact ⟨.refl w, by simp, fun hkeeps => absurd hkeeps.1 hignores⟩
  | keyless huses hkeys => exact ⟨.refl w, fun _ => ⟨huses, .inl hkeys⟩, fun _ => rfl⟩
  | deleted huses hkeys hlookup => exact ⟨hhit, by simp [KeepsAnswer, hkeys, hlookup, IsOpenAfter]⟩
  | broken huses hkeys hlookup haccepts =>
    exact ⟨.refl w, by simp [KeepsAnswer, hkeys, hlookup, IsOpenAfter, haccepts]⟩
  | hit huses hkeys hlookup haccepts =>
    exact ⟨hhit, by simp [KeepsAnswer, hkeys, hlookup, IsOpenAfter, haccepts]⟩
  | beyond huses hkeys hopen hbeyond =>
    obtain ⟨hmoved, hresult⟩ := hbeyond.moved fun hin => h ⟨huses, hin.1, hopen, hin.2⟩
    refine ⟨(w.moved_miss .unitOfWork).trans hmoved, hresult.trans ?_⟩
    exact ⟨fun hok => ⟨huses, .inr ⟨hopen, hok⟩⟩, fun hkeeps => (hkeeps.2.resolve_left hkeys).2⟩

end PointQuery.Plan

/-! ## What a lookup comes to -/

section

variable {α : Type} {s : Session σ} {unit : Option Nat} {st : Statement} {q : PointQuery α}

/-- What a lookup does once the caches were asked. -/
def PointQuery.finish (q : PointQuery α) (s : Session σ) (unit : Option Nat)
    (st : Statement) : Outcome σ PointQuery.Resolution → Outcome σ (Option α)
  | (.error e, w) => (.error e, w)
  | (.ok .deleted, w) => (.ok none, w)
  | (.ok (.hit r), w) => ((q.query.mapper r).map some, w)
  | (.ok (.miss populate), w) => q.fetch s unit (q.plan s.prepare) populate st w

/-- A lookup is its resolution, and then the fetch if there is one. -/
theorem PointQuery.answer_eq (hst : q.statement s.prepare = .ok st) (unit : Option Nat)
    (w : State σ) : q.answer s unit w = q.finish s unit st ((q.plan s.prepare).resolve unit
      { w with events := w.events ++ q.query.warnings st }) := by
  have hst' : q.query.statement s.prepare = .ok st := hst
  unfold answer build Query.build
  simp only [hst']
  rfl

theorem PointQuery.answer_of_error {e : Error} (hst : q.statement s.prepare = .error e)
    (unit : Option Nat) (w : State σ) : q.answer s unit w = (.error e, w) := by
  have hst' : q.query.statement s.prepare = .error e := hst
  unfold answer build Query.build
  simp only [hst']

/-- To ask the database for a row does nothing to the caches, or lets them take the row that it
answers, if this is wanted. -/
theorem PointQuery.fetch_cases (q : PointQuery α) (unit : Option Nat) (p : Plan) (populate : Bool)
    (st : Statement) (hw' : w.Moved w.database w') :
    ∃ w₁, w.Moved (s.reply q.query.options st w.database).2 w₁ ∧
      ((q.fetch s unit p populate st w').2 = w₁ ∨
        populate = true ∧ ∃ answer r, (s.reply q.query.options st w.database).1 = .ok answer ∧
          answer.first? = some r ∧
          (q.fetch s unit p populate st w').2 = (p.populate r unit w₁).2) := by
  obtain ⟨w₁, hexec, hmoved⟩ := hw'.execute_eq (s := s) unit .selectFirst q.query.options st
  refine ⟨w₁, hmoved, ?_⟩
  unfold fetch
  simp only [hexec]
  cases (s.reply q.query.options st w.database).1 with
  | error e => exact .inl rfl
  | ok answer =>
    dsimp only
    cases hfirst : answer.first? with
    | none => exact .inl rfl
    | some r =>
      cases populate with
      | false => exact .inl rfl
      | true =>
        refine .inr ⟨rfl, answer, r, rfl, hfirst, ?_⟩
        dsimp only
        rw [if_pos rfl]
        generalize p.populate r unit w₁ = taken
        obtain ⟨done, w₂⟩ := taken
        cases done <;> rfl

/-- A lookup in a unit that takes its row from the session cache leaves it in the unit. Any other
one leaves the caches alone until it asks the database, and it does ask if it is to keep the
answer. -/
theorem PointQuery.answer_in_unit (hst : q.statement s.prepare = .ok st) (i : Nat) (w : State σ) :
    (∃ r w₁, (q.plan s.prepare).TakesFromSession i w ∧
      (q.plan s.prepare).fromSession? w.cache = .ok (some r) ∧ w.Moved w.database w₁ ∧
      (q.answer s (some i) w).2 = match (q.plan s.prepare).policy.keysOfRow r with
        | .error _ => w₁
        | .ok keys => w₁.modifyUnit i (·.put keys (.row r false))) ∨
    ¬ (q.plan s.prepare).TakesFromSession i w ∧ ∃ w₁, w.Moved w.database w₁ ∧
      (¬ (q.plan s.prepare).KeepsAnswer i w ∧ (q.answer s (some i) w).2 = w₁ ∨
        ∃ populate, (populate = true ↔ (q.plan s.prepare).KeepsAnswer i w) ∧
          q.answer s (some i) w = q.fetch s (some i) (q.plan s.prepare) populate st w₁) := by
  have hevents := w.moved_events (w.events ++ q.query.warnings st)
  rw [answer_eq hst, Plan.resolve]
  by_cases htakes : (q.plan s.prepare).TakesFromSession i w
  · obtain ⟨r, w₁, hr, hmoved, hwithin⟩ := Plan.withinUnit_of_takesFromSession
      (w := { w with events := w.events ++ q.query.warnings st }) htakes
    refine .inl ⟨r, w₁, htakes, hr, hevents.trans hmoved, ?_⟩
    rw [hwithin]
    cases (q.plan s.prepare).policy.keysOfRow r <;> rfl
  · obtain ⟨hmoved, hmiss⟩ := Plan.withinUnit_of_not_takesFromSession
      (w := { w with events := w.events ++ q.query.warnings st }) htakes
    have hmoved₁ := hevents.trans hmoved
    have hkeeps : _ ↔ (q.plan s.prepare).KeepsAnswer i w := hmiss
    refine .inr ⟨htakes, ?_⟩
    generalize (q.plan s.prepare).withinUnit i _ = resolved at hmoved₁ hkeeps ⊢
    obtain ⟨found, w₁⟩ := resolved
    refine ⟨w₁, hmoved₁, ?_⟩
    cases found with
    | error e => exact .inl ⟨fun h => absurd (hkeeps.2 h) (by simp), rfl⟩
    | ok found =>
      cases found with
      | deleted | hit r => exact .inl ⟨fun h => absurd (hkeeps.2 h) (by simp), rfl⟩
      | miss populate => exact .inr ⟨populate, by simpa using hkeeps, rfl⟩

/-- Outside of units an answer is kept only for a cache that admits it. -/
theorem PointQuery.Plan.admits_of_miss (h : (p.withoutUnit w).1 = .ok (.miss true)) :
    p.policy.admits w.cache = true := by
  have houtside := p.outside_withoutUnit w
  generalize p.withoutUnit w = outcome at houtside h
  cases houtside with
  | passed _ =>
    rw [Except.ok.injEq, Resolution.miss.injEq] at h
    exact h
  | broken _ hadmits _ | hit _ hadmits _ | missed _ hadmits _ => exact hadmits

/-- A lookup outside of units leaves the session cache alone until it asks the database. -/
theorem PointQuery.answer_outside (hst : q.statement s.prepare = .ok st) (w : State σ) :
    ∃ w₁, w.Moved w.database w₁ ∧ ((q.answer s none w).2 = w₁ ∨
      ∃ populate, (populate = true → (q.plan s.prepare).policy.admits w.cache = true) ∧
        q.answer s none w = q.fetch s none (q.plan s.prepare) populate st w₁) := by
  have hevents := w.moved_events (w.events ++ q.query.warnings st)
  have hmoved := hevents.trans ((q.plan s.prepare).moved_withoutUnit _)
  have hadmits := Plan.admits_of_miss (p := q.plan s.prepare)
    (w := { w with events := w.events ++ q.query.warnings st })
  rw [answer_eq hst, Plan.resolve]
  generalize (q.plan s.prepare).withoutUnit _ = resolved at hmoved hadmits ⊢
  obtain ⟨found, w₁⟩ := resolved
  refine ⟨w₁, hmoved, ?_⟩
  cases found with
  | error e => exact .inl rfl
  | ok found =>
    cases found with
    | deleted | hit r => exact .inl rfl
    | miss populate => exact .inr ⟨populate, fun hwanted => hadmits (by rw [hwanted]), rfl⟩

end

end

end WideRow
