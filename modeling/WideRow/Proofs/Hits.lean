import WideRow.Proofs.Following

/-!
# When the caches answer

A lookup hits if the caches have a row for its keys that has every column it reads and every value
it asks for (`PointQuery.Plan.Hits`). Outside of units this is the row of the session cache
(`hits_outside`); in a unit it is the unit's own, or that of the session cache where the unit leaves
the lookup open (`hits_in_unit`). A lookup that hits returns what its mapper makes of the row, and
sends no statement (`isAnsweredBy_of_hits`).
-/

namespace WideRow

section

variable {σ : Type} {s : Session σ} {w w' : State σ} {db : σ} {i : Nat} {unit : Option Nat}
  {p : PointQuery.Plan} {r : Row}

namespace PointQuery.Plan

/-- The caches answer a lookup with a row. -/
def Hits (p : Plan) (unit : Option Nat) (w : State σ) (r : Row) : Prop :=
  ∃ w', p.resolve unit w = (.ok (.hit r), w')

/-- A hit outside units takes a cache that may be used, a row and filters that accept it. -/
theorem hits_outside : p.Hits none w r ↔ p.usesCache = true ∧ p.policy.admits w.cache = true ∧
    w.cache.get? p.keys = some r ∧ p.accepts r = .ok true := by
  rw [← fromSession?_eq_some]
  show (∃ w', p.withoutUnit w = _) ↔ _
  have houtside := p.outside_withoutUnit w
  generalize p.withoutUnit w = outcome at houtside ⊢
  cases houtside with
  | passed hskips =>
    simp only [Prod.mk.injEq, Except.ok.injEq, reduceCtorEq, false_and, exists_false, false_iff]
    rintro ⟨huses, hadmits, hr⟩
    exact keys_ne_nil_of_isInSession ⟨r, hr⟩ (hskips huses hadmits)
  | broken _ _ hr | missed _ _ hr => simp [hr]
  | hit huses hadmits hr => simp [huses, hadmits, hr]

/-- What a unit leaves open is a hit of the session cache, if the row can be taken into the unit. -/
theorem Beyond.hits_iff {outcome : Outcome σ Resolution} (h : p.Beyond i w outcome) :
    (∃ w', outcome = (.ok (.hit r), w')) ↔ p.policy.admits w.cache = true ∧
      p.fromSession? w.cache = .ok (some r) ∧ ∃ keys, p.policy.keysOfRow r = .ok keys := by
  cases h with
  | passed hrefused => simp [hrefused]
  | broken _ hr | missed _ hr => simp [hr]
  | unkeyed _ hr hkeys =>
    simp only [hr, Prod.mk.injEq, reduceCtorEq, false_and, exists_false, Except.ok.injEq,
      Option.some.injEq, false_iff, not_and]
    rintro - rfl
    simp [hkeys]
  | taken hadmits hr hkeys =>
    simp only [hadmits, hr, Prod.mk.injEq, Except.ok.injEq, Resolution.hit.injEq,
      Option.some.injEq, true_and, exists_and_left, exists_eq', and_true]
    exact ⟨fun heq => ⟨heq, _, heq ▸ hkeys⟩, And.left⟩

/-- A lookup in a unit is answered with the unit's row or, where this leaves it open, with that of
the session cache, which must have keys to become the unit's. -/
theorem hits_in_unit : p.Hits (some i) w r ↔ p.usesCache = true ∧
    (w.units.lookup i p.keys = .found r ∧ p.accepts r = .ok true ∨
      p.IsOpenAfter (w.units.lookup i p.keys) ∧ p.policy.admits w.cache = true ∧
        w.cache.get? p.keys = some r ∧ p.accepts r = .ok true ∧
        ∃ keys, p.policy.keysOfRow r = .ok keys) := by
  show (∃ w', p.withinUnit i w = _) ↔ _
  have hinside := p.inside_withinUnit i w
  generalize p.withinUnit i w = outcome at hinside ⊢
  cases hinside with
  | passed hignores => simp [hignores]
  | keyless _ hkeys => simp [hkeys, Units.lookup_nil, SessionCache.get?_nil]
  | deleted _ _ hlookup => simp [hlookup, IsOpenAfter]
  | broken huses _ hlookup haccepts =>
    simp only [hlookup, IsOpenAfter, haccepts, UnitAnswer.found.injEq, Prod.mk.injEq, reduceCtorEq,
      false_and, exists_false, or_false, false_iff, not_and]
    rintro - rfl
    simp [haccepts]
  | hit huses _ hlookup haccepts =>
    simp only [huses, hlookup, IsOpenAfter, haccepts, UnitAnswer.found.injEq, Prod.mk.injEq,
      Except.ok.injEq, Resolution.hit.injEq, exists_and_left, exists_eq', and_true, true_and,
      Bool.true_eq_false, false_and, or_false]
    exact ⟨fun heq => ⟨heq, heq ▸ haccepts⟩, And.left⟩
  | beyond huses _ hopen hbeyond =>
    rw [hbeyond.hits_iff, fromSession?_eq_some]
    constructor
    · rintro ⟨hadmits, ⟨hget, haccepts⟩, hkeys⟩
      exact ⟨huses, .inr ⟨hopen, hadmits, hget, haccepts, hkeys⟩⟩
    · rintro ⟨-, ⟨hlookup, haccepts⟩ | ⟨-, hadmits, hget, haccepts, hkeys⟩⟩
      · -- a row that does would not have left the lookup open
        rw [hlookup] at hopen
        exact absurd (haccepts.symm.trans hopen) (by simp)
      · exact ⟨hadmits, ⟨hget, haccepts⟩, hkeys⟩

/-- A hit satisfies the filters. -/
theorem Hits.accepts (h : p.Hits unit w r) : p.accepts r = .ok true := by
  cases unit with
  | none => exact (hits_outside.1 h).2.2.2
  | some i =>
    obtain ⟨-, h | h⟩ := hits_in_unit.1 h
    · exact h.2
    · exact h.2.2.2.1

theorem fst_sessionForUnit_congr (h : w'.cache = w.cache) :
    (p.sessionForUnit i w').1 = (p.sessionForUnit i w).1 := by
  unfold sessionForUnit
  rw [h]
  split
  next => rfl
  next =>
    split
    next => rfl
    next => rfl
    next => split <;> rfl

/-- What is counted and logged does not matter to the caches. -/
theorem fst_resolve_of_moved (h : w.Moved db w') (unit : Option Nat) :
    (p.resolve unit w').1 = (p.resolve unit w).1 := by
  cases unit with
  | none =>
    unfold resolve withoutUnit
    dsimp only
    rw [h.cache]
    split
    next => rfl
    next => split <;> rfl
  | some i =>
    have hsession : (p.sessionForUnit i (w'.miss .unitOfWork)).1 =
        (p.sessionForUnit i (w.miss .unitOfWork)).1 := fst_sessionForUnit_congr h.cache
    unfold resolve withinUnit
    dsimp only
    rw [h.lookup_eq]
    split
    next => rfl
    next =>
      split
      next => rfl
      next =>
        split
        next => rfl
        next => exact hsession
        next =>
          split
          next => rfl
          next => rfl
          next => exact hsession

/-- A lookup is resolved with a row if it is a hit of it. -/
theorem hits_iff : p.Hits unit w r ↔ (p.resolve unit w).1 = .ok (.hit r) :=
  ⟨fun ⟨_, h⟩ => by rw [h], fun h => ⟨(p.resolve unit w).2, Prod.ext h rfl⟩⟩

/-- Hits do not depend on the database. -/
theorem hits_of_moved (h : w.Moved db w') : p.Hits unit w' r ↔ p.Hits unit w r := by
  rw [hits_iff, hits_iff, fst_resolve_of_moved h]

/-- The session cache answers without a statement. -/
theorem Beyond.unsent {outcome : Outcome σ Resolution} (h : p.Beyond i w outcome) :
    outcome.2.database = w.database ∧ outcome.2.metrics.requests = w.metrics.requests := by
  cases h <;> exact ⟨rfl, rfl⟩

/-- To ask the caches is to send no statement. -/
theorem resolve_unsent (p : Plan) (unit : Option Nat) (w : State σ) :
    (p.resolve unit w).2.database = w.database ∧
      (p.resolve unit w).2.metrics.requests = w.metrics.requests := by
  cases unit with
  | none =>
    have houtside := p.outside_withoutUnit w
    rw [resolve]
    generalize p.withoutUnit w = outcome at houtside ⊢
    cases houtside <;> exact ⟨rfl, rfl⟩
  | some i =>
    have hinside := p.inside_withinUnit i w
    rw [resolve]
    generalize p.withinUnit i w = outcome at hinside ⊢
    cases hinside with
    | beyond _ _ _ hbeyond => exact hbeyond.unsent
    | _ => exact ⟨rfl, rfl⟩

end PointQuery.Plan

/-- A lookup returns the item of a row, and sends no statement. -/
structure Query.IsAnsweredBy {α : Type} (q : Query α) (s : Session σ) (unit : Option Nat)
    (w : State σ) (r : Row) : Prop where
  result : (q.single.run s unit w).1 = (q.mapper r).map some
  database : (q.single.run s unit w).2.database = w.database
  requests : (q.single.run s unit w).2.metrics.requests = w.metrics.requests

/-- A hit is an answer without a statement. -/
theorem isAnsweredBy_of_hits {α : Type} {q : Query α} {st : Statement}
    (hst : q.single.statement s.prepare = .ok st) (h : (q.single.plan s.prepare).Hits unit w r) :
    q.IsAnsweredBy s unit w r := by
  have hevents := w.moved_events (w.events ++ q.single.query.warnings st)
  obtain ⟨w', hresolve⟩ := (PointQuery.Plan.hits_of_moved hevents).2 h
  have hunsent := (q.single.plan s.prepare).resolve_unsent unit
    { w with events := w.events ++ q.single.query.warnings st }
  rw [hresolve] at hunsent
  have hanswer : q.single.answer s unit w = ((q.mapper r).map some, w') := by
    rw [PointQuery.answer_eq hst, hresolve]
    rfl
  have hcounted : (Session.counted .selectFirst (q.single.answer s unit) w).2.metrics.requests =
      (q.single.answer s unit w).2.metrics.requests := by
    unfold Session.counted
    split
    next hbroken => rw [hbroken]
    next hrun => rw [hrun]; rfl
  refine ⟨(single_run_of_hit hst hresolve).1, ?_, ?_⟩
  · have hmoved := moved_counted (w := w) (k := .selectFirst) (q.single.answer s unit)
    refine hmoved.database.trans ?_
    rw [hanswer]
    exact hunsent.1
  · refine hcounted.trans ?_
    rw [hanswer]
    exact hunsent.2

end

end WideRow
