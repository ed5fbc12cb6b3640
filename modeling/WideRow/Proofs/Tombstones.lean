import WideRow.Proofs.ReadYourWrites

/-!
# Records that a unit has deleted

A unit of work keeps for every key of a record that it has deleted that there is no such record,
and a lookup by such a key is answered by that alone, whatever the session cache and the database
have. The entry can be lost again without an insert or an update, in two ways. A lookup by
something else may bring a row that binds the key, and puts it over the entry (`Query.laid`); and
a delete without keys makes the unit forget the table (`RowDelete.forgets`). Nothing else does it:

> `lookup_after_delete`: after a delete, and any run of lookups, reads, counts and deletes that
> does neither to the keys of the deleted record, a lookup by these keys finds nothing and sends
> no statement. The next operation leaves them marked exactly if it does neither as well.

Nothing is assumed here of the database, nor of the session cache, the unit or its ancestors.
-/

namespace WideRow

section

variable {σ : Type}

/-- A unit has entries for some keys which say that their records are deleted. -/
def State.MarksDeleted (w : State σ) (i : Nat) (keys : List String) : Prop :=
  ∃ u, w.units.get? i = some u ∧ ∀ key ∈ keys, u.entries[key]? = some .deleted

/-! ## What takes a mark away -/

/-- The row that a lookup in a unit brings: that of the session cache, or the one that it reads, if
it can be laid over what the unit knows. -/
def Query.brought? {α : Type} (q : Query α) (s : Session σ) (i : Nat) (w : State σ) : Option Row :=
  let p := q.single.plan s.prepare
  match q.single.statement s.prepare with
  | .error _ => none
  | .ok st =>
    if p.TakesFromSession i w then (p.fromSession? w.cache).toOption.join
    else if p.KeepsAnswer i w then
      (((s.reply q.options st w.database).1.toOption.bind (·.first?)).map p.completed).filter
        fun r => (p.populateUnit r i w.units).isOk
    else none

/-- The keys under which a lookup in a unit puts a row. -/
def Query.laid {α : Type} (q : Query α) (s : Session σ) (i : Nat) (w : State σ) : List String :=
  match q.brought? s i w with
  | none => []
  | some r => ((q.single.plan s.prepare).policy.keysOfRow r).toOption.getD []

/-- A delete in a unit is applied and makes the unit forget its table. -/
def RowDelete.forgets (d : RowDelete) (s : Session σ) (w : State σ) : Bool :=
  match d.statement s.prepare with
  | .error _ => false
  | .ok st =>
    ((s.reply d.options st w.database).1.bind ResultSet.wasApplied).toOption == some true &&
      (d.isTruncate || (d.conditions.keys ⟨.delete, some d.entity⟩ s.prepare).isEmpty)

/-- A call in a unit takes away that a key is deleted. -/
def Call.Uncovers (s : Session σ) (i : Nat) (w : State σ) (key : String) : Call → Prop
  | lookup q => key ∈ q.laid s i w
  | delete d => d.forgets s w = true ∧
      (Facet.schemaStart d.entity.table.name).isPrefixOf key = true
  | _ => False

instance (s : Session σ) (i : Nat) (w : State σ) (key : String) :
    (c : Call) → Decidable (c.Uncovers s i w key)
  | .lookup _ => inferInstanceAs (Decidable (_ ∈ _))
  | .delete _ => inferInstanceAs (Decidable (_ ∧ _))
  | .read _ | .count _ | .insert _ | .update _ => isFalse id

/-- An operation that is neither an insert nor an update. -/
def Call.WritesNoRow : Call → Prop
  | insert _ | update _ => False
  | _ => True

/-! ## Rows that a lookup brings -/

/-- A row went under keys of a unit, and nothing else happened to its entries. -/
def State.Lays (w w' : State σ) (i : Nat) (keys : List String) : Prop :=
  ∀ u, w.units.get? i = some u → ∃ u' r b, w'.units.get? i = some u' ∧
    ∀ key : String, u'.entries[key]? = if key ∈ keys then some (.row r b) else u.entries[key]?

variable {s : Session σ} {unit : Option Nat} {i : Nat} {w w' w'' : State σ} {db : σ}
  {keys : List String}

/-- A statement lays no row over anything. -/
theorem State.Moved.lays (h : w.Moved db w') (i : Nat) : w.Lays w' i [] := by
  intro u hu
  obtain ⟨u', hu', -, hentries⟩ := h.exists_unit hu
  exact ⟨u', .empty, false, hu', fun key => by simp [hentries]⟩

/-- A statement after it lays none either. -/
theorem State.Lays.moved (h : w.Lays w' i keys) (h' : w'.Moved db w'') : w.Lays w'' i keys := by
  intro u hu
  obtain ⟨u', r, b, hu', hlaid⟩ := h u hu
  obtain ⟨u'', hu'', -, hentries⟩ := h'.exists_unit hu'
  exact ⟨u'', r, b, hu'', by rw [hentries]; exact hlaid⟩

theorem State.Moved.lays_put (h : w.Moved db w') (i : Nat) (keys : List String) (r : Row)
    (b : Bool) : w.Lays (w'.modifyUnit i (·.put keys (.row r b))) i keys := by
  intro u hu
  obtain ⟨u', hu', -, hentries⟩ := h.exists_unit hu
  refine ⟨u'.put keys (.row r b), r, b, Units.get?_modify hu' _, fun key => ?_⟩
  rw [UnitOfWork.entries_put, hentries]

/-- A row that was read goes under all its keys. -/
theorem PointQuery.Plan.lays_populateUnit {p : Plan} {r : Row} {units : Units}
    (h : w.Moved db w') (hunits : p.populateUnit r i w'.units = .ok units) :
    w.Lays { w' with units } i ((p.policy.keysOfRow r).toOption.getD []) := by
  rw [populateUnit_eq] at hunits
  obtain ⟨facets, hfacets, hunits⟩ := bind_eq_ok.1 hunits
  rw [CachePolicy.keysOfRow_of_facets hfacets]
  show w.Lays _ i (Facet.keys facets)
  dsimp only at hunits
  split at hunits
  next hnil =>
    rw [List.isEmpty_iff.1 hnil, ← Except.ok.inj hunits]
    exact h.lays i
  next =>
    obtain ⟨merged, -, hunits⟩ := bind_eq_ok.1 hunits
    rw [← Except.ok.inj hunits]
    exact h.lays_put i _ merged _

/-- Whether a row can be laid over what a unit knows does not depend on what is counted. -/
theorem PointQuery.Plan.isOk_populateUnit (p : Plan) (r : Row) (h : w.Moved db w') (i : Nat) :
    (p.populateUnit r i w'.units).isOk = (p.populateUnit r i w.units).isOk := by
  rw [populateUnit_eq, populateUnit_eq]
  cases p.policy.facetsOfRow r with
  | error e => rfl
  | ok facets =>
    simp only [bind, Except.bind, h.lookup_eq]
    split
    next => rfl
    next => cases (w.units.lookup i (Facet.keys facets)).merged r <;> rfl

/-- What asking the database does to the unit of a lookup. -/
theorem PointQuery.lays_fetch {α : Type} (q : PointQuery α) (s : Session σ) (p : Plan)
    (st : Statement) (h : w.Moved w.database w') :
    w.Lays (q.fetch s (some i) p false st w').2 i [] ∧
      w.Lays (q.fetch s (some i) p true st w').2 i
        (match (((s.reply q.query.options st w.database).1.toOption.bind (·.first?)).map
            p.completed).filter fun r => (p.populateUnit r i w.units).isOk with
          | none => []
          | some r => (p.policy.keysOfRow r).toOption.getD []) := by
  obtain ⟨w₁, hexec, hmoved₁⟩ := h.execute_eq (s := s) (some i) .selectFirst q.query.options st
  unfold fetch
  simp only [hexec]
  cases (s.reply q.query.options st w.database).1 with
  | error e => exact ⟨hmoved₁.lays i, hmoved₁.lays i⟩
  | ok answer =>
    cases hfirst : answer.first? with
    | none =>
      simp only [hfirst, Except.toOption, Option.bind_some, Option.map_none, Option.filter_none]
      exact ⟨hmoved₁.lays i, hmoved₁.lays i⟩
    | some r =>
      simp only [hfirst, Except.toOption, Option.bind_some, Option.map_some, Bool.false_eq_true,
        if_false, if_true]
      refine ⟨hmoved₁.lays i, ?_⟩
      have hok := p.isOk_populateUnit (p.completed r) hmoved₁ i
      rw [Option.filter_some, ← hok]
      simp only [Plan.populate]
      cases hunits : p.populateUnit (p.completed r) i w₁.units with
      | error e => exact hmoved₁.lays i
      | ok units => exact Plan.lays_populateUnit hmoved₁ hunits

/-- A lookup in a unit puts the row that it brings under its keys, and does nothing else. -/
theorem lays_lookup {α : Type} (q : Query α) (s : Session σ) (i : Nat) (w : State σ) :
    w.Lays (q.single.run s (some i) w).2 i (q.laid s i w) := by
  have hcounted := moved_counted (k := .selectFirst) (w := w) (q.single.answer s (some i))
  refine State.Lays.moved ?_ hcounted
  unfold Query.laid Query.brought?
  cases hst : q.single.statement s.prepare with
  | error e =>
    rw [PointQuery.answer_of_error hst]
    exact (State.Moved.refl w).lays i
  | ok st =>
    dsimp only
    obtain ⟨r, w₁, htakes, hr, hmoved, hanswer⟩ | ⟨htakes, w₁, hmoved, hanswer⟩ :=
      PointQuery.answer_in_unit hst i w
    · -- the row of the session cache goes into the unit as it is
      rw [hanswer, if_pos htakes, hr]
      simp only [Except.toOption, Option.join_some]
      cases (q.single.plan s.prepare).policy.keysOfRow r with
      | error e => exact hmoved.lays i
      | ok keys => exact hmoved.lays_put i keys r false
    · -- otherwise only what the database answers can go there, if the lookup keeps it
      rw [if_neg htakes]
      obtain ⟨hlost, hkept⟩ := q.single.lays_fetch s (q.single.plan s.prepare) st hmoved
      obtain ⟨hnot, hanswer⟩ | ⟨populate, hkeeps, hanswer⟩ := hanswer
      · rw [hanswer, if_neg hnot]
        exact hmoved.lays i
      · rw [hanswer]
        cases populate with
        | false =>
          rw [if_neg fun h => absurd (hkeeps.2 h) (by simp)]
          exact hlost
        | true =>
          rw [if_pos (hkeeps.1 rfl)]
          exact hkept

/-! ## Marks -/

/-- Marks stay when a statement is sent. -/
theorem State.MarksDeleted.moved (h : w.MarksDeleted i keys) (hmoved : w.Moved db w') :
    w'.MarksDeleted i keys := by
  obtain ⟨u, hu, hmarks⟩ := h
  obtain ⟨u', hu', -, hentries⟩ := hmoved.exists_unit hu
  exact ⟨u', hu', by rw [hentries]; exact hmarks⟩

theorem State.Moved.marksDeleted_iff (h : w.Moved db w') :
    w'.MarksDeleted i keys ↔ w.MarksDeleted i keys :=
  ⟨fun hmarks => hmarks.moved h.symm, fun hmarks => hmarks.moved h⟩

/-- A row takes away the marks of its keys, and only those. -/
theorem State.Lays.marksDeleted_iff {laid : List String} (h : w.Lays w' i laid)
    (hmarks : w.MarksDeleted i keys) : w'.MarksDeleted i keys ↔ ∀ key ∈ keys, key ∉ laid := by
  obtain ⟨u, hu, hdeleted⟩ := hmarks
  obtain ⟨u', r, b, hu', hlaid⟩ := h u hu
  constructor
  · rintro ⟨v, hv, hstill⟩ key hkey hmem
    rw [hu', Option.some.injEq] at hv
    subst hv
    have hrow := hstill key hkey
    rw [hlaid, if_pos hmem] at hrow
    exact absurd hrow (by simp)
  · intro hspared
    refine ⟨u', hu', fun key hkey => ?_⟩
    rw [hlaid, if_neg (hspared key hkey)]
    exact hdeleted key hkey

/-- Forgetting a table takes away the marks of its keys, and only those. -/
theorem marksDeleted_evictSchema (h : w.MarksDeleted i keys) (schema : String) :
    (w.modifyUnit i (·.evictSchema schema)).MarksDeleted i keys ↔
      ∀ key ∈ keys, ¬ (Facet.schemaStart schema).isPrefixOf key = true := by
  obtain ⟨u, hu, hdeleted⟩ := h
  have hevicted : (w.modifyUnit i (·.evictSchema schema)).units.get? i =
      some (u.evictSchema schema) := Units.get?_modify hu _
  have hentry : ∀ key ∈ keys, (u.evictSchema schema).entries[key]? =
      if (Facet.schemaStart schema).isPrefixOf key = true then none else some .deleted := by
    intro key hkey
    rw [UnitOfWork.evictSchema, Std.ExtTreeMap.getElem?_filter', hdeleted key hkey]
    cases (Facet.schemaStart schema).isPrefixOf key <;> rfl
  constructor
  · rintro ⟨v, hv, hstill⟩ key hkey hprefix
    rw [hevicted, Option.some.injEq] at hv
    subst hv
    have hgone := hstill key hkey
    rw [hentry key hkey, if_pos hprefix] at hgone
    exact absurd hgone (by simp)
  · intro hspared
    refine ⟨_, hevicted, fun key hkey => ?_⟩
    rw [hentry key hkey, if_neg (hspared key hkey)]

/-- Marking keys as deleted. -/
theorem marksDeleted_put {u : UnitOfWork} (hu : w.units.get? i = some u) {all : List String}
    (h : ∀ key ∈ keys, key ∈ all ∨ u.entries[key]? = some .deleted) :
    (w.modifyUnit i (·.put all .deleted)).MarksDeleted i keys := by
  refine ⟨u.put all .deleted, Units.get?_modify hu _, fun key hkey => ?_⟩
  rw [UnitOfWork.entries_put]
  split
  next => rfl
  next hnot => exact (h key hkey).resolve_left hnot

/-! ## Deletes -/

/-- The keys that a delete marks. -/
theorem subset_deletedKeys {policy : CachePolicy} {us : Units} {c : SessionCache}
    {all : List String} (h : RowDelete.deletedKeys policy keys i us c = .ok all) :
    ∀ key ∈ keys, key ∈ all := by
  intro key hkey
  rcases RowDelete.of_deletedKeys h with rfl | ⟨r, more, -, -, rfl⟩
  · exact hkey
  · exact List.mem_append_left more hkey

/-- What an applied delete does to the marks of a unit. -/
theorem marksDeleted_writeThrough (d : RowDelete) (prepare : ValuePreparer)
    (h : w.MarksDeleted i keys) : (d.writeThrough prepare (some i) w).2.MarksDeleted i keys ↔
      ∀ key ∈ keys, ¬ ((d.isTruncate ||
        (d.conditions.keys ⟨.delete, some d.entity⟩ prepare).isEmpty) = true ∧
          (Facet.schemaStart d.entity.table.name).isPrefixOf key = true) := by
  by_cases htruncate : d.isTruncate = true
  · rw [RowDelete.writeThrough_of_truncate htruncate]
    simp only [htruncate, Bool.true_or, true_and]
    exact marksDeleted_evictSchema h _
  · have hrows := Bool.eq_false_iff.2 htruncate
    by_cases hnil : d.conditions.keys ⟨.delete, some d.entity⟩ prepare = []
    · rw [RowDelete.writeThrough_of_no_keys hrows hnil]
      simp only [hnil, List.isEmpty_nil, Bool.or_true, true_and]
      exact marksDeleted_evictSchema h _
    · rw [RowDelete.writeThrough_of_keys hrows hnil]
      simp only [hrows, List.isEmpty_iff, hnil, Bool.or_eq_true, Bool.false_eq_true, or_self,
        false_and, not_false_iff, implies_true, iff_true]
      cases RowDelete.deletedKeys ⟨.delete, some d.entity⟩
        (d.conditions.keys ⟨.delete, some d.entity⟩ prepare) i w.units w.cache with
      | error e => exact h
      | ok all =>
        obtain ⟨u, hu, hdeleted⟩ := h
        exact marksDeleted_put hu fun key hkey => .inr (hdeleted key hkey)

/-- A delete in a unit takes away the marks of its table if it makes the unit forget it, and none
otherwise. -/
theorem marksDeleted_delete (d : RowDelete) (s : Session σ) (h : w.MarksDeleted i keys) :
    (d.run s (some i) w).2.MarksDeleted i keys ↔
      ∀ key ∈ keys, ¬ (Call.delete d).Uncovers s i w key := by
  have hcounted := moved_counted (k := .delete) (w := w) (d.apply s (some i))
  refine hcounted.marksDeleted_iff.trans ?_
  show _ ↔ ∀ key ∈ keys, ¬ (d.forgets s w = true ∧ _)
  unfold RowDelete.apply RowDelete.build
  cases hst : d.statement s.prepare with
  | error e =>
    have hforgets : d.forgets s w = false := by rw [RowDelete.forgets, hst]
    simpa [hforgets] using h
  | ok st =>
    have hforgets : d.forgets s w =
        (((s.reply d.options st w.database).1.bind ResultSet.wasApplied).toOption == some true &&
          (d.isTruncate ||
            (d.conditions.keys ⟨.delete, some d.entity⟩ s.prepare).isEmpty)) := by
      rw [RowDelete.forgets, hst]
    have hevents := w.moved_events (w.events ++ d.warnings st)
    generalize hw₁ : ({ w with events := w.events ++ d.warnings st } : State σ) = w₁ at hevents
    simp only [hw₁]
    have hreply : (s.execute (some i) .delete d.options st w₁).1 =
        (s.reply d.options st w.database).1 := by rw [execute_fst, hevents.database]
    have hmoved : w.Moved _ (s.execute (some i) .delete d.options st w₁).2 :=
      hevents.trans moved_execute
    -- only a delete that was applied touches the marks
    by_cases happlied : (s.reply d.options st w.database).1.bind ResultSet.wasApplied = .ok true
    · rw [write_snd_of_applied (by rw [hreply]; exact happlied), hforgets, happlied]
      exact marksDeleted_writeThrough d s.prepare (h.moved hmoved)
    · have hnot : ((s.reply d.options st w.database).1.bind ResultSet.wasApplied).toOption ≠
          some true := by
        intro hsome
        cases hb : (s.reply d.options st w.database).1.bind ResultSet.wasApplied with
        | error e => rw [hb] at hsome; exact absurd hsome (by simp [Except.toOption])
        | ok b =>
          rw [hb] at hsome happlied
          exact happlied (congrArg Except.ok (Option.some.inj hsome))
      have hkept : d.forgets s w = false := by
        rw [hforgets, beq_eq_false_iff_ne.2 hnot, Bool.false_and]
      rw [write_of_not_applied (by rw [hreply]; exact happlied), hkept]
      simpa using h.moved hmoved

/-- After an applied delete a unit marks the keys of its filters. -/
theorem marksDeleted_of_applied {d : RowDelete} {u : UnitOfWork} (hu : w.units.get? i = some u)
    (hrows : d.isTruncate = false) (hkeys : keys ≠ [])
    (hbound : ∀ key ∈ keys, key ∈ d.conditions.keys ⟨.delete, some d.entity⟩ s.prepare)
    {answer : ResultSet} (hrun : (d.run s (some i) w).1 = .ok answer)
    (happlied : answer.wasApplied = .ok true) : (d.run s (some i) w).2.MarksDeleted i keys := by
  have hcounted := moved_counted (k := .delete) (w := w) (d.apply s (some i))
  refine hcounted.marksDeleted_iff.2 ?_
  have happly : (d.apply s (some i) w).1 = .ok answer := (counted_fst _).symm.trans hrun
  have hsome : d.conditions.keys ⟨.delete, some d.entity⟩ s.prepare ≠ [] := by
    obtain ⟨key, hkey⟩ := List.exists_mem_of_ne_nil _ hkeys
    exact List.ne_nil_of_mem (hbound key hkey)
  unfold RowDelete.apply RowDelete.build at happly ⊢
  cases hst : d.statement s.prepare with
  | error e =>
    rw [hst] at happly
    exact absurd happly (by simp)
  | ok st =>
    simp only [hst] at happly ⊢
    generalize hw₁ : ({ w with events := w.events ++ d.warnings st } : State σ) = w₁ at happly ⊢
    have hmoved : w.Moved (s.reply d.options st w.database).2
        (s.execute (some i) .delete d.options st w₁).2 := by
      rw [← hw₁]
      exact (w.moved_events (w.events ++ d.warnings st)).trans moved_execute
    obtain ⟨u', hu', -⟩ := hmoved.exists_unit hu
    obtain ⟨hthrough, hafter⟩ := of_write_applied happly happlied
    rw [hafter]
    rw [RowDelete.writeThrough_of_keys hrows hsome] at hthrough ⊢
    cases hall : RowDelete.deletedKeys ⟨.delete, some d.entity⟩
        (d.conditions.keys ⟨.delete, some d.entity⟩ s.prepare) i
        (s.execute (some i) .delete d.options st w₁).2.units
        (s.execute (some i) .delete d.options st w₁).2.cache with
    | error e =>
      rw [hall] at hthrough
      exact absurd hthrough (by simp)
    | ok all =>
      exact marksDeleted_put hu' fun key hkey =>
        .inl (subset_deletedKeys hall key (hbound key hkey))

/-! ## Runs -/

theorem ignoresCounts_moved (w : State σ) :
    State.IgnoresCounts fun w' => w.Moved w'.database w' := by
  intro w' w'' hmoved h
  show w.Moved w''.database w''
  rw [hmoved.database]
  exact h.trans hmoved

/-- Reading all rows changes no unit. -/
theorem moved_read {α : Type} (q : Query α) (s : Session σ) (unit : Option Nat) (w : State σ) :
    w.Moved (q.run s unit w).2.database (q.run s unit w).2 :=
  (read_follows (ignoresCounts_moved w) (.refl w) fun _ _ w₁ hw₁ => by
    rw [hw₁.database]
    exact hw₁).kept

/-- Counting rows changes no unit. -/
theorem moved_count (c : RowCount) (s : Session σ) (unit : Option Nat) (w : State σ) :
    w.Moved (c.run s unit w).2.database (c.run s unit w).2 :=
  (count_follows (ignoresCounts_moved w) (.refl w) fun _ _ w₁ hw₁ => by
    rw [hw₁.database]
    exact hw₁).kept

/-- One operation keeps the marks of a unit exactly if it uncovers none of the keys. -/
theorem marksDeleted_run {c : Call} (hc : c.WritesNoRow) (h : w.MarksDeleted i keys) :
    (c.run s (some i) w).2.MarksDeleted i keys ↔ ∀ key ∈ keys, ¬ c.Uncovers s i w key := by
  cases c with
  | lookup q => exact (lays_lookup q s i w).marksDeleted_iff h
  | delete d => exact marksDeleted_delete d s h
  | read q =>
    exact (moved_read q s (some i) w).marksDeleted_iff.trans ⟨fun _ _ _ => id, fun _ => h⟩
  | count c =>
    exact (moved_count c s (some i) w).marksDeleted_iff.trans ⟨fun _ _ _ => id, fun _ => h⟩
  | insert _ => exact hc.elim
  | update _ => exact hc.elim

/-- A lookup by keys that a unit, or an ancestor, marks as deleted finds nothing and sends no
statement. -/
theorem lookup_of_deleted {α : Type} {q : Query α} {st : Statement}
    (hst : q.single.statement s.prepare = .ok st) (huses : q.options.usesCache = true)
    (hkeys : (q.single.plan s.prepare).keys ≠ [])
    (h : w.units.lookup i (q.single.plan s.prepare).keys = .deleted) :
    (q.single.run s (some i) w).1 = .ok none ∧
      (q.single.run s (some i) w).2.database = w.database ∧
      (q.single.run s (some i) w).2.metrics.requests = w.metrics.requests := by
  have huses' : (q.single.plan s.prepare).usesCache = true := huses
  have hsome : (q.single.plan s.prepare).keys.isEmpty = false := by simpa using hkeys
  have hanswer : ∃ w', q.single.answer s (some i) w = (.ok none, w') ∧
      w'.database = w.database ∧ w'.metrics.requests = w.metrics.requests := by
    rw [PointQuery.answer_eq hst]
    simp only [PointQuery.Plan.resolve, PointQuery.Plan.withinUnit, huses', hsome, h,
      Bool.not_true, Bool.false_eq_true, if_false]
    exact ⟨_, rfl, rfl, rfl⟩
  obtain ⟨w', hanswer, hdb, hrequests⟩ := hanswer
  unfold PointQuery.run Session.counted
  simp only [hanswer]
  exact ⟨trivial, hdb, hrequests⟩

/-- Keys that are all marked are answered by the mark. -/
theorem State.MarksDeleted.lookup_eq (h : w.MarksDeleted i keys) {bound : List String}
    (hbound : bound ≠ []) (hsubset : ∀ key ∈ bound, key ∈ keys) :
    w.units.lookup i bound = .deleted := by
  obtain ⟨u, hu, hdeleted⟩ := h
  obtain ⟨key, rest, rfl⟩ := List.exists_cons_of_ne_nil hbound
  have hfind : u.find? (key :: rest) = some .deleted := by
    rw [UnitOfWork.find?_cons, hdeleted key (hsubset key (List.mem_cons_self ..))]
    rfl
  unfold Units.lookup
  rw [Units.find?_of_get? hu hfind]

/-- After a delete by keys, and a run that uncovers none of them, a lookup by these keys finds
nothing and sends no statement; and the unit goes on marking them as deleted exactly as long as no
operation uncovers one. -/
theorem lookup_after_delete (s : Session σ) (d : RowDelete) (keys : List String)
    (calls : List Call) {u : UnitOfWork} (hunit : w.units.get? i = some u)
    (hrows : d.isTruncate = false) (hkeys : keys ≠ [])
    (hbound : ∀ key ∈ keys, key ∈ d.conditions.keys ⟨.delete, some d.entity⟩ s.prepare)
    {answer : ResultSet} (hrun : (d.run s (some i) w).1 = .ok answer)
    (happlied : answer.wasApplied = .ok true) (hcalls : ∀ c ∈ calls, c.WritesNoRow)
    (hspared : s.Along (some i) (fun c w' => ∀ key ∈ keys, ¬ c.Uncovers s i w' key) calls
      (d.run s (some i) w).2) :
    let after := (s.runAll (some i) calls (d.run s (some i) w).2).2
    (∀ {α : Type} (q : Query α) (st : Statement), q.single.statement s.prepare = .ok st →
      q.options.usesCache = true → (q.single.plan s.prepare).keys ≠ [] →
      (∀ key ∈ (q.single.plan s.prepare).keys, key ∈ keys) →
        (q.single.run s (some i) after).1 = .ok none ∧
          (q.single.run s (some i) after).2.database = after.database ∧
          (q.single.run s (some i) after).2.metrics.requests = after.metrics.requests) ∧
    ∀ c : Call, c.WritesNoRow → ((c.run s (some i) after).2.MarksDeleted i keys ↔
      ∀ key ∈ keys, ¬ c.Uncovers s i after key) := by
  intro after
  have hstart := marksDeleted_of_applied hunit hrows hkeys hbound hrun happlied
  have hmarks : after.MarksDeleted i keys :=
    (Session.Along.of_step s (R := fun _ _ => True) (fun c hc _ hw hnot =>
      ⟨trivial, (marksDeleted_run (hcalls c hc) hw).2 hnot⟩) hspared hstart).2
  refine ⟨fun q st hst huses hne hsubset => ?_, fun c hc => marksDeleted_run hc hmarks⟩
  exact lookup_of_deleted hst huses hne (hmarks.lookup_eq hne hsubset)

end

/-! ## Users -/

namespace User

/-- Removes a user. -/
def removal (id : Int32) : RowDelete :=
  Restricted.whereEq (RowDelete.of entity) (t := .int) ⟨entity, "id"⟩ id

/-- A session with a database that carries out no delete, although it says so, and has the same
user for every query. -/
def stubborn : Session Unit where
  executor.execute st _ _ :=
    match st with
    | .select _ =>
      (.ok (.ofCells ["id", "override_name"] [[some (.int 6), some (.text "Bob")]]), ())
    | _ => (.ok {}, ())

/-- A unit was opened while the session cache has the user that it is going to delete. -/
def crowded : State Unit where
  database := ()
  cache.rows := (∅ : Std.ExtTreeMap String Row compare).insert (entity.keyOf idNode (.int 5))
    ⟨["id", "override_name"], [some (.int 5), some (.text "Ann")]⟩
  units := Units.begin {} "removal" none

/-- Another user is read and removed as well. -/
def others : List Call := [.lookup (nameOf 6), .delete (removal 6), .lookup (nameOf 5)]

/-- The user is still gone. -/
theorem lookup_after_removal :
    ((nameOf 5).single.run stubborn (some 0)
      (stubborn.runAll (some 0) others ((removal 5).run stubborn (some 0) crowded).2).2).1 =
        .ok none := by
  have hdone : ((removal 5).run stubborn (some 0) crowded).1.toOption.any
      (fun answer => answer.wasApplied.toOption == some true) = true := by decide +kernel
  cases hrun : ((removal 5).run stubborn (some 0) crowded).1 with
  | error e =>
    rw [hrun] at hdone
    exact absurd hdone (by simp [Except.toOption])
  | ok answer =>
    rw [hrun] at hdone
    have happlied : answer.wasApplied = .ok true := by
      cases hb : answer.wasApplied with
      | error e => simp [hb, Except.toOption] at hdone
      | ok b => simpa [hb, Except.toOption] using hdone
    have hkeys : (removal 5).conditions.keys ⟨.delete, some entity⟩ stubborn.prepare =
        [entity.keyOf idNode (.int 5)] := by decide
    have hafter := lookup_after_delete stubborn (removal 5) [entity.keyOf idNode (.int 5)] others
      (i := 0) (w := crowded) rfl (by decide) (by simp) (fun key hkey => by
        show key ∈ (removal 5).conditions.keys ⟨.delete, some entity⟩ stubborn.prepare
        rw [hkeys]
        exact hkey) hrun happlied ?_ ?_
    · exact (hafter.1 (nameOf 5) _ rfl rfl (by decide) (by decide)).1
    · simp only [others, List.forall_mem_cons]
      exact ⟨trivial, trivial, trivial, by simp⟩
    · exact ⟨by decide +kernel, by decide +kernel, by decide +kernel, trivial⟩

end User

end WideRow
