import WideRow.Operation.PointQuery
import WideRow.Operation.RowCount
import WideRow.Operation.RowDelete
import WideRow.Operation.RowInsert

/-!
# What a built statement says

An operation builds its statement in steps, each of which may fail. Where it could be built, all
steps went well, and the statement is what the steps came to: the lemmas named `of_statement`
say so for each operation. The clauses of its filters are one for every filter; an equality
becomes a clause with the one value that the caches compare as well (`mem_equalities`).
-/

namespace WideRow

/-- A sequence of two steps succeeds exactly when one does after the other. -/
theorem bind_eq_ok {ε α β : Type} {x : Except ε α} {f : α → Except ε β} {b : β} :
    (x >>= f) = .ok b ↔ ∃ a, x = .ok a ∧ f a = .ok b := by
  cases x <;> simp [bind, Except.bind]

/-- Making something of a result succeeds exactly when there is one. -/
theorem map_eq_ok {ε α β : Type} {x : Except ε α} {f : α → β} {b : β} :
    x.map f = .ok b ↔ ∃ a, x = .ok a ∧ f a = b := by
  cases x <;> simp [Except.map]

theorem map_eq_error {ε α β : Type} {x : Except ε α} {f : α → β} {e : ε} :
    x.map f = .error e ↔ x = .error e := by
  cases x <;> simp [Except.map]

/-- A traversal that succeeds has a result for every item, and no others. -/
theorem mapM_eq_ok {ε α β : Type} {f : α → Except ε β} :
    ∀ {as : List α} {bs : List β}, as.mapM f = .ok bs →
      (∀ b ∈ bs, ∃ a ∈ as, f a = .ok b) ∧ ∀ a ∈ as, ∃ b ∈ bs, f a = .ok b
  | [], bs, h => by
    have hnil : bs = [] := by simpa [pure, Except.pure] using h.symm
    subst hnil
    simp
  | a :: as, bs, h => by
    rw [List.mapM_cons] at h
    obtain ⟨b, hb, h⟩ := bind_eq_ok.1 h
    obtain ⟨rest, hrest, h⟩ := bind_eq_ok.1 h
    have hbs : bs = b :: rest := by simpa [pure, Except.pure] using h.symm
    subst hbs
    obtain ⟨hfrom, hto⟩ := mapM_eq_ok hrest
    constructor
    · intro c hc
      rcases List.mem_cons.1 hc with rfl | hc
      · exact ⟨a, List.mem_cons_self .., hb⟩
      · obtain ⟨d, hd, hdc⟩ := hfrom c hc
        exact ⟨d, List.mem_cons_of_mem _ hd, hdc⟩
    · intro d hd
      rcases List.mem_cons.1 hd with rfl | hd
      · exact ⟨b, List.mem_cons_self .., hb⟩
      · obtain ⟨c, hc, hdc⟩ := hto d hd
        exact ⟨c, List.mem_cons_of_mem _ hc, hdc⟩

/-! ## Filters -/

namespace Filter

variable {f : Filter} {prepare : ValuePreparer} {c : Clause}

/-- A clause compares the filter's column as the filter does. -/
theorem of_clause (h : f.clause prepare = .ok c) :
    c.column = f.node.column.cql ∧ c.operator = f.operator := by
  obtain ⟨n, t, p⟩ := f
  cases p with
  | single op v =>
    obtain ⟨x, -, hc⟩ := bind_eq_ok.1 h
    have : c = ⟨n.column.cql, op, [x]⟩ := by simpa [pure, Except.pure] using hc.symm
    subst this
    exact ⟨rfl, rfl⟩
  | many vs =>
    obtain ⟨xs, -, hc⟩ := bind_eq_ok.1 h
    have : c = ⟨n.column.cql, .isIn, xs⟩ := by simpa [pure, Except.pure] using hc.symm
    subst this
    exact ⟨rfl, rfl⟩

/-- The clause of an equality binds the value that the equality asks for. -/
theorem of_clause_eq (h : f.clause prepare = .ok c) (hop : f.operator = .eq) :
    ∃ v, f.equality? prepare = some v ∧ c = ⟨f.node.column.cql, .eq, [v]⟩ := by
  obtain ⟨n, t, p⟩ := f
  cases p with
  | many vs => exact absurd hop (by simp [operator, Postulate.operator])
  | single op v =>
    have heq : op = .eq := hop
    subst heq
    obtain ⟨x, hx, hc⟩ := bind_eq_ok.1 h
    refine ⟨x, ?_, by simpa [pure, Except.pure] using hc.symm⟩
    unfold Postulate.bound at hx
    unfold equality?
    cases hcell : t.cell v with
    | none => rw [hcell] at hx; exact absurd hx (by simp)
    | some y =>
      rw [hcell] at hx
      simpa [hcell] using hx

end Filter

namespace Conditions

variable {c : Conditions} {prepare : ValuePreparer} {clauses : List Clause}

/-- The equalities are the values of those filters that ask for one. -/
theorem mem_equalities {n : Node} {v : Value} : (n, v) ∈ c.equalities prepare ↔
    ∃ f ∈ c.filters, f.equality? prepare = some v ∧ f.node = n := by
  unfold equalities
  rw [List.mem_filterMap]
  constructor
  · rintro ⟨f, hf, h⟩
    obtain ⟨x, hx, he⟩ := Option.map_eq_some_iff.1 h
    rw [Prod.mk.injEq] at he
    exact ⟨f, hf, by rw [hx, he.2], he.1⟩
  · rintro ⟨f, hf, hx, rfl⟩
    exact ⟨f, hf, by rw [hx]; rfl⟩

/-- Every equality stands among the clauses. -/
theorem exists_clause (h : c.filterClauses prepare = .ok clauses) {n : Node} {v : Value}
    (hv : (n, v) ∈ c.equalities prepare) : ⟨n.column.cql, .eq, [v]⟩ ∈ clauses := by
  obtain ⟨f, hf, hx, rfl⟩ := mem_equalities.1 hv
  obtain ⟨clause, hmem, hclause⟩ := (mapM_eq_ok h).2 f hf
  have hop : f.operator = .eq := by
    obtain ⟨n, t, p⟩ := f
    unfold Filter.equality? at hx
    split at hx
    next op v hp => rw [Filter.operator, hp]; rfl
    next => exact absurd hx (by simp)
  obtain ⟨x, hx', rfl⟩ := Filter.of_clause_eq hclause hop
  rw [hx, Option.some.injEq] at hx'
  rw [hx']
  exact hmem

/-- Where all filters are equalities, every clause is one of them. -/
theorem exists_equality (h : c.filterClauses prepare = .ok clauses)
    (honly : c.onlyEqualities = true) {clause : Clause} (hmem : clause ∈ clauses) :
    ∃ n v, (n, v) ∈ c.equalities prepare ∧ clause = ⟨n.column.cql, .eq, [v]⟩ := by
  obtain ⟨f, hf, hclause⟩ := (mapM_eq_ok h).1 clause hmem
  have hop : f.operator = .eq := by simpa using List.all_eq_true.1 honly f hf
  obtain ⟨v, hv, hc⟩ := Filter.of_clause_eq hclause hop
  exact ⟨f.node, v, mem_equalities.2 ⟨f, hf, hv, rfl⟩, hc⟩

/-- A clause is one of a filter's column. -/
theorem exists_filter (h : c.filterClauses prepare = .ok clauses) {clause : Clause}
    (hmem : clause ∈ clauses) : ∃ f ∈ c.filters, clause.column = f.node.column.cql := by
  obtain ⟨f, hf, hclause⟩ := (mapM_eq_ok h).1 clause hmem
  exact ⟨f, hf, (Filter.of_clause hclause).1⟩

end Conditions

/-- Columns that belong to one entity all belong to it. -/
theorem entity_of_soleEntity {action : String} {first : Node} {rest : List Node} {e : Entity}
    (h : soleEntity action first rest = .ok e) : ∀ n ∈ first :: rest, n.entity = e := by
  unfold soleEntity at h
  split at h
  next => exact absurd h (by simp)
  next hnone =>
    have he : first.entity = e := by simpa using h
    intro n hn
    rcases List.mem_cons.1 hn with rfl | hn
    · exact he
    · rw [← he]
      simpa using List.find?_eq_none.1 hnone n hn

/-! ## Statements -/

section

variable {prepare : ValuePreparer} {st : Statement}

/-- A select that could be built is of one entity, has a clause for each filter and the columns that
were asked for. -/
theorem Query.of_statement {α : Type} {q : Query α} (h : q.statement prepare = .ok st) :
    ∃ e clauses, q.entity = .ok e ∧ q.conditions.checkEntity e = .ok () ∧
      q.conditions.filterClauses prepare = .ok clauses ∧
      st = .select {
        table := e.table.cql
        selection := .columns (q.projection.map (·.column.cql))
        filters := clauses
        orderings := q.orderings.map (·.ordering)
        limit := q.limit
        allowsFiltering :=
          q.allowsFiltering || q.projection.any (·.property.hasCaseSensitiveIndex) } := by
  unfold statement at h
  obtain ⟨_, -, h⟩ := bind_eq_ok.1 h
  obtain ⟨e, he, h⟩ := bind_eq_ok.1 h
  obtain ⟨_, hcheck, h⟩ := bind_eq_ok.1 h
  obtain ⟨clauses, hclauses, h⟩ := bind_eq_ok.1 h
  exact ⟨e, clauses, he, hcheck, hclauses, (Except.ok.inj h).symm⟩

/-- The columns of a query that could be built are of one entity. -/
theorem Query.entity_of_statement {α : Type} {q : Query α} (h : q.statement prepare = .ok st)
    {n : Node} (hn : n ∈ q.projection) : q.entity = .ok n.entity := by
  obtain ⟨e, -, he, -⟩ := of_statement h
  have hall := he
  unfold entity at hall
  split at hall
  next hnil =>
    rw [hnil] at hn
    exact absurd hn (by simp)
  next first rest hcons =>
    rw [hcons] at hn
    rw [he, entity_of_soleEntity hall n hn]

/-- An insert that could be built names the columns of its values. -/
theorem RowInsert.of_statement {i : RowInsert} (h : i.statement prepare = .ok st) :
    ∃ e, i.entity = .ok e ∧ st = .insert {
      table := e.table.cql
      values := (prepare.cells i.values).map fun (n, c) => (n.column.cql, c)
      using_ := ⟨i.ttl, i.timestamp⟩
      ifNotExists := i.requiresNoRow } := by
  unfold statement at h
  obtain ⟨_, -, h⟩ := bind_eq_ok.1 h
  obtain ⟨e, he, h⟩ := bind_eq_ok.1 h
  exact ⟨e, he, (Except.ok.inj h).symm⟩

theorem RowInsert.ne_select {i : RowInsert} (h : i.statement prepare = .ok st) :
    ∀ s, st ≠ .select s := by
  obtain ⟨_, -, rfl⟩ := of_statement h
  simp

/-- An insert is into the entity of each of its columns. -/
theorem RowInsert.entity_of_value {i : RowInsert} {e : Entity} (h : i.entity = .ok e)
    {p : Node × Cell} (hp : p ∈ i.values) : p.1.entity = e := by
  have hmem : p.1 ∈ i.values.map Prod.fst := List.mem_map_of_mem hp
  unfold entity at h
  split at h
  next first rest hcons =>
    rw [hcons] at hmem
    exact entity_of_soleEntity h _ hmem
  next => exact absurd h (by simp)

/-- A change assigns to its own column. -/
theorem Change.column_assignment (n : Node) (prepare : ValuePreparer) (x : Change) :
    (x.assignment n prepare).column = n.column.cql := by
  cases x <;> rfl

/-- An update that could be built is of one entity, changes something and does not ask for an
existing row and for conditions at once. -/
theorem RowUpdate.eq_of_statement {u : RowUpdate} (h : u.statement prepare = .ok st) :
    ∃ e clauses onlyIf, u.entity = .ok e ∧ u.conditions.checkEntity e = .ok () ∧
      u.conditions.filterClauses prepare = .ok clauses ∧
      u.conditions.onlyIfClauses prepare = .ok onlyIf ∧ u.changes ≠ [] ∧
      (u.requiresRow && !u.conditions.onlyIf.isEmpty) = false ∧
      st = .update {
        table := e.table.cql
        using_ := ⟨u.ttl, u.timestamp⟩
        assignments := u.changes.map fun (n, c) => c.assignment n prepare
        filters := clauses
        conditional := conditional u.requiresRow onlyIf } := by
  unfold statement at h
  obtain ⟨_, -, h⟩ := bind_eq_ok.1 h
  obtain ⟨e, he, h⟩ := bind_eq_ok.1 h
  obtain ⟨_, hcheck, h⟩ := bind_eq_ok.1 h
  split at h
  next => exact absurd h (by simp)
  next hchanges =>
    split at h
    next => exact absurd h (by simp)
    next hconflict =>
      obtain ⟨clauses, hclauses, h⟩ := bind_eq_ok.1 h
      obtain ⟨onlyIf, honlyIf, h⟩ := bind_eq_ok.1 h
      exact ⟨e, clauses, onlyIf, he, hcheck, hclauses, honlyIf, by simpa using hchanges,
        Bool.eq_false_iff.2 hconflict, (Except.ok.inj h).symm⟩

/-- The same, for those who do not need the conditions. -/
theorem RowUpdate.of_statement {u : RowUpdate} (h : u.statement prepare = .ok st) :
    ∃ e clauses conditional, u.entity = .ok e ∧ u.conditions.checkEntity e = .ok () ∧
      u.conditions.filterClauses prepare = .ok clauses ∧ u.changes ≠ [] ∧
      st = .update {
        table := e.table.cql
        using_ := ⟨u.ttl, u.timestamp⟩
        assignments := u.changes.map fun (n, c) => c.assignment n prepare
        filters := clauses
        conditional } := by
  obtain ⟨e, clauses, _, he, hcheck, hclauses, -, hchanges, -, hst⟩ := eq_of_statement h
  exact ⟨e, clauses, _, he, hcheck, hclauses, hchanges, hst⟩

theorem RowUpdate.ne_select {u : RowUpdate} (h : u.statement prepare = .ok st) :
    ∀ s, st ≠ .select s := by
  obtain ⟨_, _, _, -, -, -, -, rfl⟩ := of_statement h
  simp

/-- An update with changes is of the entity of each changed column. -/
theorem RowUpdate.entity_of_change {u : RowUpdate} {e : Entity} (h : u.entity = .ok e)
    {p : Node × Change} (hp : p ∈ u.changes) : p.1.entity = e := by
  have hmem : p.1 ∈ u.changes.map Prod.fst := List.mem_map_of_mem hp
  unfold entity at h
  split at h
  next first rest hcons =>
    rw [hcons] at hmem
    exact entity_of_soleEntity h _ hmem
  next hnil =>
    rw [hnil] at hmem
    exact absurd hmem (by simp)

/-- An update is of the entity of its changes. -/
theorem RowUpdate.entity_eq_of_changes {u : RowUpdate} {e e' : Entity} (h : u.entity = .ok e)
    (hchanges : u.changes ≠ []) (hof : ∀ p ∈ u.changes, p.1.entity = e') : e = e' := by
  obtain ⟨p, hp⟩ := List.exists_mem_of_ne_nil _ hchanges
  rw [← entity_of_change h hp, hof p hp]

/-- A delete that could be built empties the table, or has a clause for each filter. -/
theorem RowDelete.eq_of_statement {d : RowDelete} (h : d.statement prepare = .ok st) :
    d.conditions.checkEntity d.entity = .ok () ∧
      ((d.isTruncate = true ∧ st = .truncate d.entity.table.cql) ∨
        ∃ clauses onlyIf, d.isTruncate = false ∧
          d.conditions.filterClauses prepare = .ok clauses ∧
          d.conditions.onlyIfClauses prepare = .ok onlyIf ∧
          (d.requiresRow && !d.conditions.onlyIf.isEmpty) = false ∧
          st = .delete {
            table := d.entity.table.cql
            using_ := { timestamp := d.timestamp }
            filters := clauses
            conditional := RowUpdate.conditional d.requiresRow onlyIf }) := by
  unfold statement at h
  obtain ⟨_, -, h⟩ := bind_eq_ok.1 h
  obtain ⟨_, hcheck, h⟩ := bind_eq_ok.1 h
  refine ⟨hcheck, ?_⟩
  split at h
  next htruncate => exact .inl ⟨htruncate, (Except.ok.inj h).symm⟩
  next hrows =>
    split at h
    next => exact absurd h (by simp)
    next hconflict =>
      obtain ⟨clauses, hclauses, h⟩ := bind_eq_ok.1 h
      obtain ⟨onlyIf, honlyIf, h⟩ := bind_eq_ok.1 h
      exact .inr ⟨clauses, onlyIf, by simpa using hrows, hclauses, honlyIf,
        Bool.eq_false_iff.2 hconflict, (Except.ok.inj h).symm⟩

/-- The same, for those who do not need the conditions. -/
theorem RowDelete.of_statement {d : RowDelete} (h : d.statement prepare = .ok st) :
    d.conditions.checkEntity d.entity = .ok () ∧
      ((d.isTruncate = true ∧ st = .truncate d.entity.table.cql) ∨
        ∃ clauses conditional, d.isTruncate = false ∧
          d.conditions.filterClauses prepare = .ok clauses ∧
          st = .delete {
            table := d.entity.table.cql
            using_ := { timestamp := d.timestamp }
            filters := clauses
            conditional }) := by
  obtain ⟨hcheck, htruncate | ⟨clauses, _, hrows, hclauses, -, -, hst⟩⟩ := eq_of_statement h
  · exact ⟨hcheck, .inl htruncate⟩
  · exact ⟨hcheck, .inr ⟨clauses, _, hrows, hclauses, hst⟩⟩

theorem RowDelete.ne_select {d : RowDelete} (h : d.statement prepare = .ok st) :
    ∀ s, st ≠ .select s := by
  obtain ⟨-, ⟨-, rfl⟩ | ⟨_, _, -, -, rfl⟩⟩ := of_statement h <;> simp

/-- A count that could be built counts in the table of its first entity. -/
theorem RowCount.eq_of_statement {c : RowCount} (h : c.statement prepare = .ok st) :
    ∃ e clauses, c.entity.or c.conditions.firstEntity? = some e ∧
      c.conditions.checkEntity e = .ok () ∧
      c.conditions.filterClauses prepare = .ok clauses ∧
      st = .select {
        table := e.table.cql
        selection := .count
        filters := clauses
        allowsFiltering := c.allowsFiltering } := by
  unfold statement at h
  obtain ⟨_, -, h⟩ := bind_eq_ok.1 h
  cases hentity : c.entity.or c.conditions.firstEntity? with
  | none =>
    rw [hentity] at h
    obtain ⟨_, hnone, -⟩ := bind_eq_ok.1 h
    exact absurd hnone (by simp)
  | some e =>
    rw [hentity] at h
    obtain ⟨_, he, h⟩ := bind_eq_ok.1 h
    obtain rfl := Except.ok.inj he
    obtain ⟨_, hcheck, h⟩ := bind_eq_ok.1 h
    obtain ⟨clauses, hclauses, h⟩ := bind_eq_ok.1 h
    exact ⟨e, clauses, rfl, hcheck, hclauses, (Except.ok.inj h).symm⟩

theorem RowCount.of_statement {c : RowCount} (h : c.statement prepare = .ok st) :
    ∃ s : Select, st = .select s := by
  obtain ⟨e, clauses, -, -, -, hst⟩ := eq_of_statement h
  exact ⟨_, hst⟩

end

end WideRow
