import WideRow.Proofs.Calls
import WideRow.Proofs.Statements
import WideRow.Sample.Entities

/-!
# One statement, one table

The columns of an operation come into it by many calls, each of which may name a column of any
entity. What a statement mentions is read off it (`Statement.columns`), and beside it stand the
columns that the operation was given (`Call.unordered`, `Call.ordered`), which know their entity.

> `columns_of_one_entity`: a statement that could be built mentions the columns of the operation and
> no others, and all of them are of the one entity whose table the statement names, but for those by
> which a query orders its rows. These are never compared with the table: an order by a clustering
> column of another entity goes into the statement like one of its own.
-/

namespace WideRow

/-! ## What a statement mentions -/

/-- The columns that are read. -/
def Selection.names : Selection → List String
  | columns names => names
  | count => []

/-- The columns that a write is conditional on. -/
def Conditional.columns : Conditional → List String
  | always | ifExists => []
  | ifAll clauses => clauses.map (·.column)

namespace Statement

/-- The table of a statement, unless it is in words. -/
def table? : Statement → Option String
  | select s => some s.table
  | update s => some s.table
  | insert s => some s.table
  | delete s => some s.table
  | truncate table => some table
  | text _ _ => none

/-- The columns that a statement mentions. -/
def columns : Statement → List String
  | select s => s.selection.names ++ s.filters.map (·.column) ++ s.orderings.map (·.column)
  | update s => s.assignments.map (·.column) ++ s.filters.map (·.column) ++ s.conditional.columns
  | insert s => s.values.map Prod.fst
  | delete s => s.filters.map (·.column) ++ s.conditional.columns
  | truncate _ | text _ _ => []

end Statement

namespace Call

/-- The entity whose table a call is about. -/
def entity? : Call → Option Entity
  | lookup q => q.entity.toOption
  | read q => q.entity.toOption
  | count c => c.entity.or c.conditions.firstEntity?
  | insert i => i.entity.toOption
  | update u => u.entity.toOption
  | delete d => some d.entity

/-- The columns by which a call orders rows. -/
def ordered : Call → List Node
  | lookup q => q.orderings.map (·.node)
  | read q => q.orderings.map (·.node)
  | count _ | insert _ | update _ | delete _ => []

/-- All other columns that the statement of a call mentions. A query knows no conditions of a write,
and neither does the emptying of a table. -/
def unordered : Call → List Node
  | lookup q => q.projection ++ q.conditions.filters.map (·.node)
  | read q => q.projection ++ q.conditions.filters.map (·.node)
  | count c => c.conditions.filters.map (·.node)
  | insert i => i.values.map Prod.fst
  | update u => u.changes.map Prod.fst ++ u.conditions.nodes
  | delete d => if d.isTruncate = true then [] else d.conditions.nodes

end Call

/-! ## Columns of clauses -/

/-- Where every result of a traversal tells of its item, the results tell of the items. -/
theorem map_of_mapM {ε α β γ : Type} {f : α → Except ε β} {g : β → γ} {k : α → γ}
    (hf : ∀ a b, f a = .ok b → g b = k a) :
    ∀ {as : List α} {bs : List β}, as.mapM f = .ok bs → bs.map g = as.map k
  | [], bs, h => by
    have hnil : bs = [] := by simpa [pure, Except.pure] using h.symm
    rw [hnil, List.map_nil, List.map_nil]
  | a :: as, bs, h => by
    rw [List.mapM_cons] at h
    obtain ⟨b, hb, h⟩ := bind_eq_ok.1 h
    obtain ⟨rest, hrest, h⟩ := bind_eq_ok.1 h
    have hbs : bs = b :: rest := by simpa [pure, Except.pure] using h.symm
    rw [hbs, List.map_cons, List.map_cons, hf a b hb, map_of_mapM hf hrest]

namespace Conditions

variable {c : Conditions} {prepare : ValuePreparer} {clauses : List Clause} {e : Entity}

/-- Filters compare their own columns. -/
theorem columns_of_clauses {fs : List Filter} (h : fs.mapM (·.clause prepare) = .ok clauses) :
    clauses.map (·.column) = (fs.map (·.node)).map (·.column.cql) := by
  rw [List.map_map]
  exact map_of_mapM (fun f clause hclause => (Filter.of_clause hclause).1) h

/-- Conditions that pass the check are all on columns of the entity. -/
theorem entity_of_checkEntity (h : c.checkEntity e = .ok ()) : ∀ n ∈ c.nodes, n.entity = e := by
  unfold checkEntity at h
  split at h
  next => exact absurd h (by simp)
  next hnone =>
    intro n hn
    simpa using List.find?_eq_none.1 hnone n hn

/-- A filter is one of the conditions. -/
theorem mem_nodes_of_filter {f : Filter} (hf : f ∈ c.filters) : f.node ∈ c.nodes :=
  List.mem_map_of_mem (List.mem_append_left _ hf)

end Conditions

/-- The conditions of a write that does not ask for the row to exist as well. -/
theorem RowUpdate.columns_conditional {requiresRow : Bool} {onlyIf : List Filter}
    {prepare : ValuePreparer} {clauses : List Clause}
    (hconflict : (requiresRow && !onlyIf.isEmpty) = false)
    (h : onlyIf.mapM (·.clause prepare) = .ok clauses) :
    (RowUpdate.conditional requiresRow clauses).columns =
      (onlyIf.map (·.node)).map (·.column.cql) := by
  rw [← Conditions.columns_of_clauses h, conditional]
  cases requiresRow with
  | false =>
    rw [if_neg Bool.false_ne_true]
    cases clauses <;> rfl
  | true =>
    have hnone : onlyIf = [] := by simpa using hconflict
    rw [hnone] at h
    have hnil : clauses = [] := by simpa [pure, Except.pure] using h.symm
    rw [hnil]
    rfl

/-! ## Statements that could be built -/

/-- A statement names the table of an entity and mentions these columns; those of the first kind are
of the entity. -/
structure Statement.IsAbout (st : Statement) (e : Entity) (unordered ordered : List Node) :
    Prop where
  table : st.table? = some e.table.cql
  columns : st.columns = (unordered ++ ordered).map (·.column.cql)
  entity : ∀ n ∈ unordered, n.entity = e

section

variable {prepare : ValuePreparer} {st : Statement}

/-- A select mentions the columns that it reads, those of its filters and those that it is ordered
by. -/
theorem Query.isAbout_of_statement {α : Type} {q : Query α} (h : q.statement prepare = .ok st) :
    ∃ e, q.entity = .ok e ∧ st.IsAbout e (q.projection ++ q.conditions.filters.map (·.node))
      (q.orderings.map (·.node)) := by
  have hprojection := fun n hn => entity_of_statement (n := n) h hn
  obtain ⟨e, clauses, he, hcheck, hclauses, rfl⟩ := of_statement h
  refine ⟨e, he, rfl, ?_, fun n hn => ?_⟩
  · have horder : (q.orderings.map (·.ordering)).map (·.column) =
        (q.orderings.map (·.node)).map (·.column.cql) := by
      rw [List.map_map, List.map_map]
      rfl
    simp only [Statement.columns, Selection.names, Conditions.columns_of_clauses hclauses, horder,
      List.map_append]
  · obtain hn | hn := List.mem_append.1 hn
    · exact Except.ok.inj ((hprojection n hn).symm.trans he)
    · obtain ⟨f, hf, rfl⟩ := List.mem_map.1 hn
      exact Conditions.entity_of_checkEntity hcheck _ (Conditions.mem_nodes_of_filter hf)

/-- A count mentions the columns of its filters. -/
theorem RowCount.isAbout_of_statement {c : RowCount} (h : c.statement prepare = .ok st) :
    ∃ e, c.entity.or c.conditions.firstEntity? = some e ∧
      st.IsAbout e (c.conditions.filters.map (·.node)) [] := by
  obtain ⟨e, clauses, hentity, hcheck, hclauses, rfl⟩ := eq_of_statement h
  refine ⟨e, hentity, rfl, ?_, fun n hn => ?_⟩
  · simp only [Statement.columns, Selection.names, Conditions.columns_of_clauses hclauses,
      List.nil_append, List.append_nil, List.map_nil]
  · obtain ⟨f, hf, rfl⟩ := List.mem_map.1 hn
    exact Conditions.entity_of_checkEntity hcheck _ (Conditions.mem_nodes_of_filter hf)

/-- An insert mentions the columns that it writes. -/
theorem RowInsert.isAbout_of_statement {i : RowInsert} (h : i.statement prepare = .ok st) :
    ∃ e, i.entity = .ok e ∧ st.IsAbout e (i.values.map Prod.fst) [] := by
  obtain ⟨e, he, rfl⟩ := of_statement h
  refine ⟨e, he, rfl, ?_, fun n hn => ?_⟩
  · simp only [Statement.columns, ValuePreparer.cells, List.map_map, List.append_nil]
    rfl
  · obtain ⟨p, hp, rfl⟩ := List.mem_map.1 hn
    exact entity_of_value he hp

/-- An update mentions the columns that it changes and those of its conditions. -/
theorem RowUpdate.isAbout_of_statement {u : RowUpdate} (h : u.statement prepare = .ok st) :
    ∃ e, u.entity = .ok e ∧ st.IsAbout e (u.changes.map Prod.fst ++ u.conditions.nodes) [] := by
  obtain ⟨e, clauses, onlyIf, he, hcheck, hclauses, honlyIf, -, hconflict, rfl⟩ :=
    eq_of_statement h
  refine ⟨e, he, rfl, ?_, fun n hn => ?_⟩
  · simp only [Statement.columns, Conditions.columns_of_clauses hclauses,
      columns_conditional hconflict honlyIf, Conditions.nodes, List.map_append, List.append_nil,
      List.append_assoc, List.map_map, Function.comp_def, Change.column_assignment]
  · obtain hn | hn := List.mem_append.1 hn
    · obtain ⟨p, hp, rfl⟩ := List.mem_map.1 hn
      exact entity_of_change he hp
    · exact Conditions.entity_of_checkEntity hcheck n hn

/-- A delete mentions the columns of its conditions, unless it empties the table. -/
theorem RowDelete.isAbout_of_statement {d : RowDelete} (h : d.statement prepare = .ok st) :
    st.IsAbout d.entity (if d.isTruncate = true then [] else d.conditions.nodes) [] := by
  obtain ⟨hcheck, ⟨htruncate, rfl⟩ | ⟨clauses, onlyIf, hrows, hclauses, honlyIf, hconflict, rfl⟩⟩ :=
    eq_of_statement h
  · rw [if_pos htruncate]
    exact ⟨rfl, rfl, by simp⟩
  · rw [if_neg (Bool.eq_false_iff.1 hrows)]
    refine ⟨rfl, ?_, Conditions.entity_of_checkEntity hcheck⟩
    simp only [Statement.columns, Conditions.columns_of_clauses hclauses,
      RowUpdate.columns_conditional hconflict honlyIf, Conditions.nodes, List.map_append,
      List.append_nil]

/-- Every statement is about the one table of its entity. -/
theorem Call.isAbout_of_statement {c : Call} (h : c.statement prepare = .ok st) :
    ∃ e, c.entity? = some e ∧ st.IsAbout e c.unordered c.ordered := by
  have hentity : ∀ {x : Except Error Entity} {e}, x = .ok e → x.toOption = some e := by
    rintro _ _ rfl
    rfl
  cases c with
  | lookup q =>
    obtain ⟨e, he, habout⟩ := Query.isAbout_of_statement (q := q.single.query) h
    exact ⟨e, hentity he, habout⟩
  | read q =>
    obtain ⟨e, he, habout⟩ := Query.isAbout_of_statement (q := q) h
    exact ⟨e, hentity he, habout⟩
  | count c => exact RowCount.isAbout_of_statement h
  | insert i =>
    obtain ⟨e, he, habout⟩ := RowInsert.isAbout_of_statement (i := i) h
    exact ⟨e, hentity he, habout⟩
  | update u =>
    obtain ⟨e, he, habout⟩ := RowUpdate.isAbout_of_statement (u := u) h
    exact ⟨e, hentity he, habout⟩
  | delete d => exact ⟨d.entity, rfl, RowDelete.isAbout_of_statement h⟩

/-- An order is by a clustering column of the entity that it was made for. -/
theorem Ordered.of_create {e : Entity} {property : String} {d : Direction} {o : Ordered}
    (h : create e property d = .ok o) :
    o.node.entity = e ∧ o.node.property.role = .clusteringColumn := by
  obtain ⟨n, hn, h⟩ := bind_eq_ok.1 h
  split at h
  next hrole =>
    obtain rfl := Except.ok.inj h
    refine ⟨?_, hrole⟩
    unfold Entity.node at hn
    split at hn
    next m hfind =>
      obtain rfl := Except.ok.inj hn
      obtain ⟨i, -, rfl⟩ := List.mem_map.1 (List.mem_of_find?_eq_some hfind)
      rfl
    next => exact absurd hn (by simp)
  next => exact absurd h (by simp)

/-- One more order leaves a query as easy to build as it was. -/
theorem Query.statement_orderBy {α : Type} {q : Query α} (h : q.statement prepare = .ok st)
    {e : Entity} {property : String} {d : Direction} {o : Ordered}
    (ho : Ordered.create e property d = .ok o) :
    ∃ st', (q.orderBy e property d).statement prepare = .ok st' ∧ st'.table? = st.table? ∧
      st'.columns = st.columns ++ [o.node.column.cql] := by
  have hpending : q.conditions.pending.check = .ok () := by
    unfold statement at h
    obtain ⟨_, hpending, -⟩ := bind_eq_ok.1 h
    exact hpending
  obtain ⟨e', clauses, he, hcheck, hclauses, rfl⟩ := of_statement h
  have hentity : (q.orderBy e property d).entity = .ok e' := by
    rw [orderBy, ho]
    exact he
  have hbuilt : (q.orderBy e property d).statement prepare = .ok (.select {
      table := e'.table.cql
      selection := .columns (q.projection.map (·.column.cql))
      filters := clauses
      orderings := (q.orderings ++ [o]).map (·.ordering)
      limit := q.limit
      allowsFiltering :=
        q.allowsFiltering || q.projection.any (·.property.hasCaseSensitiveIndex) }) := by
    unfold statement
    rw [hentity]
    simp only [orderBy, ho, hpending, hcheck, hclauses, bind, Except.bind]
    rfl
  refine ⟨_, hbuilt, rfl, ?_⟩
  simp only [Statement.columns, List.map_append, List.map_cons, List.map_nil, List.append_assoc]
  rfl

end

/-- A statement that could be built names the table of one entity and mentions the columns that its
operation was given. Those that are read, compared, changed or written are all columns of the
entity. Those by which rows are ordered need not be: to order a query by a clustering column of any
entity at all adds the column to its statement. -/
theorem columns_of_one_entity (prepare : ValuePreparer) :
    (∀ (c : Call) (st : Statement), c.statement prepare = .ok st → ∃ e, c.entity? = some e ∧
      st.table? = some e.table.cql ∧
      st.columns = (c.unordered ++ c.ordered).map (·.column.cql) ∧
      (∀ n ∈ c.unordered, n.entity = e) ∧
      ((∀ n ∈ c.unordered ++ c.ordered, n.entity = e) ↔ ∀ n ∈ c.ordered, n.entity = e)) ∧
    ∀ {α : Type} (q : Query α) (st : Statement) (e : Entity) (property : String) (d : Direction)
      (o : Ordered), q.statement prepare = .ok st → Ordered.create e property d = .ok o →
      o.node.entity = e ∧ ∃ st', (q.orderBy e property d).statement prepare = .ok st' ∧
        st'.table? = st.table? ∧ st'.columns = st.columns ++ [o.node.column.cql] := by
  refine ⟨fun c st h => ?_, fun q st e property d o h ho => ?_⟩
  · obtain ⟨e, he, habout⟩ := Call.isAbout_of_statement h
    refine ⟨e, he, habout.table, habout.columns, habout.entity, fun hall n hn => ?_,
      fun hordered n hn => ?_⟩
    · exact hall n (List.mem_append_right _ hn)
    · exact (List.mem_append.1 hn).elim (habout.entity n) (hordered n)
  · exact ⟨(Ordered.of_create ho).1, Query.statement_orderBy h ho⟩

namespace User

/-- Reads the age of a user. -/
def ageOf (id : Int32) : Query Int32 :=
  Restricted.whereEq (Query.ofProperty (t := .int) ⟨entity, "age"⟩) (t := .int) ⟨entity, "id"⟩ id

/-- The order of posts, the oldest first. -/
def oldestPost : Ordered := ⟨⟨Post.entity, ⟨1, by decide⟩⟩, .ascending⟩

/-- A user is read by columns of users; in the order of posts it is read by one of theirs too. -/
theorem columns_ordered_by_post :
    (∃ st, (ageOf 5).statement .identity = .ok st ∧ st.columns = ["age", "id"] ∧
      ∀ n ∈ (Call.read (ageOf 5)).unordered, n.entity = entity) ∧
    ∃ st, ((ageOf 5).orderBy Post.entity "posted_at" .ascending).statement .identity = .ok st ∧
      st.table? = some "simple_users" ∧ st.columns = ["age", "id", "posted_at"] := by
  have hread := (columns_of_one_entity .identity).1 (.read (ageOf 5)) _ rfl
  have hordered := (columns_of_one_entity .identity).2 (ageOf 5) _ Post.entity "posted_at"
    .ascending oldestPost rfl rfl
  obtain ⟨e, he, -, -, hentity, -⟩ := hread
  obtain ⟨-, st, hst, htable, hcolumns⟩ := hordered
  obtain rfl : entity = e := Option.some.inj he
  exact ⟨⟨_, rfl, rfl, hentity⟩, st, hst, htable, hcolumns⟩

end User

end WideRow
