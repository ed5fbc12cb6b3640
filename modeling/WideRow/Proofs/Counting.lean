import WideRow.Proofs.Assembly
import WideRow.Proofs.Following
import WideRow.Proofs.Markers
import WideRow.Sample.Entities

/-!
# Counting in place of a query

A query can be turned into a count of the rows that it would read (`Query.count`). Only the options,
the conditions and the entity go over to the count, and an entity that there is not goes over as an
error. That is enough for the count to read what the query reads: it has a statement exactly when
the query has one, with the same table, filters and values (`Query.statement_count`).

What does not go over is that the query may look at rows that its filters do not select by key. All
other calls of a query keep this (`Query.After.allowsFiltering`), while a count asks for it only if
it was told so itself:

> `Query.count_of_query`: the count of a query is the query's statement with another selection, but
> it never asks for filtering.
-/

namespace WideRow

/-! ## The statement of the count -/

/-- The count of the rows that a reading statement selects. -/
def Select.counting (s : Select) : Select :=
  { table := s.table, selection := .count, filters := s.filters }

/-- The count in place of a statement. -/
def Statement.counting : Statement → Statement
  | .select s => .select s.counting
  | st => st

namespace Query

variable {α β : Type} {q : Query α}

/-- That there is no one entity is an error of construction. -/
theorem kept_of_entity {e : Error} (h : q.entity = .error e) : Pending.kept e = e := by
  unfold entity at h
  split at h
  next =>
    obtain rfl := Except.error.inj h
    rfl
  next =>
    unfold soleEntity at h
    split at h
    next =>
      obtain rfl := Except.error.inj h
      rfl
    next => cases h

/-- The count has a statement exactly when the query has one, and fails with the same error. -/
theorem statement_count (q : Query α) (prepare : ValuePreparer) :
    q.count.statement prepare = (q.statement prepare).map Statement.counting := by
  unfold count statement RowCount.statement
  cases he : q.entity with
  | error e =>
    -- the error of the entity comes up where the query would come to the entity
    have hkept := kept_of_entity he
    cases hfirst : q.conditions.pending.first with
    | some first =>
      simp only [Conditions.record, Pending.record, Pending.check, hfirst, Option.some_or]
      rfl
    | none =>
      simp only [Conditions.record, Pending.record, Pending.check, hfirst, Option.none_or, hkept]
      rfl
  | ok e =>
    -- both make the same checks one after the other, and only the last step differs
    show (_ >>= fun _ => _ >>= fun _ => _ >>= _) = Statement.counting <$> (_ >>= _)
    simp only [map_bind]
    rfl

/-! ## What a query keeps and its count does not -/

/-- A query that calls made of another one. -/
inductive After (p : Query α) : {β : Type} → Query β → Prop
  | refl : After p p
  | column {q : Query Row} (h : After p q) (e : Entity) (property : String) :
    After p (q.column e property)
  | orderBy {β : Type} {q : Query β} (h : After p q) (e : Entity) (property : String)
    (d : Direction) : After p (q.orderBy e property d)
  | limited {β : Type} {q : Query β} (h : After p q) (n : Int32) : After p (q.limited n)
  | allowFiltering {β : Type} {q : Query β} (h : After p q) : After p q.allowFiltering
  | withMapper {β γ : Type} {q : Query β} (h : After p q) (mapper : Row → Except Error γ) :
    After p (q.withMapper mapper)
  | map {β γ : Type} {q : Query β} (h : After p q) (f : β → γ) : After p (q.map f)
  | mapTo {β γ : Type} {q : Query β} (h : After p q) (m : Mapping γ) : After p (q.mapTo m)
  | shared {β : Type} {q : Query β} (h : After p q) (c : SharedCall) : After p (c.apply q)

/-- No call takes back that a query may look at rows that its filters do not select by key. -/
theorem After.allowsFiltering {p : Query α} {q : Query β} (h : p.allowFiltering.After q) :
    q.allowsFiltering = true := by
  induction h with
  | refl => rfl
  | @column q _ e property ih =>
    unfold Query.column
    cases e.node property <;> exact ih
  | @orderBy _ q _ e property d ih =>
    unfold Query.orderBy
    cases Ordered.create e property d <;> exact ih
  | limited _ n ih => exact ih
  | allowFiltering _ ih => rfl
  | withMapper _ mapper ih => exact ih
  | map _ f ih => exact ih
  | mapTo _ m ih => exact ih
  | shared _ c ih => cases c <;> exact ih

/-- A count keeps the options of its query. -/
theorem options_count (q : Query α) : q.count.options = q.options := by
  unfold count
  cases q.entity <;> rfl

end Query

/-- A count asks for filtering if it is told so itself. -/
theorem RowCount.statement_allowFiltering (c : RowCount) (prepare : ValuePreparer) :
    c.allowFiltering.statement prepare =
      (c.statement prepare).map Statement.allowFiltering := by
  unfold RowCount.statement
  show _ = Statement.allowFiltering <$> (_ >>= _)
  simp only [RowCount.allowFiltering]
  cases c.entity.or c.conditions.firstEntity? with
  | none =>
    simp only [map_bind]
    rfl
  | some e =>
    simp only [map_bind]
    rfl

/-! ## Texts and values -/

namespace Select

variable (s : Select)

/-- The text of a reading statement. -/
theorem cql_eq : ∃ selected rest, (Statement.select s).cql = "SELECT " ++ selected ++ " FROM " ++
    s.table ++ (Clause.fragments " WHERE " s.filters).cql ++ rest ++
      if s.allowsFiltering then " ALLOW FILTERING" else "" := by
  have hfragment : ∃ selected limit, s.fragment =
      Fragment.text ("SELECT " ++ selected ++ " FROM " ++ s.table) ++
        Clause.fragments " WHERE " s.filters ++ Ordering.fragment s.orderings ++
        Fragment.text limit ++
        Fragment.text (if s.allowsFiltering then " ALLOW FILTERING" else "") := ⟨_, _, rfl⟩
  obtain ⟨selected, limit, hfragment⟩ := hfragment
  refine ⟨selected, (Ordering.fragment s.orderings).cql ++ limit, ?_⟩
  show s.fragment.cql = _
  rw [hfragment, ← String.append_assoc]
  rfl

/-- The text of a count has the table and the filters of the query, and neither order nor limit. -/
theorem cql_counting : (Statement.select s.counting).cql = "SELECT count(*) FROM " ++ s.table ++
    (Clause.fragments " WHERE " s.filters).cql := by
  show "SELECT " ++ "count(*)" ++ " FROM " ++ s.table ++ _ ++ "" ++ "" ++ "" = _
  rw [String.append_empty, String.append_empty, String.append_empty]
  rfl

/-- Only filters have values. -/
theorem values_eq : (Statement.select s).values =
    (Clause.fragments " WHERE " s.filters).values := by
  have horderings : (Ordering.fragment s.orderings).values = [] := by
    unfold Ordering.fragment
    split <;> rfl
  show [] ++ (Clause.fragments " WHERE " s.filters).values ++
    (Ordering.fragment s.orderings).values ++ [] ++ [] = _
  rw [horderings, List.append_nil, List.append_nil, List.append_nil, List.nil_append]

end Select

/-! ## The count and the query -/

/-- A query leaves the database as its statement does. -/
theorem Query.database_run {α σ : Type} {s : Session σ} {q : Query α} {st : Statement}
    (h : q.statement s.prepare = .ok st) (unit : Option Nat) (w : State σ) :
    (q.run s unit w).2.database = (s.reply q.options st w.database).2 := by
  have hfollows : Call.Follows s (fun _ => True) (.read q) w (q.run s unit w) :=
    read_follows (fun _ _ _ _ => trivial) trivial fun _ _ _ _ => trivial
  rw [hfollows.database, Call.direct, show (Call.read q).statement s.prepare = .ok st from h]
  rfl

theorem RowCount.database_run {σ : Type} {s : Session σ} {c : RowCount} {st : Statement}
    (h : c.statement s.prepare = .ok st) (unit : Option Nat) (w : State σ) :
    (c.run s unit w).2.database = (s.reply c.options st w.database).2 := by
  have hfollows : Call.Follows s (fun _ => True) (.count c) w (c.run s unit w) :=
    count_follows (fun _ _ _ _ => trivial) trivial fun _ _ _ _ => trivial
  rw [hfollows.database, Call.direct, show (Call.count c).statement s.prepare = .ok st from h]
  rfl

/-- The count of a query is built exactly when the query is, from the same table, with the same
conditions and values, and is sent with the same options. It asks for filtering only if it is told
so itself, and not where the query does because a call told it so. -/
theorem Query.count_of_query {α σ : Type} (s : Session σ) (unit : Option Nat) (w : State σ)
    (q : Query α) :
    q.count.statement s.prepare = (q.statement s.prepare).map Statement.counting ∧
    ∀ st, q.statement s.prepare = .ok st → ∃ sel : Select, st = .select sel ∧
      q.count.statement s.prepare = .ok (.select sel.counting) ∧
      (∃ selected rest, st.cql = "SELECT " ++ selected ++ " FROM " ++ sel.table ++
        (Clause.fragments " WHERE " sel.filters).cql ++ rest ++
          if sel.allowsFiltering then " ALLOW FILTERING" else "") ∧
      (Statement.select sel.counting).cql = "SELECT count(*) FROM " ++ sel.table ++
        (Clause.fragments " WHERE " sel.filters).cql ∧
      (Statement.select sel.counting).values = st.values ∧
      (q.run s unit w).2.database =
        (s.executor.execute st (s.executionOptions q.options st) w.database).2 ∧
      (q.count.run s unit w).2.database = (s.executor.execute (.select sel.counting)
        (s.executionOptions q.options st) w.database).2 ∧
      (∀ {β : Type} (p : Query β), p.allowFiltering.After q → sel.allowsFiltering = true) ∧
      q.count.allowFiltering.statement s.prepare =
        .ok (.select { sel.counting with allowsFiltering := true }) := by
  have hcount := q.statement_count s.prepare
  refine ⟨hcount, fun st hst => ?_⟩
  obtain ⟨e, clauses, -, -, -, hselect⟩ := of_statement hst
  rw [hst, hselect] at hcount
  refine ⟨_, hselect, hcount, hselect ▸ Select.cql_eq _, Select.cql_counting _, ?_,
    database_run hst unit w, ?_, fun p hafter => ?_, ?_⟩
  · rw [hselect, Select.values_eq, Select.values_eq]
    rfl
  · rw [RowCount.database_run hcount unit w, options_count, hselect]
    rfl
  · rw [hafter.allowsFiltering, Bool.true_or]
  · rw [RowCount.statement_allowFiltering, hcount]
    rfl

namespace User

/-- Reads the ages of users. -/
def ages : Query Int32 := Query.ofProperty (t := .int) ⟨entity, "age"⟩

/-- Reads the ages of the users of a name, among whatever rows have to be looked at. -/
def agesOf (name : String) : Query Int32 :=
  Restricted.whereEq ages.allowFiltering (t := .text) ⟨entity, "name"⟩ name

/-- Users of a name are read by a statement that asks for filtering, and counted by one that does
not. -/
theorem namesakes_counted :
    let s : Session Nat := { executor := ⟨fun _ _ n => (.ok .empty, n + 1)⟩ }
    ∃ sel : Select, (agesOf "Ann").statement s.prepare = .ok (.select sel) ∧
      sel.allowsFiltering = true ∧ (agesOf "Ann").count.statement s.prepare =
        .ok (.select sel.counting) ∧
      (Statement.select sel.counting).cql =
        "SELECT count(*) FROM simple_users WHERE override_name = ?" ∧
      (Statement.select sel.counting).values = [some (.text "Ann")] ∧
      ((agesOf "Ann").count.run s none (s.start 0)).2.database = 1 := by
  intro s
  obtain ⟨sel, hsel, hcount, -, hcql, hvalues, -, hsent, hasks, -⟩ :=
    (Query.count_of_query s none (s.start 0) (agesOf "Ann")).2 _ rfl
  have hafter : ages.allowFiltering.After (agesOf "Ann") :=
    .shared .refl (.where_ (Filter.create (t := .text) ⟨entity, "name"⟩ .eq "Ann"))
  obtain rfl := Statement.select.inj hsel
  exact ⟨_, rfl, hasks ages hafter, hcount, hcql, hvalues, hsent⟩

end User

end WideRow
