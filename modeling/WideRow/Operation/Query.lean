import WideRow.Operation.Conditions

/-!
# Queries

A `Query` reads the rows of one entity's table and makes an item of each. What it reads is its
projection, a list of columns; what it makes of a row is its mapper.
-/

namespace WideRow

/-- Reads rows and makes items of them. -/
structure Query (α : Type) where
  options : StatementOptions := {}
  conditions : Conditions := {}
  projection : List Node
  orderings : List Ordered := []
  limit : Option Int32 := none
  allowsFiltering : Bool := false
  mapper : Row → Except Error α

instance {α : Type} : Restricted (Query α) where
  mapConditions f q := { q with conditions := f q.conditions }

instance {α : Type} : Configured (Query α) where
  mapOptions f q := { q with options := f q.options }

/-! ## Making a query -/

/-- A property together with the type in which it is read. -/
abbrev AnyGetter := (t : ColumnType) × Getter t

namespace Query

variable {α β : Type}

/-- A query whose projection does not exist. -/
def unresolved (e : Error) : Query α where
  conditions := Conditions.record {} e
  projection := []
  mapper _ := .error (.mapping .unresolvedProjection)

/-- Reads one property. -/
def ofProperty {t : ColumnType} (g : Getter t) : Query t.Carrier :=
  match g.resolve with
  | .ok n => { projection := [n], mapper := fun r => r.getNode n t }
  | .error e => unresolved e

/-- The columns of properties, each with the type in which it is read. -/
def resolveAll : List AnyGetter → Except Error (List (Node × ColumnType))
  | [] => .ok []
  | ⟨t, g⟩ :: rest => do
    let n ← g.resolve
    return (n, t) :: (← resolveAll rest)

/-- Reads several properties. -/
def ofProperties (gs : List AnyGetter) : Query (List Typed) :=
  match resolveAll gs with
  | .error e => unresolved e
  | .ok columns =>
    { projection := columns.map Prod.fst
      mapper := fun r => columns.mapM fun (n, t) => do return ⟨t, ← r.getNode n t⟩ }

/-- Reads all columns of an entity and makes the program's items of them. -/
def all (m : Mapping α) : Query α := { projection := m.entity.nodes, mapper := m.ofRow }

/-- Reads rows as they are; columns are added by `column`. -/
def raw : Query Row := { projection := [], mapper := .ok }

/-- Reads one more column. -/
def column (q : Query Row) (e : Entity) (property : String) : Query Row :=
  match e.node property with
  | .ok n => { q with projection := q.projection ++ [n] }
  | .error e => { q with conditions := q.conditions.record e }

/-- Orders the rows by one more property. -/
def orderBy (q : Query α) (e : Entity) (property : String) (d : Direction) : Query α :=
  match Ordered.create e property d with
  | .ok o => { q with orderings := q.orderings ++ [o] }
  | .error e => { q with conditions := q.conditions.record e }

/-- Reads at most this many rows. -/
def limited (q : Query α) (n : Int32) : Query α := { q with limit := some n }

/-- Lets the database look at rows that the filters do not select by key. -/
def allowFiltering (q : Query α) : Query α := { q with allowsFiltering := true }

/-- Makes other items of the rows. -/
def withMapper (q : Query α) (mapper : Row → Except Error β) : Query β := { q with mapper }

/-- Makes something of every item. -/
def map (q : Query α) (f : α → β) : Query β := q.withMapper fun r => (q.mapper r).map f

/-- Reads all columns of an entity instead, and makes items of that entity. -/
def mapTo (q : Query α) (m : Mapping β) : Query β :=
  let conditions :=
    match q.projection.find? fun n => n.entity ≠ m.entity with
    | some n => q.conditions.record (.mapping (.foreignColumn n.text m.entity.name))
    | none => q.conditions
  { q.withMapper m.ofRow with projection := m.entity.nodes, conditions }

/-! ## The statement -/

/-- The entity that is read. -/
def entity (q : Query α) : Except Error Entity :=
  match q.projection with
  | [] => .error (.mapping (.noEntity "select"))
  | n :: ns => soleEntity "select columns only from" n ns

/-- The query as a statement. -/
def statement (q : Query α) (prepare : ValuePreparer) : Except Error Statement := do
  q.conditions.pending.check
  let e ← q.entity
  q.conditions.checkEntity e
  let filters ← q.conditions.filterClauses prepare
  return .select {
    table := e.table.cql
    selection := .columns (q.projection.map (·.column.cql))
    filters
    orderings := q.orderings.map (·.ordering)
    limit := q.limit
    allowsFiltering :=
      q.allowsFiltering || q.projection.any (·.property.hasCaseSensitiveIndex) }

/-- Conditions of a write mean nothing to a query; it says so whenever its statement is
built. -/
def warnings (q : Query α) (st : Statement) : List Event :=
  if q.conditions.onlyIf.isEmpty then []
  else
    [⟨.warn, "onlyIf conditions would be ignored in the statement",
      [("conditions", q.conditions.onlyIfText), ("cql", st.cql)]⟩]

/-- Builds the statement and logs the warnings. -/
def build {σ : Type} (q : Query α) (s : Session σ) (w : State σ) : Outcome σ Statement :=
  match q.statement s.prepare with
  | .error e => (.error e, w)
  | .ok st => (.ok st, { w with events := w.events ++ q.warnings st })

/-! ## Running a query -/

variable {σ : Type}

/-- Reads the rows and makes the items. -/
def fetch (q : Query α) (s : Session σ) (unit : Option Nat) (w : State σ) :
    Outcome σ (List α) :=
  match q.build s w with
  | (.error e, w) => (.error e, w)
  | (.ok st, w) =>
    match s.execute unit .select q.options st w with
    | (.error e, w) => (.error e, w)
    | (.ok result, w) => (result.rows.mapM q.mapper, w)

/-- Runs the query. -/
def run (q : Query α) (s : Session σ) (unit : Option Nat) : State σ → Outcome σ (List α) :=
  Session.counted .select (q.fetch s unit)

end Query

end WideRow
