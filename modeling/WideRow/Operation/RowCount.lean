import WideRow.Operation.Query

/-!
# Counting rows

Counts the rows of a table that satisfy filters, either of an entity or in place of a query's
own result.
-/

namespace WideRow

/-- Counts rows. -/
structure RowCount where
  options : StatementOptions := {}
  conditions : Conditions := {}
  entity : Option Entity
  allowsFiltering : Bool := false

instance : Restricted RowCount where
  mapConditions f c := { c with conditions := f c.conditions }

instance : Configured RowCount where
  mapOptions f c := { c with options := f c.options }

/-- Counts the rows a query would read from. -/
def Query.count {α : Type} (q : Query α) : RowCount :=
  match q.entity with
  | .ok e => { options := q.options, conditions := q.conditions, entity := some e }
  | .error e => { options := q.options, conditions := q.conditions.record e, entity := none }

namespace RowCount

/-- Counts the rows of an entity. -/
def of (e : Entity) : RowCount := { entity := some e }

/-- Lets the database look at rows that the filters do not select by key. -/
def allowFiltering (c : RowCount) : RowCount := { c with allowsFiltering := true }

/-- The count as a statement. -/
def statement (c : RowCount) (prepare : ValuePreparer) : Except Error Statement := do
  c.conditions.pending.check
  let e ← match c.entity.or c.conditions.firstEntity? with
    | some e => .ok e
    | none => .error (.mapping (.noEntity "count"))
  c.conditions.checkEntity e
  let filters ← c.conditions.filterClauses prepare
  return .select {
    table := e.table.cql
    selection := .count
    filters
    allowsFiltering := c.allowsFiltering }

variable {σ : Type}

/-- Builds the statement. -/
def build (c : RowCount) (s : Session σ) (w : State σ) : Outcome σ Statement :=
  (c.statement s.prepare, w)

/-- Reads the counts that the database answers. -/
def fetch (c : RowCount) (s : Session σ) (unit : Option Nat) (w : State σ) :
    Outcome σ (List Int64) :=
  match c.build s w with
  | (.error e, w) => (.error e, w)
  | (.ok st, w) =>
    match s.execute unit .count c.options st w with
    | (.error e, w) => (.error e, w)
    | (.ok result, w) => (result.rows.mapM fun r => r.get "count" .bigint, w)

/-- Runs the count; no answer counts as no rows. -/
def run (c : RowCount) (s : Session σ) (unit : Option Nat) (w : State σ) : Outcome σ Int64 :=
  match Session.counted .count (c.fetch s unit) w with
  | (.error e, w) => (.error e, w)
  | (.ok counts, w) => (.ok (counts.head?.getD 0), w)

end RowCount

end WideRow
