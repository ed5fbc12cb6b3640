import WideRow.Operation.Conditions

/-!
# Inserting rows

A `RowInsert` writes columns of one row. An applied insert goes over what the caches know of
the row; a row that the unit had deleted starts anew.
-/

namespace WideRow

/-- Writes a row. -/
structure RowInsert where
  options : StatementOptions := {}
  pending : Pending := {}
  values : List (Node × Cell) := []
  requiresNoRow : Bool := false
  ttl : Option Int32 := none
  timestamp : Option Int64 := none

instance : Configured RowInsert where
  mapOptions f i := { i with options := f i.options }

namespace RowInsert

/-! ## Making an insert -/

/-- Writes an item, without its nulls. -/
def ofItem {α : Type} (m : Mapping α) (item : α) : RowInsert :=
  match m.nodeCells item with
  | .ok cells => { values := cells.filter fun p => p.2.isSome }
  | .error e => { pending := Pending.record {} e }

/-- Writes a property; what was to be written there before is dropped. -/
def value {t : ColumnType} (i : RowInsert) (g : Getter t) (v : t.Carrier) : RowInsert :=
  match g.resolve with
  | .error e => { i with pending := i.pending.record e }
  | .ok n =>
    match t.encode v with
    | .error e => { i with pending := i.pending.record (.invalidArgument (.invalidFor n.text e)) }
    | .ok c => { i with values := (i.values.filter fun p => p.1 ≠ n) ++ [(n, c)] }

/-- Writes only where there is no row. -/
def ifNotExists (i : RowInsert) : RowInsert := { i with requiresNoRow := true }

/-- Lets what is written live for so many seconds. -/
def withTtl (i : RowInsert) (seconds : Int32) : RowInsert := { i with ttl := some seconds }

/-- Says when the insert counts as made, in microseconds. -/
def withTimestamp (i : RowInsert) (micros : Int64) : RowInsert :=
  { i with timestamp := some micros }

/-! ## The statement -/

/-- The entity that is written. -/
def entity (i : RowInsert) : Except Error Entity :=
  match i.values.map Prod.fst with
  | n :: ns => soleEntity "insert columns only into" n ns
  | [] => .error (.mapping .noInsertedColumns)

/-- The insert as a statement. -/
def statement (i : RowInsert) (prepare : ValuePreparer) : Except Error Statement := do
  i.pending.check
  let e ← i.entity
  return .insert {
    table := e.table.cql
    values := (prepare.cells i.values).map fun (n, c) => (n.column.cql, c)
    using_ := ⟨i.ttl, i.timestamp⟩
    ifNotExists := i.requiresNoRow }

/-! ## The caches after an insert -/

/-- The row that is written. -/
def row (i : RowInsert) (prepare : ValuePreparer) : Row := .ofNodes (prepare.cells i.values)

/-- The units after a row was inserted in one of them. -/
def followInUnit (policy : CachePolicy) (inserted : Row) (keys : List String) (i : Nat)
    (us : Units) : Except Error Units := do
  let before := match us.lookup i keys with
    | .found r => r
    | _ => .empty
  let after ← before.merge inserted
  let facets ← policy.facetsOfRow after
  let promote := policy.entity.any (·.isCacheable) && facets.length ≥ Facet.leastForSession
  return us.modify i (·.put (Facet.keys facets) (.row after promote))

/-- The session cache after a row was inserted. -/
def followInSession (policy : CachePolicy) (inserted : Row) (keys : List String)
    (c : SessionCache) : Except Error SessionCache := do
  let after ← ((c.get? keys).getD .empty).merge inserted
  return (← policy.update c after).2

variable {σ : Type}

/-- Builds the statement. -/
def build (i : RowInsert) (s : Session σ) (w : State σ) : Outcome σ Statement :=
  (i.statement s.prepare, w)

/-- The state after an applied insert. -/
def writeThrough (i : RowInsert) (prepare : ValuePreparer) (unit : Option Nat) (w : State σ) :
    Outcome σ Unit :=
  match i.entity with
  | .error e => (.error e, w)
  | .ok e =>
    let policy : CachePolicy := ⟨.update, some e⟩
    let inserted := i.row prepare
    match policy.keysOfRow inserted with
    | .error e => (.error e, w)
    | .ok keys =>
      if keys.isEmpty then (.ok (), w)
      else
        match unit with
        | some n =>
          match followInUnit policy inserted keys n w.units with
          | .error e => (.error e, w)
          | .ok units => (.ok (), { w with units })
        | none =>
          if policy.admits w.cache then
            match followInSession policy inserted keys w.cache with
            | .error e => (.error e, w)
            | .ok cache => (.ok (), { w with cache })
          else (.ok (), w)

/-- Sends the insert. -/
def apply (i : RowInsert) (s : Session σ) (unit : Option Nat) (w : State σ) :
    Outcome σ ResultSet :=
  match i.build s w with
  | (.error e, w) => (.error e, w)
  | (.ok st, w) => s.write unit .insert i.options st (i.writeThrough s.prepare unit) w

/-- Runs the insert. -/
def run (i : RowInsert) (s : Session σ) (unit : Option Nat) : State σ → Outcome σ ResultSet :=
  Session.counted .insert (i.apply s unit)

end RowInsert

end WideRow
