import WideRow.Operation.Conditions

/-!
# Updating rows

A `RowUpdate` changes columns of the rows that its filters select. The caches follow an applied
update: where the filters name one row, the cached row takes the columns that were set and
forgets those whose new content is not known, such as a list that was appended to; where they do
not, every cached row of the table might have changed and is dropped.
-/

namespace WideRow

/-- A change to one column of an entity. The value of a collection change is one element. -/
inductive Change where
  | set (c : Cell)
  | increment (delta : Int64)
  | decrement (delta : Int64)
  /-- Adds at the end of a list. -/
  | append (element : Value)
  /-- Adds at the front of a list. -/
  | prepend (element : Value)
  /-- Takes out of a list. -/
  | discard (element : Value)
  /-- Adds to a set. -/
  | add (element : Value)
  /-- Takes out of a set. -/
  | remove (element : Value)

/-- The change as it stands in a statement. -/
def Change.assignment (n : Node) (prepare : ValuePreparer) : Change → Assignment
  | set c => .set n.column.cql (prepare.cell n c)
  | increment delta => .increment n.column.cql delta
  | decrement delta => .decrement n.column.cql delta
  | append v => .append n.column.cql (.list [prepare n v])
  | prepend v => .prepend n.column.cql (.list [prepare n v])
  | discard v => .remove n.column.cql (.list [prepare n v])
  | add v => .add n.column.cql (.set [prepare n v])
  | remove v => .remove n.column.cql (.set [prepare n v])

/-- Changes rows. -/
structure RowUpdate where
  options : StatementOptions := {}
  conditions : Conditions := {}
  changes : List (Node × Change) := []
  requiresRow : Bool := false
  ttl : Option Int32 := none
  timestamp : Option Int64 := none

instance : Restricted RowUpdate where
  mapConditions f u := { u with conditions := f u.conditions }

instance : Configured RowUpdate where
  mapOptions f u := { u with options := f u.options }

namespace RowUpdate

/-! ## Making an update -/

/-- Adds a change to a property, or records why there is none. -/
def change {t : ColumnType} (u : RowUpdate) (g : Getter t) (make : Node → Except Error Change) :
    RowUpdate :=
  match (do let n ← g.resolve; return (n, ← make n) : Except Error (Node × Change)) with
  | .ok c => { u with changes := u.changes ++ [c] }
  | .error e => { u with conditions := u.conditions.record e }

/-- The cell of a value that is given to a column. -/
def cellFor (t : ColumnType) (v : t.Carrier) (n : Node) : Except Error Cell :=
  match t.encode v with
  | .ok c => .ok c
  | .error e => .error (.invalidArgument (.invalidFor n.text e))

/-- The value of an element that is given to a column; it may not be null. -/
def elementFor (t : ColumnType) (v : t.Carrier) (n : Node) : Except Error Value := do
  match ← cellFor t v n with
  | some c => return c
  | none => .error (.invalidArgument (.emptyFor n.text))

/-- Gives a property a value. -/
def set {t : ColumnType} (u : RowUpdate) (g : Getter t) (v : t.Carrier) : RowUpdate :=
  u.change g fun n => return .set (← cellFor t v n)

/-- Adds to a counter. -/
def increment (u : RowUpdate) (g : Getter .bigint) (delta : Int64) : RowUpdate :=
  u.change g fun _ => .ok (.increment delta)

/-- Takes from a counter. -/
def decrement (u : RowUpdate) (g : Getter .bigint) (delta : Int64) : RowUpdate :=
  u.change g fun _ => .ok (.decrement delta)

/-- Adds an element at the end of a list. -/
def append {t : ColumnType} (u : RowUpdate) (g : Getter (.list t)) (v : t.Carrier) : RowUpdate :=
  u.change g fun n => return .append (← elementFor t v n)

/-- Adds an element at the front of a list. -/
def prepend {t : ColumnType} (u : RowUpdate) (g : Getter (.list t)) (v : t.Carrier) : RowUpdate :=
  u.change g fun n => return .prepend (← elementFor t v n)

/-- Takes all equal elements out of a list. -/
def discard {t : ColumnType} (u : RowUpdate) (g : Getter (.list t)) (v : t.Carrier) : RowUpdate :=
  u.change g fun n => return .discard (← elementFor t v n)

/-- Adds an element to a set. -/
def add {t : ColumnType} (u : RowUpdate) (g : Getter (.set t)) (v : t.Carrier) : RowUpdate :=
  u.change g fun n => return .add (← elementFor t v n)

/-- Takes an element out of a set. -/
def remove {t : ColumnType} (u : RowUpdate) (g : Getter (.set t)) (v : t.Carrier) : RowUpdate :=
  u.change g fun n => return .remove (← elementFor t v n)

/-- Changes only rows that exist. -/
def ifExists (u : RowUpdate) : RowUpdate := { u with requiresRow := true }

/-- Lets what is written live for so many seconds. -/
def withTtl (u : RowUpdate) (seconds : Int32) : RowUpdate := { u with ttl := some seconds }

/-- Says when the update counts as made, in microseconds. -/
def withTimestamp (u : RowUpdate) (micros : Int64) : RowUpdate :=
  { u with timestamp := some micros }

/-! ## The statement -/

/-- The entity whose columns are changed. -/
def entity (u : RowUpdate) : Except Error Entity :=
  match u.changes.map Prod.fst with
  | n :: ns => soleEntity "update columns only in" n ns
  | [] =>
    match u.conditions.firstEntity? with
    | some e => .ok e
    | none => .error (.mapping (.noEntity "update"))

/-- The condition of a write: that the row exists, or clauses. -/
def conditional (requiresRow : Bool) (clauses : List Clause) : Conditional :=
  if requiresRow then .ifExists
  else if clauses.isEmpty then .always
  else .ifAll clauses

/-- The update as a statement. -/
def statement (u : RowUpdate) (prepare : ValuePreparer) : Except Error Statement := do
  u.conditions.pending.check
  let e ← u.entity
  u.conditions.checkEntity e
  if u.changes.isEmpty then .error (.mapping (.noAssignments e.name))
  else if u.requiresRow && !u.conditions.onlyIf.isEmpty then
    .error (.mapping .conflictingConditions)
  else
    let filters ← u.conditions.filterClauses prepare
    let onlyIf ← u.conditions.onlyIfClauses prepare
    return .update {
      table := e.table.cql
      using_ := ⟨u.ttl, u.timestamp⟩
      assignments := u.changes.map fun (n, c) => c.assignment n prepare
      filters
      conditional := conditional u.requiresRow onlyIf }

/-! ## The caches after an update -/

/-- The columns whose content is known after the update: those of the equalities, and those
that were set. -/
def known (u : RowUpdate) (prepare : ValuePreparer) : List (String × Cell) :=
  cellsOfEqualities (u.conditions.equalities prepare) ++
    u.changes.filterMap fun
      | (n, .set c) => some (n.column.name, prepare.cell n c)
      | _ => none

/-- The columns whose content is not known after the update. -/
def unknown (u : RowUpdate) : List String :=
  u.changes.filterMap fun
    | (_, .set _) => none
    | (n, _) => some n.column.name

/-- The units after an update of one row in one of them. The keys that the row no longer binds
say that it is gone, so that nothing further out is asked for them. -/
def followInUnit (u : RowUpdate) (prepare : ValuePreparer) (policy : CachePolicy)
    (keys : List String) (i : Nat) (us : Units) (c : SessionCache) : Except Error Units := do
  let before := match us.lookup i keys with
    | .found r => r
    | .deleted => .empty
    | .missing => if policy.admits c then (c.get? keys).getD .empty else .empty
  let previous ← policy.keysOfRow before
  let known ← Row.empty.setAll (u.known prepare)
  let after ← (← before.merge known).removeAll u.unknown
  let facets ← policy.facetsOfRow after
  let all := keys ++ Facet.keys facets
  let stale := previous.filter fun k => !all.contains k
  let promote := policy.entity.any (·.isCacheable) && facets.length ≥ Facet.leastForSession
  return us.modify i fun unit => (unit.put stale .deleted).put all (.row after promote)

variable {σ : Type}

/-- Builds the statement. -/
def build (u : RowUpdate) (s : Session σ) (w : State σ) : Outcome σ Statement :=
  (u.statement s.prepare, w)

/-- The state after an applied update. -/
def writeThrough (u : RowUpdate) (prepare : ValuePreparer) (unit : Option Nat) (w : State σ) :
    Outcome σ Unit :=
  match u.entity with
  | .error e => (.error e, w)
  | .ok e =>
    let policy : CachePolicy := ⟨.update, some e⟩
    let keys := u.conditions.keys policy prepare
    match unit with
    | none =>
      if policy.admits w.cache then
        match Row.empty.setAll (u.known prepare) with
        | .error e => (.error e, w)
        | .ok known =>
          let (result, cache) := policy.merge w.cache keys known u.unknown
          (result, { w with cache })
      else (.ok (), w)
    | some i =>
      if keys.isEmpty then
        (.ok (), { w.modifyUnit i (·.evictSchema e.table.name) with
          cache := w.cache.invalidateSchema e.table.name })
      else
        match u.followInUnit prepare policy keys i w.units w.cache with
        | .error e => (.error e, w)
        | .ok units => (.ok (), { w with units })

/-- Sends the update. -/
def apply (u : RowUpdate) (s : Session σ) (unit : Option Nat) (w : State σ) :
    Outcome σ ResultSet :=
  match u.build s w with
  | (.error e, w) => (.error e, w)
  | (.ok st, w) => s.write unit .update u.options st (u.writeThrough s.prepare unit) w

/-- Runs the update. -/
def run (u : RowUpdate) (s : Session σ) (unit : Option Nat) : State σ → Outcome σ ResultSet :=
  Session.counted .update (u.apply s unit)

end RowUpdate

end WideRow
