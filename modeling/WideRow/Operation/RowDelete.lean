import WideRow.Operation.RowUpdate

/-!
# Deleting rows

A `RowDelete` removes the rows that its filters select; without filters it empties the table.
After an applied delete a unit of work keeps for every key of the row that it is gone, and the
session cache drops it. A delete that is not known to have removed one row makes the caches
forget the whole table.
-/

namespace WideRow

/-- Removes rows. -/
structure RowDelete where
  options : StatementOptions := {}
  conditions : Conditions := {}
  entity : Entity
  requiresRow : Bool := false
  timestamp : Option Int64 := none

instance : Restricted RowDelete where
  mapConditions f d := { d with conditions := f d.conditions }

instance : Configured RowDelete where
  mapOptions f d := { d with options := f d.options }

namespace RowDelete

/-- Removes rows of an entity. -/
def of (e : Entity) : RowDelete := { entity := e }

/-- Removes only rows that exist. -/
def ifExists (d : RowDelete) : RowDelete := { d with requiresRow := true }

/-- Says when the delete counts as made, in microseconds. -/
def withTimestamp (d : RowDelete) (micros : Int64) : RowDelete :=
  { d with timestamp := some micros }

/-- Whether all rows of the table are removed. -/
def isTruncate (d : RowDelete) : Bool := d.conditions.filters.isEmpty

/-- The delete as a statement. -/
def statement (d : RowDelete) (prepare : ValuePreparer) : Except Error Statement := do
  d.conditions.pending.check
  d.conditions.checkEntity d.entity
  if d.isTruncate then return .truncate d.entity.table.cql
  else if d.requiresRow && !d.conditions.onlyIf.isEmpty then
    .error (.mapping .conflictingConditions)
  else
    let filters ← d.conditions.filterClauses prepare
    let onlyIf ← d.conditions.onlyIfClauses prepare
    return .delete {
      table := d.entity.table.cql
      using_ := { timestamp := d.timestamp }
      filters
      conditional := RowUpdate.conditional d.requiresRow onlyIf }

/-- Emptying a table knows no conditions; it says so whenever its statement is built. -/
def warnings (d : RowDelete) (st : Statement) : List Event :=
  if !d.isTruncate || d.conditions.onlyIf.isEmpty then []
  else
    [⟨.warn, "onlyIf conditions dropped from a delete without where filters",
      [("conditions", d.conditions.onlyIfText), ("cql", st.cql)]⟩]

variable {σ : Type}

/-- Builds the statement and logs the warnings. -/
def build (d : RowDelete) (s : Session σ) (w : State σ) : Outcome σ Statement :=
  match d.statement s.prepare with
  | .error e => (.error e, w)
  | .ok st => (.ok st, { w with events := w.events ++ d.warnings st })

/-! ## The caches after a delete -/

/-- Every key under which the deleted row may be known. -/
def deletedKeys (policy : CachePolicy) (keys : List String) (i : Nat) (us : Units)
    (c : SessionCache) : Except Error (List String) :=
  let known := match us.lookup i keys with
    | .found r => some r
    | _ => c.get? keys
  match known with
  | none => .ok keys
  | some r => do return keys ++ (← policy.keysOfRow r)

/-- The state after an applied delete. -/
def writeThrough (d : RowDelete) (prepare : ValuePreparer) (unit : Option Nat) (w : State σ) :
    Outcome σ Unit :=
  let policy : CachePolicy := ⟨.delete, some d.entity⟩
  let schema := d.entity.table.name
  let keys := if d.isTruncate then [] else d.conditions.keys policy prepare
  match unit with
  | none =>
    match policy.evict w.cache keys with
    | .error e => (.error e, w)
    | .ok cache => (.ok (), { w with cache })
  | some i =>
    if d.isTruncate then
      (.ok (), { w.modifyUnit i (·.evictSchema schema) with
        cache := w.cache.invalidateSchema schema })
    else if keys.isEmpty then (.ok (), w.modifyUnit i (·.evictSchema schema))
    else
      match deletedKeys policy keys i w.units w.cache with
      | .error e => (.error e, w)
      | .ok all => (.ok (), w.modifyUnit i (·.put all .deleted))

/-- Sends the delete. -/
def apply (d : RowDelete) (s : Session σ) (unit : Option Nat) (w : State σ) :
    Outcome σ ResultSet :=
  match d.build s w with
  | (.error e, w) => (.error e, w)
  | (.ok st, w) => s.write unit .delete d.options st (d.writeThrough s.prepare unit) w

/-- Runs the delete. -/
def run (d : RowDelete) (s : Session σ) (unit : Option Nat) : State σ → Outcome σ ResultSet :=
  Session.counted .delete (d.apply s unit)

end RowDelete

end WideRow
