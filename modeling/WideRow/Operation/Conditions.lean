import WideRow.Filter
import WideRow.Session

/-!
# Conditions of an operation

What restricts an operation to some rows, and on what condition it is carried out, together
with the first error that was made while the operation was put together. An operation is put
together by calls that never fail; `Pending.check` brings the error up when the statement is
built.

`Restricted` and `Configured` give all operations the same calls.
-/

namespace WideRow

/-- Filters, conditions of a write, and the first error. -/
structure Conditions where
  filters : List Filter := []
  onlyIf : List Filter := []
  pending : Pending := {}

namespace Conditions

/-- Keeps an error unless there is one already. -/
def record (c : Conditions) (e : Error) : Conditions := { c with pending := c.pending.record e }

/-- Adds a filter, or records why there is none. -/
def where_ (c : Conditions) : Except Error Filter → Conditions
  | .ok f => { c with filters := c.filters ++ [f] }
  | .error e => c.record e

/-- Adds a condition of the write, or records why there is none. -/
def only (c : Conditions) : Except Error Filter → Conditions
  | .ok f => { c with onlyIf := c.onlyIf ++ [f] }
  | .error e => c.record e

/-- The columns that are compared. -/
def nodes (c : Conditions) : List Node := (c.filters ++ c.onlyIf).map (·.node)

/-- The entity of the first column. -/
def firstEntity? (c : Conditions) : Option Entity := c.nodes.head?.map (·.entity)

/-- All columns must belong to one entity. -/
def checkEntity (c : Conditions) (e : Entity) : Except Error Unit :=
  match c.nodes.find? fun n => n.entity ≠ e with
  | some n => .error (.mapping (.foreignCondition n.text e.name))
  | none => .ok ()

/-- The filters as clauses. -/
def filterClauses (c : Conditions) (prepare : ValuePreparer) : Except Error (List Clause) :=
  c.filters.mapM (·.clause prepare)

/-- The conditions of the write as clauses. -/
def onlyIfClauses (c : Conditions) (prepare : ValuePreparer) : Except Error (List Clause) :=
  c.onlyIf.mapM (·.clause prepare)

/-- The values that equalities ask for. -/
def equalities (c : Conditions) (prepare : ValuePreparer) : List (Node × Value) :=
  c.filters.filterMap fun f => (f.equality? prepare).map fun v => (f.node, v)

/-- Whether no filter asks for anything but equality. -/
def onlyEqualities (c : Conditions) : Bool := c.filters.all fun f => f.operator == .eq

/-- The cache keys of the one row that the filters can mean; none where they may mean more. -/
def keys (c : Conditions) (policy : CachePolicy) (prepare : ValuePreparer) : List String :=
  if c.onlyEqualities then Facet.keys (policy.facetsOfValues (c.equalities prepare)) else []

/-- The texts of the conditions of the write, for logs. -/
def onlyIfText (c : Conditions) : String := Shown.bracketed (c.onlyIf.map (·.debug))

end Conditions

/-- The columns of equalities with their values. -/
def cellsOfEqualities (equalities : List (Node × Value)) : List (String × Cell) :=
  equalities.map fun p => (p.1.column.name, some p.2)

/-- Whether a row has the values that equalities ask for. -/
def rowSatisfies (r : Row) : List (Node × Value) → Except Error Bool
  | [] => .ok true
  | (n, v) :: rest => do
    match ← r.find? n.column.name with
    | some (some found) => if found.agrees v then rowSatisfies r rest else return false
    | _ => return false

/-- The one entity that columns belong to; `action` says what they are wanted for. -/
def soleEntity (action : String) (first : Node) (rest : List Node) : Except Error Entity :=
  match rest.find? fun n => n.entity ≠ first.entity with
  | some n => .error (.mapping (.severalEntities action first.entity.name n.entity.name))
  | none => .ok first.entity

/-! ## Calls that operations share -/

/-- Operations that are restricted by conditions. -/
class Restricted (ω : Type) where
  mapConditions : (Conditions → Conditions) → ω → ω

namespace Restricted

variable {ω : Type} [Restricted ω]

/-- Adds a filter. -/
def where_ (op : ω) (f : Except Error Filter) : ω := mapConditions (·.where_ f) op

/-- Adds an equality filter. -/
def whereEq {t : ColumnType} (op : ω) (g : Getter t) (v : t.Carrier) : ω :=
  where_ op (Filter.create g .eq v)

/-- Adds a condition of the write. -/
def onlyIf (op : ω) (f : Except Error Filter) : ω := mapConditions (·.only f) op

/-- Adds an equality as a condition of the write. -/
def onlyIfEq {t : ColumnType} (op : ω) (g : Getter t) (v : t.Carrier) : ω :=
  onlyIf op (Filter.create g .eq v)

end Restricted

/-- Operations whose statement has options. -/
class Configured (ω : Type) where
  mapOptions : (StatementOptions → StatementOptions) → ω → ω

namespace Configured

variable {ω : Type} [Configured ω]

/-- Reads past the caches. -/
def ignoreCache (op : ω) : ω := mapOptions (fun o => { o with usesCache := false }) op

/-- Waits at most this long for an answer. -/
def queryTimeout (op : ω) (d : Duration) : ω :=
  mapOptions (fun o => { o with timeout := some d }) op

/-- Has the database trace the statement. -/
def traced (op : ω) : ω := mapOptions (fun o => { o with isTraced := true }) op

/-- Logs the statement with its values, if statements are logged. -/
def showValues (op : ω) : ω := mapOptions (fun o => { o with showsValues := true }) op

/-- Asks for answers of so many replicas. -/
def consistency (op : ω) (c : Consistency) : ω :=
  mapOptions (fun o => { o with consistency := some c }) op

/-- Says whether the statement may be sent again. -/
def idempotent (op : ω) (b : Bool) : ω :=
  mapOptions (fun o => { o with isIdempotent := some b }) op

end Configured

end WideRow
