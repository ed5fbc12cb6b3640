import WideRow.Row

/-!
# Facets

A facet is what a cached row can be found by: the table, or values for the columns of one of
the entity's key shapes. The cache key of a facet is flat text, the table's name first
(`Facet.keys`), so all keys of a table begin with `Facet.schemaStart`.
-/

namespace WideRow

/-- The table of a row, or the values of some of its columns, as text. -/
inductive Facet where
  | table (name : String)
  | columns (pairs : List (String × String))
  deriving DecidableEq

namespace Facet

/-- The names and values of a facet. -/
def pairs : Facet → List (String × String)
  | table name => [("table", name)]
  | columns ps => ps

/-- Whether the facet holds for every row of the table. -/
def isFixed : Facet → Bool
  | table _ => true
  | columns _ => false

/-- The table that a facet names. -/
def tableName? : Facet → Option String
  | table name => some name
  | columns _ => none

/-- The text of a facet. -/
def key (f : Facet) : String :=
  String.intercalate ";" (f.pairs.map fun p => p.1 ++ "==" ++ p.2)

/-- The table that facets name. -/
def schemaName? (fs : List Facet) : Option String := fs.findSome? tableName?

/-- What all keys of a table begin with. -/
def schemaStart (schema : String) : String := schema ++ "."

/-- The cache keys of facets in a table. -/
def flatten (schema : String) (fs : List Facet) : List String :=
  (fs.filter fun f => !f.isFixed).map fun f => schemaStart schema ++ f.key

/-- The cache keys of facets, none where they name no table. -/
def keys (fs : List Facet) : List String :=
  match schemaName? fs with
  | some schema => flatten schema fs
  | none => []

section

variable {m : Type → Type} [Monad m]

/-- The values of columns as text, `none` as soon as one is null. -/
def boundPairs (cellOf : Node → m Cell) : List Node → m (Option (List (String × String)))
  | [] => return some []
  | n :: ns => do
    match ← cellOf n with
    | none => return none
    | some v =>
      match ← boundPairs cellOf ns with
      | none => return none
      | some ps => return some ((n.column.name, v.display) :: ps)

/-- A key shape with values for all its columns. -/
def bind? (cellOf : Node → m Cell) (shape : List Node) : m (Option Facet) := do
  return (← boundPairs cellOf shape).map columns

end

/-- The cell of a column in a row, null where the row has no such column. -/
def cellIn (r : Row) (n : Node) : Except Error Cell := do return (← r.find? n.column.name).join

/-- A row is only worth a place in the session cache when it can be found by something besides
its table. -/
def leastForSession : Nat := 2

end Facet

namespace Entity

/-- The facets of an entity for which every column has a value, the table's first. -/
def facets {m : Type → Type} [Monad m] (e : Entity) (cellOf : Node → m Cell) :
    m (List Facet) := do
  let bound ← e.keyShapes.mapM (Facet.bind? cellOf)
  return .table e.table.name :: bound.filterMap fun f => f

/-- The facets for which a list of values has every column; of two values for a column the
first counts. -/
def facetsOfValues (e : Entity) (values : List (Node × Value)) : List Facet :=
  Id.run (e.facets fun n => (values.find? fun p => p.1 == n).map Prod.snd)

/-- The facets for which a row has every column. -/
def facetsOfRow (e : Entity) (r : Row) : Except Error (List Facet) := e.facets (Facet.cellIn r)

end Entity

end WideRow
