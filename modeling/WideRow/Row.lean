import WideRow.Schema.Entity

/-!
# Rows

A row is a list of column names and a list of cells, read side by side. A row of the database
may come with fewer cells than columns; asking it for one of the missing cells breaks the
operation off (`Error.brokenOff`). `Row.IsWellFormed` is the shape every row has that was built
from pairs: as many cells as columns, and no column twice.
-/

namespace WideRow

/-- A row: column names and their cells. -/
structure Row where
  columns : List String := []
  cells : List Cell := []
  deriving Inhabited

namespace Row

/-- The row without columns. -/
def empty : Row := {}

/-- The row of these pairs. -/
def ofPairs (pairs : List (String × Cell)) : Row := ⟨pairs.map Prod.fst, pairs.map Prod.snd⟩

/-- The columns that have a cell, with their cells. -/
def pairs (r : Row) : List (String × Cell) := r.columns.zip r.cells

/-- No column twice, and as many cells as columns. -/
structure IsWellFormed (r : Row) : Prop where
  nodup : r.columns.Nodup
  length_eq : r.cells.length = r.columns.length

/-- The number of cells. -/
def size (r : Row) : Nat := r.cells.length

/-- Whether the row has a column. -/
def contains (r : Row) (column : String) : Bool := r.columns.contains column

/-- The place of a column. -/
def position? (r : Row) (column : String) : Option Nat := r.columns.findIdx? (· == column)

/-- The cell at a place. -/
def at? (r : Row) (i : Nat) : Option Cell := r.cells[i]?

/-- The cell of a column, `none` where the row has no such column. -/
def find? (r : Row) (column : String) : Except Error (Option Cell) :=
  match r.position? column with
  | none => .ok none
  | some i =>
    match r.at? i with
    | none => .error .brokenOff
    | some c => .ok (some c)

/-- Gives a column a cell, a new column at the end. -/
def set (r : Row) (column : String) (c : Cell) : Except Error Row :=
  match r.position? column with
  | none => .ok ⟨r.columns ++ [column], r.cells ++ [c]⟩
  | some i =>
    if i < r.cells.length then .ok { r with cells := r.cells.set i c } else .error .brokenOff

/-- Takes a column away. The first component is its cell, if the row had the column. -/
def remove (r : Row) (column : String) : Except Error (Option Cell × Row) :=
  match r.position? column with
  | none => .ok (none, r)
  | some i =>
    match r.at? i with
    | none => .error .brokenOff
    | some c => .ok (some c, ⟨r.columns.eraseIdx i, r.cells.eraseIdx i⟩)

/-- Sets columns one after the other. -/
def setAll (r : Row) : List (String × Cell) → Except Error Row
  | [] => .ok r
  | (column, c) :: rest => do (← r.set column c).setAll rest

/-- Takes columns away one after the other. -/
def removeAll (r : Row) : List String → Except Error Row
  | [] => .ok r
  | column :: rest => do (← r.remove column).2.removeAll rest

/-- The row with every column of another one set to that one's cell. -/
def merge (r other : Row) : Except Error Row := r.setAll other.pairs

/-- Reads a column as a typed value. -/
def get (r : Row) (column : String) (t : ColumnType) : Except Error t.Carrier := do
  match ← r.find? column with
  | none => .error (.conversion column .missing)
  | some c =>
    match t.decode c with
    | .error e => .error (.conversion column e)
    | .ok v => .ok v

/-- Reads the column of a node as a typed value. -/
def getNode (r : Row) (n : Node) (t : ColumnType) : Except Error t.Carrier := r.get n.column.name t

/-- Reads the column of a property as a typed value. -/
def getProperty (r : Row) (e : Entity) (property : String) (t : ColumnType) :
    Except Error t.Carrier := do
  r.getNode (← e.node property) t

/-- Equality of cells in their order. -/
def cellsAgree : List Cell → List Cell → Bool
  | [], [] => true
  | c :: cs, d :: ds => Cell.agrees c d && cellsAgree cs ds
  | _, _ => false

/-- Whether two rows have the same columns in the same order, with equal cells. -/
def agrees (r other : Row) : Bool := r.columns == other.columns && cellsAgree r.cells other.cells

end Row

/-! ## Results -/

/-- What the database answers: rows, and the names of their columns. -/
structure ResultSet where
  columns : List String := []
  rows : List Row := []
  deriving Inhabited

namespace ResultSet

/-- The result without columns and rows. -/
def empty : ResultSet := {}

/-- The result whose rows have these cells. -/
def ofCells (columns : List String) (rows : List (List Cell)) : ResultSet :=
  ⟨columns, rows.map fun cells => ⟨columns, cells⟩⟩

/-- The result of these rows, with the columns of the first. -/
def ofRows (rows : List Row) : ResultSet := ⟨(rows.head?.map Row.columns).getD [], rows⟩

/-- The first row. -/
def first? (s : ResultSet) : Option Row := s.rows.head?

/-- The column in which the database says whether a conditional write was carried out. -/
def appliedColumn : String := "[applied]"

/-- Whether a write was carried out. Only a conditional write that was refused says no. -/
def wasApplied (s : ResultSet) : Except Error Bool :=
  match s.first? with
  | none => .ok true
  | some row =>
    match row.find? appliedColumn with
    | .error e => .error e
    | .ok (some (some (.boolean b))) => .ok b
    | .ok _ => .ok true

end ResultSet

end WideRow
