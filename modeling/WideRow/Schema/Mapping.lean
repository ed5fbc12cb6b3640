import WideRow.Row

/-!
# Programs' own types

A `Mapping` ties a type of the program to an entity: it writes an item as named cells and reads
one from a row. A `Getter` names one property together with the type in which the program sees
it.
-/

namespace WideRow

/-- How items of a type are kept as rows of an entity. -/
structure Mapping (α : Type) where
  entity : Entity
  ofRow : Row → Except Error α
  cells : α → List (String × Cell)

/-- A property of an entity, seen as a column type. -/
structure Getter (t : ColumnType) where
  entity : Entity
  property : String

/-- The column of a getter. -/
def Getter.resolve {t : ColumnType} (g : Getter t) : Except Error Node := g.entity.node g.property

/-- A change made to every value before a statement binds it, by the column it belongs to. -/
abbrev ValuePreparer := Node → Value → Value

/-- Leaves every value as it is. -/
def ValuePreparer.identity : ValuePreparer := fun _ v => v

/-- A cell after the change made to values before they are bound. -/
def ValuePreparer.cell (prepare : ValuePreparer) (n : Node) (c : Cell) : Cell := c.map (prepare n)

/-- Columns with their cells, ready to be bound. -/
def ValuePreparer.cells (prepare : ValuePreparer) (cs : List (Node × Cell)) : List (Node × Cell) :=
  cs.map fun (n, c) => (n, prepare.cell n c)

/-- The row of some columns. -/
def Row.ofNodes (cs : List (Node × Cell)) : Row :=
  .ofPairs (cs.map fun (n, c) => (n.column.name, c))

/-- The columns of an item with their cells. -/
def Mapping.nodeCells {α : Type} (m : Mapping α) (item : α) : Except Error (List (Node × Cell)) :=
  (m.cells item).mapM fun (name, c) => do return (← m.entity.node name, c)

/-- Items that are typed properties by name, read from the named properties in order. -/
def Mapping.ofTypes (e : Entity) (types : List (String × ColumnType)) :
    Mapping (List (String × Typed)) where
  entity := e
  ofRow r := types.mapM fun (name, t) => do return (name, ⟨t, ← r.getProperty e name t⟩)
  cells item := item.map fun (name, v) => (name, v.cell)

end WideRow
