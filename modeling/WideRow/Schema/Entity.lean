import WideRow.Error

/-!
# Entities

An entity describes a table: its columns, the part each plays in the key, and whether its rows
may be kept in the session cache. A `Node` is one column of one entity, and the way in which
all other modules speak of columns.

Entities are told apart by where they were declared, not by what they say, so each carries an
`id`; two equal descriptions with different ids are different entities.

The name of a table or a column is an `Identifier`, which keeps it as given. In a statement it
stands bare when it consists of lower case letters, digits and underscores, and otherwise between
double quotes, where a quote in the name is written twice.
-/

namespace WideRow

/-! ## Names of tables and columns -/

/-- The name of a table or a column. -/
structure Identifier where
  name : String
  deriving DecidableEq

namespace Identifier

/-- Whether a character may stand in a bare identifier. -/
def isBareChar (c : Char) : Bool := c.isLower || c.isDigit || c == '_'

/-- Whether the name stands in a statement as it is. -/
def isBare (i : Identifier) : Bool := i.name.toList.all isBareChar

/-- A text with every double quote written twice. -/
def doubled : List Char → List Char
  | [] => []
  | c :: cs => if c = '"' then '"' :: '"' :: doubled cs else c :: doubled cs

/-- The identifier as it stands in a statement. -/
def cql (i : Identifier) : String :=
  if i.isBare then i.name else "\"" ++ String.ofList (doubled i.name.toList) ++ "\""

end Identifier

/-! ## Columns -/

/-- The part a column plays in its table. -/
inductive ColumnRole where
  | partitionKey
  | clusteringColumn
  | column
  | staticColumn
  deriving DecidableEq

/-- The name of a role. -/
def ColumnRole.name : ColumnRole → String
  | partitionKey => "partition_key"
  | clusteringColumn => "clustering_column"
  | column => "column"
  | staticColumn => "static_column"

/-- A sort direction. -/
inductive Direction where
  | ascending
  | descending
  deriving DecidableEq

/-- The word of a direction in a statement. -/
def Direction.cql : Direction → String
  | ascending => "ASC"
  | descending => "DESC"

/-- A property of an entity and the column that holds it. -/
structure Property where
  name : String
  column : Identifier
  role : ColumnRole
  ordering : Option Direction := none
  isIndexed : Bool := false
  hasCaseSensitiveIndex : Bool := false
  isUnique : Bool := false
  deriving DecidableEq

namespace Property

/-- Whether the column belongs to the primary key. -/
def isPrimaryKey (p : Property) : Bool :=
  p.role == .partitionKey || p.role == .clusteringColumn

end Property

/-- The description of a table. -/
structure Entity where
  /-- Tells apart entities that are declared apart. -/
  id : String
  name : String
  table : Identifier
  isCacheable : Bool := false
  properties : List Property := []
  deriving DecidableEq

/-- One column of an entity. -/
structure Node where
  entity : Entity
  index : Fin entity.properties.length
  deriving DecidableEq

namespace Node

/-- What the entity says of the column. -/
def property (n : Node) : Property := n.entity.properties[n.index]

/-- The column's identifier. -/
def column (n : Node) : Identifier := n.property.column

/-- Entity and property, as messages name them. -/
def text (n : Node) : String := n.entity.name ++ "." ++ n.property.name

end Node

namespace Entity

/-- The columns of an entity, in the order of declaration. -/
def nodes (e : Entity) : List Node := (List.finRange e.properties.length).map fun i => ⟨e, i⟩

/-- The column of a property. -/
def node (e : Entity) (property : String) : Except Error Node :=
  match e.nodes.find? fun n => n.property.name == property with
  | some n => .ok n
  | none => .error (.mapping (.unresolvedProperty property e.name))

/-- The property that a result column belongs to. -/
def nodeOfColumn? (e : Entity) (column : String) : Option Node :=
  e.nodes.find? fun n => n.column.name == column

/-- The columns of the primary key: those of the partition key, then the clustering ones. -/
def primaryKey (e : Entity) : List Node :=
  e.nodes.filter (·.property.role == .partitionKey) ++
    e.nodes.filter (·.property.role == .clusteringColumn)

/-- The sets of columns that each identify one row: the primary key, and every other unique
column by itself. -/
def keyShapes (e : Entity) : List (List Node) :=
  (if e.primaryKey.isEmpty then [] else [e.primaryKey]) ++
    (e.nodes.filter fun n => n.property.isUnique && !n.property.isPrimaryKey).map ([·])

end Entity

/-! ## Declaring an entity -/

namespace Entity

/-- An entity without columns. -/
def declare (id name table : String) : Entity := { id, name, table := ⟨table⟩ }

/-- Says whether rows may be kept in the session cache. -/
def cacheable (e : Entity) (b : Bool) : Entity := { e with isCacheable := b }

/-- Adds a property whose column has the same name. -/
def add (e : Entity) (name : String) (role : ColumnRole) : Entity :=
  { e with properties := e.properties ++ [{ name, column := ⟨name⟩, role }] }

/-- Changes the property that was added last. -/
def last (e : Entity) (f : Property → Property) : Entity :=
  match e.properties.getLast? with
  | none => e
  | some p => { e with properties := e.properties.dropLast ++ [f p] }

/-- Adds a column of the partition key. -/
def partitionKey (e : Entity) (name : String) : Entity := e.add name .partitionKey

/-- Adds a clustering column. -/
def clusteringColumn (e : Entity) (name : String) (d : Direction) : Entity :=
  (e.add name .clusteringColumn).last fun p => { p with ordering := some d }

/-- Adds a column outside the key. -/
def column (e : Entity) (name : String) : Entity := e.add name .column

/-- Adds a column that all rows of a partition share. -/
def staticColumn (e : Entity) (name : String) : Entity := e.add name .staticColumn

/-- Names the last property's column differently. -/
def withColumnName (e : Entity) (column : String) : Entity :=
  e.last fun p => { p with column := ⟨column⟩ }

/-- Says that the last property's column has an index. -/
def indexed (e : Entity) : Entity := e.last fun p => { p with isIndexed := true }

/-- Says that the last property's column has an index that tells upper case from lower. -/
def caseSensitiveIndex (e : Entity) : Entity :=
  e.last fun p => { p with isIndexed := true, hasCaseSensitiveIndex := true }

/-- Says that no two rows share a value of the last property. -/
def unique (e : Entity) : Entity := e.last fun p => { p with isUnique := true }

end Entity

end WideRow
