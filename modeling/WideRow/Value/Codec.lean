import WideRow.Value.ColumnType

/-!
# Typed values in statements and rows

`encode` turns a typed value into the cell that a statement binds, and `decode` reads a cell of
a row back. A collection with a null element has no cell; `encode` says which element is at
fault, while `cell` gives such a collection the null. Reading is lenient where the database is:
an empty collection comes back as null, and lists and sets are read for one another.
-/

namespace WideRow

/-- The two kinds of collections. -/
inductive Collection where
  | list
  | set
  deriving DecidableEq

/-- The name of a kind of collections. -/
def Collection.name : Collection → String
  | .list => "list"
  | .set => "set"

/-- The value of a collection with these items. -/
def Collection.value : Collection → List Value → Value
  | .list => .list
  | .set => .set

/-- Why a value cannot cross between the program and a cell. -/
inductive ValueError where
  /-- The row has no such column. -/
  | missing
  /-- A null where a value of the named type is expected. -/
  | null (expected : String)
  /-- A value of another kind. -/
  | mismatch (expected : String) (found : Value)
  /-- A collection holds a null. -/
  | nullElement (collection : Collection) (index : Nat)

/-- The name of an error's kind. -/
def ValueError.kind : ValueError → String
  | .missing => "Missing"
  | .null _ => "Null"
  | .mismatch .. => "Mismatch"
  | .nullElement .. => "NullElement"

/-- The text of an error. -/
def ValueError.message : ValueError → String
  | .missing => "column not present in row"
  | .null expected => s!"expected {expected}, found null"
  | .mismatch expected found => s!"expected {expected}, found {found.debug}"
  | .nullElement collection index => s!"{collection.name} element [{index}] is null"

namespace ColumnType

/-- The values of a collection's elements, numbered from `index` on; the first element without
a value is the error. -/
def elements (collection : Collection) :
    Nat → List (Except ValueError Cell) → Except ValueError (List Value)
  | _, [] => .ok []
  | _, .error e :: _ => .error e
  | index, .ok none :: _ => .error (.nullElement collection index)
  | index, .ok (some v) :: rest => (elements collection (index + 1) rest).map (v :: ·)

/-- The cell of a typed value, or why it has none. -/
def encode : (t : ColumnType) → t.Carrier → Except ValueError Cell
  | .boolean, b => .ok (some (.boolean b))
  | .tinyint, n => .ok (some (.tinyint n))
  | .smallint, n => .ok (some (.smallint n))
  | .int, n => .ok (some (.int n))
  | .bigint, n => .ok (some (.bigint n))
  | .float, x => .ok (some (.float x))
  | .double, x => .ok (some (.double x))
  | .uuid, u => .ok (some (.uuid u))
  | .text, s => .ok (some (.text s))
  | .value, v => .ok (some v)
  | .option t, v =>
    match (v : Option t.Carrier) with
    | none => .ok none
    | some x => t.encode x
  | .list t, v =>
    (elements .list 0 (List.map t.encode (v : List t.Carrier))).map (some ∘ Value.list)
  | .set t, v =>
    (elements .set 0 (List.map t.encode (v : OrderedSet t.Carrier).items)).map
      (some ∘ Value.set)

/-- The cell of a typed value, null where it has none. -/
def cell : (t : ColumnType) → t.Carrier → Cell
  | .boolean, b => some (.boolean b)
  | .tinyint, n => some (.tinyint n)
  | .smallint, n => some (.smallint n)
  | .int, n => some (.int n)
  | .bigint, n => some (.bigint n)
  | .float, x => some (.float x)
  | .double, x => some (.double x)
  | .uuid, u => some (.uuid u)
  | .text, s => some (.text s)
  | .value, v => some v
  | .option t, v => Option.bind (v : Option t.Carrier) t.cell
  | .list t, v => (encode (.list t) v).toOption.join
  | .set t, v => (encode (.set t) v).toOption.join

/-- The error of a cell that is not of the expected type. -/
def unexpected (expected : String) : Cell → ValueError
  | none => .null expected
  | some found => .mismatch expected found

/-- Reads a cell. -/
def decode : (t : ColumnType) → Cell → Except ValueError t.Carrier
  | .boolean, c =>
    match c with
    | some (.boolean b) => .ok b
    | c => .error (unexpected "boolean" c)
  | .tinyint, c =>
    match c with
    | some (.tinyint n) => .ok n
    | c => .error (unexpected "tinyint" c)
  | .smallint, c =>
    match c with
    | some (.smallint n) => .ok n
    | c => .error (unexpected "smallint" c)
  | .int, c =>
    match c with
    | some (.int n) => .ok n
    | c => .error (unexpected "int" c)
  | .bigint, c =>
    match c with
    | some (.bigint n) => .ok n
    | some (.counter n) => .ok n
    | c => .error (unexpected "bigint" c)
  | .float, c =>
    match c with
    | some (.float x) => .ok x
    | c => .error (unexpected "float" c)
  | .double, c =>
    match c with
    | some (.double x) => .ok x
    | c => .error (unexpected "double" c)
  | .uuid, c =>
    match c with
    | some (.uuid u) => .ok u
    | c => .error (unexpected "uuid" c)
  | .text, c =>
    match c with
    | some (.text s) => .ok s
    | some (.ascii s) => .ok s
    | c => .error (unexpected "text" c)
  | .value, c =>
    match c with
    | some v => .ok v
    | none => .error (.null "value")
  | .option t, c =>
    match c with
    | none => .ok (none : Option t.Carrier)
    | some v => (t.decode (some v)).map some
  | .list t, c =>
    match c with
    | none => .ok ([] : List t.Carrier)
    | some (.list items) => items.mapM fun v => t.decode (some v)
    | some (.set items) => items.mapM fun v => t.decode (some v)
    | c => .error (unexpected "list" c)
  | .set t, c =>
    match c with
    | none => .ok (OrderedSet.ofList ([] : List t.Carrier))
    | some (.set items) => (items.mapM fun v => t.decode (some v)).map OrderedSet.ofList
    | some (.list items) => (items.mapM fun v => t.decode (some v)).map OrderedSet.ofList
    | c => .error (unexpected "set" c)

end ColumnType

namespace Typed

/-- The cell of the value, or why it has none. -/
def encode (v : Typed) : Except ValueError Cell := v.type.encode v.value

/-- The cell of the value, null where it has none. -/
def cell (v : Typed) : Cell := v.type.cell v.value

end Typed

end WideRow
