import WideRow.Operator
import WideRow.Schema.Mapping
import WideRow.Statement.Basic

/-!
# Filters

A `Postulate` is what a filter asks of a column: a comparison with one value, or membership in
a list of values. Making one checks that every value has a cell, so that a postulate always
becomes a clause. A `Filter` is a postulate on a column.
-/

namespace WideRow

/-- A comparison with one value or with a list of values. -/
inductive Postulate (t : ColumnType) where
  | single (operator : Operator) (value : t.Carrier)
  | many (values : List t.Carrier)

namespace Postulate

variable {t : ColumnType}

/-- The operator. -/
def operator : Postulate t → Operator
  | single op _ => op
  | many _ => .isIn

/-- A comparison with one value, which must have a cell other than null. -/
def of (op : Operator) (v : t.Carrier) : Except Error (Postulate t) :=
  if op = .isIn then .error (.invalidArgument .listRequired)
  else
    match t.encode v with
    | .ok (some _) => .ok (single op v)
    | .ok none => .error (.invalidArgument .empty)
    | .error e => .error (.invalidArgument (.invalid e))

/-- The fault of the first value without a cell, the values numbered from `index` on. -/
def faultOfMany? : Nat → List t.Carrier → Option ArgumentFault
  | _, [] => none
  | index, v :: vs =>
    match t.encode v with
    | .ok (some _) => faultOfMany? (index + 1) vs
    | .ok none => some (.emptyAt index)
    | .error e => some (.invalidAt index e)

/-- Membership in a list of values, each of which must have a cell other than null. -/
def ofMany (op : Operator) (vs : List t.Carrier) : Except Error (Postulate t) :=
  if op ≠ .isIn then .error (.invalidArgument (.listRefused op.symbol))
  else if vs.isEmpty then .error (.invalidArgument .noValues)
  else
    match faultOfMany? 0 vs with
    | some fault => .error (.invalidArgument fault)
    | none => .ok (many vs)

/-- The value that a statement binds for a column. -/
def bound (n : Node) (prepare : ValuePreparer) (v : t.Carrier) : Except Error Value :=
  match t.cell v with
  | some c => .ok (prepare n c)
  | none => .error (.invalidArgument (.emptyCondition n.text))

/-- The clause that asks the postulate of a column. -/
def clause (p : Postulate t) (n : Node) (prepare : ValuePreparer) : Except Error Clause :=
  match p with
  | single op v => do return ⟨n.column.cql, op, [← bound n prepare v]⟩
  | many vs => do return ⟨n.column.cql, .isIn, ← vs.mapM (bound n prepare)⟩

end Postulate

/-- A postulate on a column. -/
structure Filter where
  node : Node
  type : ColumnType
  postulate : Postulate type

namespace Filter

/-- A filter with a postulate that was made before. -/
def ofPostulate {t : ColumnType} (g : Getter t) (p : Postulate t) : Except Error Filter := do
  return ⟨← g.resolve, t, p⟩

/-- A comparison of a property with one value. -/
def create {t : ColumnType} (g : Getter t) (op : Operator) (v : t.Carrier) :
    Except Error Filter :=
  if op = .isIn then .error (.invalidArgument .membershipNotCreated)
  else do ofPostulate g (← Postulate.of op v)

/-- A comparison by the operator's symbol. -/
def parse {t : ColumnType} (g : Getter t) (symbol : String) (v : t.Carrier) :
    Except Error Filter :=
  match Operator.ofSymbol? symbol with
  | none => .error (.mapping (.unknownOperator symbol))
  | some op => create g op v

/-- Membership of a property in a list of values. -/
def isIn {t : ColumnType} (g : Getter t) (vs : List t.Carrier) : Except Error Filter := do
  let n ← g.resolve
  return ⟨n, t, ← Postulate.ofMany .isIn vs⟩

/-- The operator. -/
def operator (f : Filter) : Operator := f.postulate.operator

/-- The filter as a clause. -/
def clause (f : Filter) (prepare : ValuePreparer) : Except Error Clause :=
  f.postulate.clause f.node prepare

/-- The value an equality asks for. -/
def equality? (f : Filter) (prepare : ValuePreparer) : Option Value :=
  match f.postulate with
  | .single .eq v => (f.type.cell v).map (prepare f.node)
  | _ => none

/-- The filter in words, for logs. -/
def debug (f : Filter) : String :=
  match f.postulate with
  | .single op v => f.node.text ++ " " ++ op.symbol ++ " " ++ f.type.debug v
  | .many vs => f.node.text ++ " in " ++ Shown.bracketed (vs.map f.type.debug)

end Filter

/-! ## Order of rows -/

/-- An entry of a statement's order; only clustering columns have one. -/
structure Ordered where
  node : Node
  direction : Direction

namespace Ordered

/-- Orders by a property. -/
def create (e : Entity) (property : String) (d : Direction) : Except Error Ordered := do
  let n ← e.node property
  if n.property.role = .clusteringColumn then return ⟨n, d⟩
  else .error (.mapping (.notClustering n.text))

/-- The entry as it stands in a statement. -/
def ordering (o : Ordered) : Ordering := ⟨o.node.column.cql, o.direction⟩

end Ordered

end WideRow
