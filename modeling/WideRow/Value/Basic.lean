import WideRow.Decimal.Shortest
import WideRow.Value.Inet
import WideRow.Value.Uuid

/-!
# Column values

`Value` is a value that a statement binds or a result row holds; an absent one, `none`, is a
null. Floating-point numbers are kept as their bits, so that a value is what was sent and not
what arithmetic makes of it.

`Value.agrees` is the equality by which a cached row is compared with the values a filter
asks for. It tells the kinds apart and follows the numbers' own equality: no NaN equals
anything, the two zeros are equal, and big integers are compared without needless zeros in
front of them.
-/

namespace WideRow

/-- A column value. -/
inductive Value where
  | ascii (text : String)
  | text (text : String)
  | boolean (b : Bool)
  | tinyint (n : Int8)
  | smallint (n : Int16)
  | int (n : Int32)
  | bigint (n : Int64)
  | counter (n : Int64)
  | float (bits : UInt32)
  | double (bits : UInt64)
  | uuid (u : Uuid)
  | timeuuid (u : Uuid)
  | blob (bytes : List UInt8)
  | varint (bytes : List UInt8)
  | decimal (unscaled : List UInt8) (scale : Int32)
  | date (days : UInt32)
  | time (nanoseconds : Int64)
  | timestamp (milliseconds : Int64)
  | duration (months days : Int32) (nanoseconds : Int64)
  | inet (address : Inet)
  | empty
  | list (items : List Value)
  | set (items : List Value)
  | vector (items : List Value)
  | map (entries : List (Value × Value))
  | tuple (items : List (Option Value))
  | record (keyspace name : String) (fields : List (String × Option Value))
  deriving Inhabited

/-- The name of a value's kind. -/
def Value.kind : Value → String
  | ascii _ => "ascii"
  | text _ => "text"
  | boolean _ => "boolean"
  | tinyint _ => "tinyint"
  | smallint _ => "smallint"
  | int _ => "int"
  | bigint _ => "bigint"
  | counter _ => "counter"
  | float _ => "float"
  | double _ => "double"
  | uuid _ => "uuid"
  | timeuuid _ => "timeuuid"
  | blob _ => "blob"
  | varint _ => "varint"
  | decimal .. => "decimal"
  | date _ => "date"
  | time _ => "time"
  | timestamp _ => "timestamp"
  | duration .. => "duration"
  | inet _ => "inet"
  | empty => "empty"
  | list _ => "list"
  | set _ => "set"
  | vector _ => "vector"
  | map _ => "map"
  | tuple _ => "tuple"
  | record .. => "udt"

/-- A value or null. -/
abbrev Cell := Option Value

/-- Equality of floating-point numbers by their bits. -/
def Decimal.BinaryFormat.sameNumber (f : Decimal.BinaryFormat) (a b : Nat) : Bool :=
  match f.decode a, f.decode b with
  | .nan, _ => false
  | _, .nan => false
  | .finite _ 0 _ _, .finite _ 0 _ _ => true
  | _, _ => a == b

/-- The bytes of a big integer, in big-endian two's complement, without the zeros in front that
its sign does not need; no bytes are a zero. Only zeros are left out: the bytes of 255 that may
fill up a negative number in front are part of its form. -/
def shortestForm : List UInt8 → List UInt8
  | [] => [0]
  | [b] => [b]
  | a :: b :: bytes => if a == 0 && b < 128 then shortestForm (b :: bytes) else a :: b :: bytes

mutual

/-- Equality of values, kind by kind. -/
def Value.agrees : Value → Value → Bool
  | .ascii a, .ascii b => a == b
  | .text a, .text b => a == b
  | .boolean a, .boolean b => a == b
  | .tinyint a, .tinyint b => a == b
  | .smallint a, .smallint b => a == b
  | .int a, .int b => a == b
  | .bigint a, .bigint b => a == b
  | .counter a, .counter b => a == b
  | .float a, .float b => Decimal.single.sameNumber a.toNat b.toNat
  | .double a, .double b => Decimal.double.sameNumber a.toNat b.toNat
  | .uuid a, .uuid b => a == b
  | .timeuuid a, .timeuuid b => a.withoutVersion == b.withoutVersion
  | .blob a, .blob b => a == b
  | .varint a, .varint b => shortestForm a == shortestForm b
  | .decimal a s, .decimal b t => shortestForm a == shortestForm b && s == t
  | .date a, .date b => a == b
  | .time a, .time b => a == b
  | .timestamp a, .timestamp b => a == b
  | .duration a b c, .duration d e f => a == d && b == e && c == f
  | .inet a, .inet b => a == b
  | .empty, .empty => true
  | .list a, .list b => agreesItems a b
  | .set a, .set b => agreesItems a b
  | .vector a, .vector b => agreesItems a b
  | .map a, .map b => agreesEntries a b
  | .tuple a, .tuple b => agreesCells a b
  | .record k n a, .record l m b => k == l && n == m && agreesFields a b
  | _, _ => false

/-- Equality of items in their order. -/
def Value.agreesItems : List Value → List Value → Bool
  | [], [] => true
  | a :: as, b :: bs => Value.agrees a b && agreesItems as bs
  | _, _ => false

/-- Equality of map entries in their order. -/
def Value.agreesEntries : List (Value × Value) → List (Value × Value) → Bool
  | [], [] => true
  | (a, x) :: as, (b, y) :: bs => Value.agrees a b && Value.agrees x y && agreesEntries as bs
  | _, _ => false

/-- Equality of optional values in their order. -/
def Value.agreesCells : List (Option Value) → List (Option Value) → Bool
  | [], [] => true
  | none :: as, none :: bs => agreesCells as bs
  | some a :: as, some b :: bs => Value.agrees a b && agreesCells as bs
  | _, _ => false

/-- Equality of named fields in their order. -/
def Value.agreesFields :
    List (String × Option Value) → List (String × Option Value) → Bool
  | [], [] => true
  | (m, none) :: as, (n, none) :: bs => m == n && agreesFields as bs
  | (m, some a) :: as, (n, some b) :: bs => m == n && Value.agrees a b && agreesFields as bs
  | _, _ => false

end

/-- Equality of cells: nulls are equal. -/
def Cell.agrees : Cell → Cell → Bool
  | none, none => true
  | some a, some b => a.agrees b
  | _, _ => false

end WideRow
