import WideRow.Decimal.Layout
import WideRow.Text.Quoted
import WideRow.Value.Basic

/-!
# Values as text

Two text forms. `Value.debug` names the kind and shows everything inside it, so that different
values look different in an error or a log. `Value.display` is the short form used in cache
keys and in statements shown with their values: the bare text of scalars and collections, and
the full form of the kinds that have no bare one.
-/

namespace WideRow

namespace Shown

/-- Items in brackets. -/
def bracketed (items : List String) : String := "[" ++ String.intercalate ", " items ++ "]"

/-- Named parts in braces. -/
def braced (parts : List (String × String)) : String :=
  "\x7b " ++ String.intercalate ", " (parts.map fun p => p.1 ++ ": " ++ p.2) ++ " \x7d"

/-- A name with its arguments. -/
def applied (name : String) (arguments : List String) : String :=
  name ++ "(" ++ String.intercalate ", " arguments ++ ")"

/-- Bytes in brackets. -/
def bytes (bs : List UInt8) : String := bracketed (bs.map fun b => toString b.toNat)

/-- The full form of a 32-bit number. -/
def singleText (bits : UInt32) : String := Decimal.exact.write Decimal.single bits.toNat

/-- The full form of a 64-bit number. -/
def doubleText (bits : UInt64) : String := Decimal.exact.write Decimal.double bits.toNat

end Shown

open Shown in
mutual

/-- The full form of a value. -/
def Value.debug : Value → String
  | .ascii s => applied "Ascii" [Text.quoted s]
  | .text s => applied "Text" [Text.quoted s]
  | .boolean b => applied "Boolean" [toString b]
  | .tinyint n => applied "TinyInt" [toString n.toInt]
  | .smallint n => applied "SmallInt" [toString n.toInt]
  | .int n => applied "Int" [toString n.toInt]
  | .bigint n => applied "BigInt" [toString n.toInt]
  | .counter n => applied "Counter" [applied "Counter" [toString n.toInt]]
  | .float x => applied "Float" [singleText x]
  | .double x => applied "Double" [doubleText x]
  | .uuid u => applied "Uuid" [u.text]
  | .timeuuid u => applied "Timeuuid" [applied "CqlTimeuuid" [u.text]]
  | .blob bs => applied "Blob" [bytes bs]
  | .varint bs => applied "Varint" [applied "CqlVarint" [bytes bs]]
  | .decimal bs scale =>
    applied "Decimal" ["CqlDecimal " ++
      braced [("int_val", applied "CqlVarint" [bytes bs]), ("scale", toString scale.toInt)]]
  | .date n => applied "Date" [applied "CqlDate" [toString n.toNat]]
  | .time n => applied "Time" [applied "CqlTime" [toString n.toInt]]
  | .timestamp n => applied "Timestamp" [applied "CqlTimestamp" [toString n.toInt]]
  | .duration months days nanoseconds =>
    applied "Duration" ["CqlDuration " ++
      braced [("months", toString months.toInt), ("days", toString days.toInt),
        ("nanoseconds", toString nanoseconds.toInt)]]
  | .inet a => applied "Inet" [a.text]
  | .empty => "Empty"
  | .list items => applied "List" [bracketed (debugItems items)]
  | .set items => applied "Set" [bracketed (debugItems items)]
  | .vector items => applied "Vector" [bracketed (debugItems items)]
  | .map entries => applied "Map" [bracketed (debugEntries entries)]
  | .tuple items => applied "Tuple" [bracketed (debugCells items)]
  | .record keyspace name fields =>
    "UserDefinedType " ++ braced [("keyspace", Text.quoted keyspace), ("name", Text.quoted name),
      ("fields", bracketed (debugFields fields))]

/-- The full forms of items. -/
def Value.debugItems : List Value → List String
  | [] => []
  | v :: vs => v.debug :: debugItems vs

/-- The full forms of map entries. -/
def Value.debugEntries : List (Value × Value) → List String
  | [] => []
  | (k, v) :: es => applied "" [k.debug, v.debug] :: debugEntries es

/-- The full forms of optional values. -/
def Value.debugCells : List (Option Value) → List String
  | [] => []
  | none :: cs => "None" :: debugCells cs
  | some v :: cs => applied "Some" [v.debug] :: debugCells cs

/-- The full forms of named fields. -/
def Value.debugFields : List (String × Option Value) → List String
  | [] => []
  | (n, none) :: fs => applied "" [Text.quoted n, "None"] :: debugFields fs
  | (n, some v) :: fs => applied "" [Text.quoted n, applied "Some" [v.debug]] :: debugFields fs

end

mutual

/-- The short form of a value. -/
def Value.display : Value → String
  | .ascii s => s
  | .text s => s
  | .boolean b => toString b
  | .tinyint n => toString n.toInt
  | .smallint n => toString n.toInt
  | .int n => toString n.toInt
  | .bigint n => toString n.toInt
  | .counter n => toString n.toInt
  | .float x => Decimal.plain.write Decimal.single x.toNat
  | .double x => Decimal.plain.write Decimal.double x.toNat
  | .uuid u => u.text
  | .list items => "[" ++ String.intercalate "," (displayItems items) ++ "]"
  | .set items => "[" ++ String.intercalate "," (displayItems items) ++ "]"
  | v => v.debug

/-- The short forms of items. -/
def Value.displayItems : List Value → List String
  | [] => []
  | v :: vs => v.display :: displayItems vs

end

end WideRow
