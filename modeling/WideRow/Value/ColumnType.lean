import WideRow.Value.OrderedSet
import WideRow.Value.Shown

/-!
# Typed columns

A `ColumnType` says which values a program reads from a column and writes to it. Its values
are those of `ColumnType.Carrier`; each carrier comes with the order in which a set keeps its
elements.
-/

namespace WideRow

/-- The type of a column as the program sees it. -/
inductive ColumnType where
  | boolean
  | tinyint
  | smallint
  | int
  | bigint
  | float
  | double
  | uuid
  | text
  /-- Any value, taken as it is. -/
  | value
  | option (t : ColumnType)
  | list (t : ColumnType)
  | set (t : ColumnType)
  deriving DecidableEq, Inhabited

/-- A type of values with a total order. -/
structure Domain where
  carrier : Type
  [ord : Ord carrier]
  [trans : Std.TransOrd carrier]

instance (d : Domain) : Ord d.carrier := d.ord
instance (d : Domain) : Std.TransOrd d.carrier := d.trans

/-- Identifiers are ordered by their bytes. -/
instance : Ord Uuid := ⟨fun a b => compare a.bits b.bits⟩

instance : Std.TransOrd Uuid where
  eq_swap := fun {a b} => Std.OrientedOrd.eq_swap (a := a.bits) (b := b.bits)
  isLE_trans := fun {a b c} =>
    Std.TransOrd.isLE_trans (a := a.bits) (b := b.bits) (c := c.bits)

/-- Raw values have no order: a set of them is not a type that programs use, see
`ColumnType.isOrdered`. -/
instance : Ord Value := ⟨fun _ _ => .eq⟩

instance : Std.TransOrd Value where
  eq_swap := rfl
  isLE_trans := fun _ _ => rfl

namespace ColumnType

/-- The values of a type, in their order. -/
def domain : ColumnType → Domain
  | .boolean => ⟨Bool⟩
  | .tinyint => ⟨Int8⟩
  | .smallint => ⟨Int16⟩
  | .int => ⟨Int32⟩
  | .bigint => ⟨Int64⟩
  | .float => ⟨UInt32⟩
  | .double => ⟨UInt64⟩
  | .uuid => ⟨Uuid⟩
  | .text => ⟨String⟩
  | .value => ⟨Value⟩
  | .option t => ⟨Option t.domain.carrier⟩
  | .list t => ⟨List t.domain.carrier⟩
  | .set t => ⟨OrderedSet t.domain.carrier⟩

/-- The values of a type. -/
abbrev Carrier (t : ColumnType) : Type := t.domain.carrier

/-- The name of a type. -/
def name : ColumnType → String
  | .boolean => "boolean"
  | .tinyint => "tinyint"
  | .smallint => "smallint"
  | .int => "int"
  | .bigint => "bigint"
  | .float => "float"
  | .double => "double"
  | .uuid => "uuid"
  | .text => "text"
  | .value => "cql"
  | .option t => "option<" ++ t.name ++ ">"
  | .list t => "list<" ++ t.name ++ ">"
  | .set t => "set<" ++ t.name ++ ">"

/-- The types without parameters. -/
def simple : List ColumnType :=
  [.boolean, .tinyint, .smallint, .int, .bigint, .float, .double, .uuid, .text, .value]

/-- Reads a name, taking off one bracket at every turn. What does not belong there is passed
over. -/
def ofChars? : (depth : Nat) → List Char → Option ColumnType
  | 0, _ => none
  | depth + 1, cs =>
    let inner := ofChars? depth ((cs.dropWhile (· != '<')).drop 1).dropLast
    match String.ofList (cs.takeWhile (· != '<')) with
    | "option" => inner.map .option
    | "list" => inner.map .list
    | "set" => inner.map .set
    | s => simple.find? fun t => t.name == s

/-- The type with a name. -/
def ofName? (s : String) : Option ColumnType :=
  (ofChars? s.length s.toList).filter fun t => t.name == s

/-- Whether the values of a type have an order of their own, so that there are sets of them. -/
def isOrdered : ColumnType → Bool
  | .float | .double | .value => false
  | .option t | .list t | .set t => t.isOrdered
  | _ => true

/-- Whether every set in a type has ordered elements. -/
def isWellFormed : ColumnType → Bool
  | .set t => t.isOrdered && t.isWellFormed
  | .option t | .list t => t.isWellFormed
  | _ => true

open Shown in
/-- The full form of a typed value: like `Value.debug`, but without the names of the kinds. -/
def debug : (t : ColumnType) → t.Carrier → String
  | .boolean, b => cond b "true" "false"
  | .tinyint, n => toString (Int8.toInt n)
  | .smallint, n => toString (Int16.toInt n)
  | .int, n => toString (Int32.toInt n)
  | .bigint, n => toString (Int64.toInt n)
  | .float, x => singleText x
  | .double, x => doubleText x
  | .uuid, u => Uuid.text u
  | .text, s => Text.quoted s
  | .value, v => Value.debug v
  | .option t, v =>
    match (v : Option t.Carrier) with
    | none => "None"
    | some x => applied "Some" [t.debug x]
  | .list t, v => bracketed (List.map t.debug (v : List t.Carrier))
  | .set t, v =>
    "\x7b" ++ String.intercalate ", " (List.map t.debug (v : OrderedSet t.Carrier).items) ++ "\x7d"

end ColumnType

/-- A value together with its type. -/
structure Typed where
  type : ColumnType
  value : type.Carrier

namespace Typed

/-- The full form of the value. -/
def debug (v : Typed) : String := v.type.debug v.value

end Typed

end WideRow
