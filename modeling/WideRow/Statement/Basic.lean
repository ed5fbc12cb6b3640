import WideRow.Operator
import WideRow.Schema.Entity

/-!
# Statements

The statements that are sent to the database, as data: what is read or written, on which rows
and on what condition. Columns and tables stand here as they are written in the statement.
Values are not part of a statement's text; they are bound to markers in it, in order, see
`WideRow.Statement.Cql`.
-/

namespace WideRow

/-- A comparison of a column with bound values. -/
structure Clause where
  column : String
  operator : Operator
  values : List Value

/-- An entry of a statement's order. -/
structure Ordering where
  column : String
  direction : Direction

/-- What a reading statement asks for. -/
inductive Selection where
  | columns (names : List String)
  | count

/-- Reads rows, or counts them. -/
structure Select where
  table : String
  selection : Selection
  filters : List Clause := []
  orderings : List Ordering := []
  limit : Option Int32 := none
  allowsFiltering : Bool := false

/-- A change to one column. -/
inductive Assignment where
  | set (column : String) (value : Cell)
  | increment (column : String) (delta : Int64)
  | decrement (column : String) (delta : Int64)
  | append (column : String) (value : Value)
  | prepend (column : String) (value : Value)
  | add (column : String) (value : Value)
  | remove (column : String) (value : Value)

namespace Assignment

/-- Whether making the change twice comes to the same as making it once. -/
def isIdempotent : Assignment → Bool
  | increment .. | decrement .. | append .. | prepend .. => false
  | set .. | add .. | remove .. => true

/-- The column that is changed. -/
def column : Assignment → String
  | set c _ | increment c _ | decrement c _ | append c _ | prepend c _ | add c _ | remove c _ => c

end Assignment

/-- How long what is written lives, in seconds, and when it counts as written, in
microseconds. -/
structure Using where
  ttl : Option Int32 := none
  timestamp : Option Int64 := none

/-- The condition on which a write is carried out. -/
inductive Conditional where
  | always
  | ifExists
  | ifAll (clauses : List Clause)

namespace Conditional

/-- Adds a clause; clauses replace the bare condition that the row exists. -/
def add : Conditional → Clause → Conditional
  | ifAll clauses, c => ifAll (clauses ++ [c])
  | _, c => ifAll [c]

/-- Whether the write is carried out in any case. -/
def isAlways : Conditional → Bool
  | always => true
  | _ => false

end Conditional

/-- Changes columns of rows. -/
structure Update where
  table : String
  using_ : Using := {}
  assignments : List Assignment := []
  filters : List Clause := []
  conditional : Conditional := .always

/-- Writes a row. -/
structure Insert where
  table : String
  values : List (String × Cell) := []
  using_ : Using := {}
  ifNotExists : Bool := false

/-- Removes rows. -/
structure Delete where
  table : String
  using_ : Using := {}
  filters : List Clause := []
  conditional : Conditional := .always

/-- A statement. -/
inductive Statement where
  | select (s : Select)
  | update (s : Update)
  | insert (s : Insert)
  | delete (s : Delete)
  /-- Removes all rows of a table. -/
  | truncate (table : String)
  /-- A statement in words, without values. -/
  | text (cql : String) (isIdempotent : Bool)

/-! ## Making a statement -/

namespace Statement

/-- Adds a comparison that the rows must satisfy. -/
def where_ (st : Statement) (c : Clause) : Statement :=
  match st with
  | select s => .select { s with filters := s.filters ++ [c] }
  | update s => .update { s with filters := s.filters ++ [c] }
  | delete s => .delete { s with filters := s.filters ++ [c] }
  | st => st

/-- Adds a comparison without which a write is not carried out. -/
def onlyIf (st : Statement) (c : Clause) : Statement :=
  match st with
  | update s => .update { s with conditional := s.conditional.add c }
  | delete s => .delete { s with conditional := s.conditional.add c }
  | st => st

/-- Writes only where there is a row. -/
def ifExists : Statement → Statement
  | update s => .update { s with conditional := .ifExists }
  | delete s => .delete { s with conditional := .ifExists }
  | st => st

/-- Writes only where there is no row. -/
def ifNotExists : Statement → Statement
  | insert s => .insert { s with ifNotExists := true }
  | st => st

/-- Orders the rows by one more column. -/
def orderBy (st : Statement) (column : String) (direction : Direction) : Statement :=
  match st with
  | select s => .select { s with orderings := s.orderings ++ [⟨column, direction⟩] }
  | st => st

/-- Reads at most this many rows. -/
def limited (st : Statement) (n : Int32) : Statement :=
  match st with
  | select s => .select { s with limit := some n }
  | st => st

/-- Lets the database look at rows that the filters do not select by key. -/
def allowFiltering : Statement → Statement
  | select s => .select { s with allowsFiltering := true }
  | st => st

/-- Adds a change to a column. -/
def assign (st : Statement) (a : Assignment) : Statement :=
  match st with
  | update s => .update { s with assignments := s.assignments ++ [a] }
  | st => st

/-- Adds a column to be written. -/
def value (st : Statement) (column : String) (c : Cell) : Statement :=
  match st with
  | insert s => .insert { s with values := s.values ++ [(column, c)] }
  | st => st

/-- Lets what is written live for so many seconds. -/
def withTtl (st : Statement) (seconds : Int32) : Statement :=
  match st with
  | update s => .update { s with using_ := { s.using_ with ttl := some seconds } }
  | insert s => .insert { s with using_ := { s.using_ with ttl := some seconds } }
  | st => st

/-- Says when a write counts as made, in microseconds. -/
def withTimestamp (st : Statement) (micros : Int64) : Statement :=
  match st with
  | update s => .update { s with using_ := { s.using_ with timestamp := some micros } }
  | insert s => .insert { s with using_ := { s.using_ with timestamp := some micros } }
  | delete s => .delete { s with using_ := { s.using_ with timestamp := some micros } }
  | st => st

end Statement

end WideRow
