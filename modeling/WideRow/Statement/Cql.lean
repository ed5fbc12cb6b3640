import WideRow.Statement.Basic
import WideRow.Value.Shown

/-!
# The text of a statement

A `Fragment` is a piece of statement text together with the values that its markers bind, in
the order of the markers. A statement's text is put together from fragments, so that the
markers of the whole line up with its values because those of each part do.
-/

namespace WideRow

/-- A piece of statement text and the values bound by its markers. -/
structure Fragment where
  cql : String
  values : List Cell := []

namespace Fragment

/-- Text without markers. -/
def text (s : String) : Fragment := ⟨s, []⟩

/-- One piece after the other. -/
instance : Append Fragment := ⟨fun a b => ⟨a.cql ++ b.cql, a.values ++ b.values⟩⟩

/-- Pieces with a text between each two. -/
def join (separator : String) : List Fragment → Fragment
  | [] => text ""
  | [f] => f
  | f :: fs => f ++ text separator ++ join separator fs

end Fragment

open Fragment (text)

/-- A comparison: one marker, or as many as there are values in a list. -/
def Clause.fragment (c : Clause) : Fragment :=
  let markers :=
    if c.operator = .isIn then
      "(" ++ String.intercalate ", " (c.values.map fun _ => "?") ++ ")"
    else "?"
  ⟨c.column ++ " " ++ c.operator.cql ++ " " ++ markers, c.values.map some⟩

/-- Comparisons after a keyword, all of which must hold. -/
def Clause.fragments (keyword : String) (clauses : List Clause) : Fragment :=
  if clauses.isEmpty then text ""
  else text keyword ++ Fragment.join " AND " (clauses.map Clause.fragment)

/-- A change to a column. -/
def Assignment.fragment : Assignment → Fragment
  | set c v => ⟨c ++ " = ?", [v]⟩
  | increment c n => ⟨c ++ " = " ++ c ++ " + ?", [some (.bigint n)]⟩
  | decrement c n => ⟨c ++ " = " ++ c ++ " - ?", [some (.bigint n)]⟩
  | append c v => ⟨c ++ " = " ++ c ++ " + ?", [some v]⟩
  | add c v => ⟨c ++ " = " ++ c ++ " + ?", [some v]⟩
  | prepend c v => ⟨c ++ " = ? + " ++ c, [some v]⟩
  | remove c v => ⟨c ++ " = " ++ c ++ " - ?", [some v]⟩

/-- Life time and time of writing. -/
def Using.fragment (u : Using) : Fragment :=
  let parts :=
    (u.ttl.map fun n => "TTL " ++ toString n.toInt).toList ++
      (u.timestamp.map fun n => "TIMESTAMP " ++ toString n.toInt).toList
  if parts.isEmpty then text "" else text (" USING " ++ String.intercalate " AND " parts)

/-- The condition of a write. -/
def Conditional.fragment : Conditional → Fragment
  | always => text ""
  | ifExists => text " IF EXISTS"
  | ifAll clauses => Clause.fragments " IF " clauses

/-- The order of rows. -/
def Ordering.fragment (os : List Ordering) : Fragment :=
  if os.isEmpty then text ""
  else
    text (" ORDER BY " ++
      String.intercalate ", " (os.map fun o => o.column ++ " " ++ o.direction.cql))

/-- A reading statement. -/
def Select.fragment (s : Select) : Fragment :=
  let selected := match s.selection with
    | .columns names => String.intercalate ", " names
    | .count => "count(*)"
  let limit := match s.limit with
    | some n => " LIMIT " ++ toString n.toInt
    | none => ""
  text ("SELECT " ++ selected ++ " FROM " ++ s.table) ++
    Clause.fragments " WHERE " s.filters ++
    Ordering.fragment s.orderings ++
    text limit ++
    text (if s.allowsFiltering then " ALLOW FILTERING" else "")

/-- A changing statement. -/
def Update.fragment (s : Update) : Fragment :=
  text ("UPDATE " ++ s.table) ++ s.using_.fragment ++ text " SET " ++
    Fragment.join ", " (s.assignments.map Assignment.fragment) ++
    Clause.fragments " WHERE " s.filters ++ s.conditional.fragment

/-- A writing statement. -/
def Insert.fragment (s : Insert) : Fragment :=
  ⟨"INSERT INTO " ++ s.table ++ " (" ++ String.intercalate ", " (s.values.map Prod.fst) ++
      ") VALUES (" ++ String.intercalate ", " (s.values.map fun _ => "?") ++ ")",
    s.values.map Prod.snd⟩ ++
    text (if s.ifNotExists then " IF NOT EXISTS" else "") ++ s.using_.fragment

/-- A removing statement. -/
def Delete.fragment (s : Delete) : Fragment :=
  text ("DELETE FROM " ++ s.table) ++ s.using_.fragment ++
    Clause.fragments " WHERE " s.filters ++ s.conditional.fragment

namespace Statement

/-- The text of a statement and its values. -/
def fragment : Statement → Fragment
  | select s => s.fragment
  | update s => s.fragment
  | insert s => s.fragment
  | delete s => s.fragment
  | truncate table => Fragment.text ("TRUNCATE " ++ table)
  | text cql _ => Fragment.text cql

/-- The text of a statement. -/
def cql (s : Statement) : String := s.fragment.cql

/-- The values of a statement. -/
def values (s : Statement) : List Cell := s.fragment.values

/-- Whether the statement may be sent again when it is not known whether it was carried out. -/
def isIdempotent : Statement → Bool
  | select _ => true
  | update s => s.conditional.isAlways && s.assignments.all Assignment.isIdempotent
  | insert s => !s.ifNotExists
  | delete s => s.conditional.isAlways
  | truncate _ => false
  | text _ b => b

/-- The text of a statement followed by its values, for logs. -/
def cqlWithValues (s : Statement) : String :=
  if s.values.isEmpty then s.cql
  else
    s.cql ++ " " ++ Shown.bracketed (s.values.map fun c => (c.map Value.display).getD "null")

end Statement

end WideRow
