/-!
# Comparison operators

The six comparisons of a condition, with the symbol a program writes and the word a statement
carries.
-/

namespace WideRow

/-- A comparison between a column and a value, or between a column and a list of values. -/
inductive Operator where
  | eq
  | isIn
  | lt
  | lte
  | gt
  | gte
  deriving DecidableEq

namespace Operator

/-- Every operator, in the order of declaration. -/
def all : List Operator := [eq, isIn, lt, lte, gt, gte]

/-- The name of an operator. -/
def name : Operator → String
  | eq => "Eq"
  | isIn => "In"
  | lt => "Lt"
  | lte => "Lte"
  | gt => "Gt"
  | gte => "Gte"

/-- The symbol a program writes. -/
def symbol : Operator → String
  | eq => "=="
  | isIn => "in"
  | lt => "<"
  | lte => "<="
  | gt => ">"
  | gte => ">="

/-- The operator of a symbol. -/
def ofSymbol? (s : String) : Option Operator := all.find? fun op => op.symbol == s

/-- The word in a statement. -/
def cql : Operator → String
  | eq => "="
  | isIn => "IN"
  | lt => "<"
  | lte => "<="
  | gt => ">"
  | gte => ">="

end Operator

end WideRow
