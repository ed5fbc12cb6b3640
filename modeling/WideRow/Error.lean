import WideRow.Value.Codec

/-!
# Errors

Every way in which an operation can fail, by its cause; `Error.message` holds all the wording.
Errors of the kinds `mapping` and `invalidArgument` are found while a statement is put
together, before anything is sent. `Pending` remembers the first of them.
-/

namespace WideRow

/-- What is wrong with the tables and columns that a statement names. -/
inductive MappingFault where
  /-- A fault reported in words, by the database or by the caller. -/
  | reported (text : String)
  | unresolvedProperty (property entity : String)
  | unknownOperator (symbol : String)
  | notClustering (node : String)
  | foreignCondition (node entity : String)
  | foreignColumn (node entity : String)
  | unresolvedProjection
  /-- Columns of two entities; `action` says what was to be done with them. -/
  | severalEntities (action first second : String)
  /-- Nothing says which table is meant; `action` says what was to be done. -/
  | noEntity (action : String)
  | noAssignments (entity : String)
  | noInsertedColumns
  | conflictingConditions
  | closedUnit (unit : String) (committed : Bool)
  deriving DecidableEq

/-- The text of a fault. -/
def MappingFault.message : MappingFault → String
  | reported text => text
  | unresolvedProperty property entity => s!"unresolved getter {property} on entity {entity}"
  | unknownOperator symbol => s!"invalid operator {symbol}"
  | notClustering node => s!"property must be a clustering column {node}"
  | foreignCondition node entity => s!"filter on {node} does not belong to entity {entity}"
  | foreignColumn node entity => s!"cannot map {node} to entity {entity}"
  | unresolvedProjection => "projection did not resolve"
  | severalEntities action first second =>
    s!"you can {action} a single entity {first} or {second}"
  | noEntity action => s!"no entity or table to {action} data"
  | noAssignments entity => s!"no columns to update in entity {entity}"
  | noInsertedColumns => "no columns to insert"
  | conflictingConditions => "only_if and if_exists cannot be combined"
  | closedUnit unit committed =>
    s!"unit of work {unit} already " ++ if committed then "committed" else "aborted"

/-- What is wrong with a value that a statement is given. -/
inductive ArgumentFault where
  /-- A fault reported in words, by the database or by the caller. -/
  | reported (text : String)
  | listRequired
  | membershipNotCreated
  | listRefused (symbol : String)
  | empty
  | invalid (source : ValueError)
  | noValues
  | emptyAt (index : Nat)
  | invalidAt (index : Nat) (source : ValueError)
  | emptyCondition (node : String)
  | emptyFor (node : String)
  | invalidFor (node : String) (source : ValueError)

/-- The text of a fault. -/
def ArgumentFault.message : ArgumentFault → String
  | reported text => text
  | listRequired => "IN operator requires a list of values"
  | membershipNotCreated => "use Filter::is_in for the IN operator"
  | listRefused symbol => "operator '" ++ symbol ++ "' does not accept a list of values"
  | empty => "value is empty"
  | invalid source => s!"value is invalid: {source.message}"
  | noValues => "values is empty"
  | emptyAt index => s!"value[{index}] is empty"
  | invalidAt index source => s!"value[{index}] is invalid: {source.message}"
  | emptyCondition node => s!"value of {node} is empty"
  | emptyFor node => s!"value for {node} is empty"
  | invalidFor node source => s!"value for {node} is invalid: {source.message}"

/-- What is wrong with the environment that a program is configured from. -/
inductive ConfigError where
  | missing (key : String)
  | unreadable (key details : String)
  deriving DecidableEq

/-- The name of an error's kind. -/
def ConfigError.kind : ConfigError → String
  | missing _ => "MissingEnvVar"
  | unreadable .. => "ParseError"

/-- The text of an error. -/
def ConfigError.message : ConfigError → String
  | missing key => "Environment variable '" ++ key ++ "' is required but not set"
  | unreadable key details =>
    "Failed to parse environment variable '" ++ key ++ "': " ++ details

/-- Why an operation failed. -/
inductive Error where
  | mapping (fault : MappingFault)
  | invalidArgument (fault : ArgumentFault)
  /-- The result is not what the operation expects. -/
  | result (text : String)
  | conversion (column : String) (source : ValueError)
  /-- The database could not be reached, or refused the statement. -/
  | driver (text : String)
  | config (cause : ConfigError)
  /-- A task that ran apart from its caller broke off. -/
  | taskFailed
  /-- The operation broke off: a row has fewer values than columns and one of the missing
  values was read, a mapper gave up, or a sum did not fit the width of its kind of number. -/
  | brokenOff

namespace Error

/-- The name of an error's kind. -/
def kind : Error → String
  | mapping _ => "Mapping"
  | invalidArgument _ => "InvalidArgument"
  | result _ => "Result"
  | conversion .. => "Conversion"
  | driver _ => "Driver"
  | config _ => "Config"
  | taskFailed => "Task"
  | brokenOff => "BrokenOff"

/-- The text of an error. -/
def message : Error → String
  | mapping fault => s!"Mapping error: {fault.message}"
  | invalidArgument fault => s!"Invalid argument: {fault.message}"
  | result text => s!"Result error: {text}"
  | conversion column source =>
    "Cannot convert column '" ++ column ++ "': " ++ source.message
  | driver text => s!"Driver error: {text}"
  | config cause => cause.message
  | taskFailed => "Operation task failed"
  | brokenOff => "Operation broke off"

/-- Whether the error is found while a statement is put together. -/
def isConstruction : Error → Bool
  | mapping _ | invalidArgument _ => true
  | _ => false

end Error

/-- The first error of a statement that is being put together. -/
structure Pending where
  first : Option Error := none

namespace Pending

/-- An error in the form in which it is kept: errors of construction as they are, any other
as a mapping error with its text. -/
def kept : Error → Error
  | .mapping fault => .mapping fault
  | .invalidArgument fault => .invalidArgument fault
  | e => .mapping (.reported e.message)

/-- Keeps an error unless there is one already. -/
def record (p : Pending) (e : Error) : Pending := ⟨p.first.or (some (kept e))⟩

/-- Fails with the error that was kept. -/
def check (p : Pending) : Except Error Unit :=
  match p.first with
  | none => .ok ()
  | some e => .error e

end Pending

end WideRow
