import WideRow.Cache.Policy
import WideRow.Config.Session
import WideRow.Metrics
import WideRow.Statement.Cql
import WideRow.Schema.Mapping
import WideRow.UnitOfWork

/-!
# Sessions

A `Session` says what does not change while a program talks to a database: the executor that
answers statements, the change made to values before they are bound, and the configuration.
Everything that does change is one record, `Session.State`. An operation is a function of a
session, a unit of work to run in, if any, and a state; it returns its result, or why it
failed, together with the state it left behind. A failed operation also leaves a state: what
was counted, logged and cached before it failed stays.

The executor is a parameter with a state of its own, so the same run can be answered by a
script of responses or by a table in memory.
-/

namespace WideRow

/-- How many replicas must answer. -/
inductive Consistency where
  | one
  | quorum
  | all
  | localQuorum
  | serial
  deriving DecidableEq

/-- The name of a consistency. -/
def Consistency.name : Consistency → String
  | one => "One"
  | quorum => "Quorum"
  | all => "All"
  | localQuorum => "LocalQuorum"
  | serial => "Serial"

/-- How a statement is to be executed. -/
structure ExecutionOptions where
  timeout : Option Duration := none
  isTraced : Bool := false
  isIdempotent : Bool := false
  consistency : Option Consistency := none
  deriving DecidableEq

/-- Answers statements, from a state of its own. -/
structure Executor (σ : Type) where
  execute : Statement → ExecutionOptions → σ → Except Error ResultSet × σ

/-- What a program talks to. -/
structure Session (σ : Type) where
  executor : Executor σ
  prepare : ValuePreparer := ValuePreparer.identity
  config : SessionConfig := {}

/-- The changing part of a session. -/
structure State (σ : Type) where
  /-- The executor's state. -/
  database : σ
  cache : SessionCache := {}
  units : Units := {}
  metrics : Metrics := {}
  /-- The log, the oldest event first. -/
  events : List Event := []
  /-- Tags of the hooks that ran, the oldest first. -/
  hooks : List String := []

/-- What a run in a session comes to: a result or the reason for failing, and the state after
it. -/
abbrev Outcome (σ α : Type) := Except Error α × State σ

/-- The operations that are counted apart. -/
inductive OperationKind where
  | select
  | selectFirst
  | count
  | update
  | insert
  | delete
  deriving DecidableEq

/-- The name of an operation. -/
def OperationKind.name : OperationKind → String
  | select => "select"
  | selectFirst => "select_first"
  | count => "count"
  | update => "update"
  | insert => "insert"
  | delete => "delete"

namespace State

variable {σ : Type}

/-- Logs an event. -/
def log (w : State σ) (e : Event) : State σ := { w with events := w.events ++ [e] }

/-- Counts that an operation ran to its end. -/
def completed (w : State σ) (k : OperationKind) : State σ :=
  { w with metrics := w.metrics.completed k.name }

/-- Counts a hit. -/
def hit (w : State σ) (scope : CacheScope) : State σ :=
  { w with metrics := w.metrics.hit scope }

/-- Counts a miss. -/
def miss (w : State σ) (scope : CacheScope) : State σ :=
  { w with metrics := w.metrics.miss scope }

/-- Changes a unit. -/
def modifyUnit (w : State σ) (i : Nat) (f : UnitOfWork → UnitOfWork) : State σ :=
  { w with units := w.units.modify i f }

/-- Begins a unit, which gets the next number. -/
def begin (w : State σ) (label : String) (parent : Option Nat := none) : Nat × State σ :=
  (w.units.list.length, { w with units := w.units.begin label parent })

/-- Takes over what closing a unit leaves behind. -/
def close (w : State σ) : Except Error Units.Closing → Outcome σ Unit
  | .error e => (.error e, w)
  | .ok c => (.ok (), { w with units := c.units, cache := c.cache, hooks := w.hooks ++ c.hooks })

/-- Commits a unit. -/
def commit (w : State σ) (i : Nat) : Outcome σ Unit := w.close (w.units.commit w.cache i)

/-- Aborts a unit. -/
def abort (w : State σ) (i : Nat) : Outcome σ Unit := w.close (w.units.abort w.cache i)

end State

/-! ## Executing a statement -/

/-- How an operation wants its statement to be executed. -/
structure StatementOptions where
  usesCache : Bool := true
  timeout : Option Duration := none
  isTraced : Bool := false
  showsValues : Bool := false
  consistency : Option Consistency := none
  isIdempotent : Option Bool := none

namespace Session

variable {σ : Type}

/-- A session's state before anything ran. -/
def start (s : Session σ) (database : σ) : State σ :=
  { database
    cache := {
      isEnabled := s.config.cache.isEnabled
      maxCapacity := s.config.cache.maxCapacity
      timeToLive := s.config.cache.timeToLive } }

/-- The log entries of a statement that is about to be sent. -/
def announcement (s : Session σ) (k : OperationKind) (o : StatementOptions) (st : Statement) :
    List Event :=
  if s.config.showsCql then
    let cql := if o.showsValues || s.config.showsValues then st.cqlWithValues else st.cql
    [⟨.info, "Executing statement", [("operation", k.name), ("cql", cql)]⟩]
  else []

/-- The options that go to the executor with a statement. -/
def executionOptions (s : Session σ) (o : StatementOptions) (st : Statement) :
    ExecutionOptions where
  timeout := o.timeout.or s.config.queryTimeout
  isTraced := o.isTraced
  isIdempotent := o.isIdempotent.getD st.isIdempotent
  consistency := o.consistency

/-- Sends a statement. It is counted, also in the unit, whether the executor answers it or
refuses it. Runs take no time here: what a clock would add is zero. -/
def execute (s : Session σ) (unit : Option Nat) (k : OperationKind) (o : StatementOptions)
    (st : Statement) (w : State σ) : Outcome σ ResultSet :=
  let (answer, database) := s.executor.execute st (s.executionOptions o st) w.database
  let w := { w with
    database
    events := w.events ++ s.announcement k o st
    metrics := w.metrics.databaseRequest k.name .zero }
  match unit with
  | none => (answer, w)
  | some i => (answer, w.modifyUnit i (·.record 0 1))

/-- Runs an operation and counts that it came to its end, with a result or an error. An
operation that breaks off does not come to its end. -/
def counted {α : Type} (k : OperationKind) (run : State σ → Outcome σ α) (w : State σ) :
    Outcome σ α :=
  match run w with
  | (.error .brokenOff, w) => (.error .brokenOff, w)
  | (result, w) => (result, w.completed k)

/-- Runs an operation as a task of its own, which fails where the operation breaks off. -/
def asTask {α : Type} (outcome : Outcome σ α) : Outcome σ α :=
  match outcome with
  | (.error .brokenOff, w) => (.error .taskFailed, w)
  | outcome => outcome

/-- Puts an item into the session cache, if its entity may be kept there and it binds a key. -/
def updateCache {α : Type} (s : Session σ) (m : Mapping α) (item : α) (w : State σ) :
    Outcome σ Bool :=
  let policy : CachePolicy := ⟨.update, some m.entity⟩
  if policy.admits w.cache then
    let updated := do
      let cells ← m.nodeCells item
      policy.update w.cache (.ofNodes (s.prepare.cells cells))
    match updated with
    | .ok (isCached, cache) => (.ok isCached, { w with cache })
    | .error e => (.error e, w)
  else (.ok false, w)

/-- Sends a write and, where it was carried out, lets the caches follow it. -/
def write (s : Session σ) (unit : Option Nat) (k : OperationKind) (o : StatementOptions)
    (st : Statement) (through : State σ → Outcome σ Unit) (w : State σ) : Outcome σ ResultSet :=
  match s.execute unit k o st w with
  | (.error e, w) => (.error e, w)
  | (.ok result, w) =>
    match result.wasApplied with
    | .error e => (.error e, w)
    | .ok false => (.ok result, w)
    | .ok true =>
      match through w with
      | (.error e, w) => (.error e, w)
      | (.ok (), w) => (.ok result, w)

end Session

end WideRow
