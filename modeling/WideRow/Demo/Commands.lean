import WideRow.Demo.Customer
import WideRow.Operation.PointQuery
import WideRow.Operation.RowCount
import WideRow.Operation.RowDelete
import WideRow.Operation.RowInsert
import WideRow.Operation.RowUpdate

/-!
# The demonstration

Commands that show a session at work on the table of customers: creating the table, seeding it
with sample customers in one unit of work, looking customers up again and again, promoting one,
removing, and counting. A command that fails says what it was about (`Report`).
-/

namespace WideRow.Demo

/-- Why a command failed: what it was about, and the cause. -/
structure Report where
  context : Option String := none
  cause : Error

/-- The text of a report: its parts from the outermost to the innermost, where a conversion
error is followed by its own cause. -/
def Report.message (r : Report) : String :=
  let source := match r.cause with
    | .conversion _ e => [e.message]
    | _ => []
  String.intercalate ": " (r.context.toList ++ r.cause.message :: source)

variable {σ α : Type}

/-- The result of a command, and the state after it. -/
abbrev Result (σ α : Type) := Except Report α × State σ

/-- An outcome as the result of a command. -/
def report (context : Option String) : Outcome σ α → Result σ α
  | (.ok a, w) => (.ok a, w)
  | (.error cause, w) => (.error ⟨context, cause⟩, w)

/-- How often a unit used its caches and the database. -/
structure UnitCounts where
  cacheOperations : Int
  databaseOperations : Int
  deriving DecidableEq

/-- The counts of a unit. -/
def unitCounts (w : State σ) (i : Nat) : UnitCounts :=
  match w.units.get? i with
  | some u => ⟨u.cacheOperations, u.databaseOperations⟩
  | none => ⟨0, 0⟩

/-! ## Creating the table -/

/-- Sends statements one after the other, as they are. -/
def applyAll (s : Session σ) : List String → State σ → Result σ Unit
  | [], w => (.ok (), w)
  | cql :: rest, w =>
    let w := w.log ⟨.info, "Applying schema", [("cql", cql)]⟩
    match s.executor.execute (.text cql true) {} w.database with
    | (.error e, database) => (.error ⟨some "failed to apply schema", e⟩, { w with database })
    | (.ok _, database) => applyAll s rest { w with database }

/-- Creates the keyspace and the table. -/
def createSchema (s : Session σ) (keyspace : String) (replicationFactor : UInt32) :
    State σ → Result σ Unit :=
  applyAll s (Customer.schema keyspace replicationFactor)

/-! ## Seeding -/

/-- Inserts sample customers in a unit until one fails. -/
def insertAll (s : Session σ) (unit : Nat) : List Nat → State σ → Result σ Unit
  | [], w => (.ok (), w)
  | n :: rest, w =>
    let op := RowInsert.ofItem Customer.mapping (Customer.sample (UInt32.ofNat n))
    match op.run s (some unit) w with
    | (.error e, w) => (.error ⟨some ("failed to insert customer " ++ toString n), e⟩, w)
    | (.ok _, w) => insertAll s unit rest w

/-- Inserts the sample customers from one to `count`, in one unit of work. -/
def seed (s : Session σ) (count : UInt32) (w : State σ) : Result σ UnitCounts :=
  let (unit, w) := w.begin "seed"
  match insertAll s unit (List.range' 1 count.toNat) w with
  | (.error r, w) => (.error r, w)
  | (.ok (), w) =>
    let counts := unitCounts w unit
    match report none (w.commit unit) with
    | (.error r, w) => (.error r, w)
    | (.ok (), w) =>
      (.ok counts,
        w.log ⟨.info, "Seeded customers", [("count", toString count.toNat)]⟩)

/-! ## Looking up -/

/-- What looking a customer up brought. -/
structure LookupReport where
  customer : Option String
  lookups : Nat
  metrics : Metrics

/-- The point query for name and tier of a sample customer. -/
def customerQuery (n : UInt32) (byEmail : Bool) : PointQuery (List Typed) :=
  let q := Query.ofProperties [⟨.text, Customer.nameGetter⟩, ⟨.int, Customer.tierGetter⟩]
  let sample := Customer.sample n
  let q :=
    if byEmail then Restricted.whereEq q Customer.emailGetter sample.email
    else Restricted.whereEq q Customer.idGetter sample.id
  q.single

/-- Name and tier in words. -/
def describe : List Typed → String
  | [⟨.text, name⟩, ⟨.int, tier⟩] =>
    String.append name (" (tier " ++ ColumnType.debug .int tier ++ ")")
  | _ => ""

/-- Runs a query some more times and keeps the last answer. -/
def repeated (run : State σ → Outcome σ α) : Nat → α → State σ → Outcome σ α
  | 0, last, w => (.ok last, w)
  | n + 1, _, w =>
    match run w with
    | (.error e, w) => (.error e, w)
    | (.ok a, w) => repeated run n a w

/-- Looks a sample customer up, at least once, in a way to ask. -/
def lookupBy (ask : PointQuery (List Typed) → State σ → Outcome σ (Option (List Typed)))
    (n : UInt32) (times : Nat) (byEmail : Bool) (w : State σ) : Result σ LookupReport :=
  let times := Nat.max times 1
  match report none (repeated (ask (customerQuery n byEmail)) times none w) with
  | (.error r, w) => (.error r, w)
  | (.ok found, w) => (.ok ⟨found.map describe, times, w.metrics⟩, w)

/-- Looks a sample customer up, at least once. -/
def lookup (s : Session σ) : UInt32 → Nat → Bool → State σ → Result σ LookupReport :=
  lookupBy fun q => q.run s none

/-! ## Changing and removing -/

/-- The update that gives a sample customer a tier. -/
def tierUpdate (n : UInt32) (tier : Int32) : RowUpdate :=
  let u := RowUpdate.set {} Customer.tierGetter tier
  let u := Restricted.whereEq u Customer.idGetter (Customer.sample n).id
  Configured.consistency u .quorum

/-- The point query for the tier of a sample customer. -/
def tierQuery (n : UInt32) : PointQuery Int32 :=
  let q := Query.ofProperty Customer.tierGetter
  (Restricted.whereEq q Customer.idGetter (Customer.sample n).id).single

/-- Gives a sample customer a tier in a unit of work, reads it back there, and commits. -/
def promote (s : Session σ) (n : UInt32) (tier : Int32) (w : State σ) : Result σ UnitCounts :=
  let (unit, w) := w.begin "promote"
  match report none ((tierUpdate n tier).run s (some unit) w) with
  | (.error r, w) => (.error r, w)
  | (.ok _, w) =>
    match report none ((tierQuery n).run s (some unit) w) with
    | (.error r, w) => (.error r, w)
    | (.ok seen, w) =>
      let seenText := ColumnType.debug (.option .int) seen
      let w := w.log ⟨.info, "Tier inside unit of work",
        [("customer", toString n.toNat), ("seen", seenText)]⟩
      let counts := unitCounts w unit
      match report none (w.commit unit) with
      | (.error r, w) => (.error r, w)
      | (.ok (), w) => (.ok counts, w)

/-- Removes one sample customer, or all customers. -/
def remove (s : Session σ) (n : Option UInt32) (w : State σ) : Result σ Unit :=
  let d := RowDelete.of Customer.entity
  let d := match n with
    | some n => Restricted.whereEq d Customer.idGetter (Customer.sample n).id
    | none => d
  match report none (d.run s none w) with
  | (.error r, w) => (.error r, w)
  | (.ok _, w) => (.ok (), w)

/-- Counts the customers. -/
def count (s : Session σ) (w : State σ) : Result σ Int64 :=
  report none ((RowCount.of Customer.entity).run s none w)

end WideRow.Demo
