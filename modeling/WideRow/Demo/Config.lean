import WideRow.Config.Session
import WideRow.Demo.Commands
import WideRow.Sample.Script

/-!
# Settings and command line of the demonstration

The settings are those of the session, together with the keyspace to work in. A command line names
a command and gives its numbers and options (`Command.ofWords`). Carried out against a script
without responses (`Command.rehearse`), a command shows what it would send to a database.
-/

namespace WideRow.Demo

/-! ## Settings -/

/-- The settings of the demonstration. -/
structure Config where
  session : SessionConfig
  keyspace : String
  replicationFactor : Nat
  printsMetrics : Bool
  deriving DecidableEq

namespace Config

/-- Reads the settings. The session uses the demonstration's keyspace unless it has its own. -/
def ofVariables (env : Variables) : Except ConfigError Config := do
  let keyspace := env.textOr "DEMO_KEYSPACE" "helenus_demo"
  let session ← SessionConfig.ofVariables env
  let cluster := { session.cluster with keyspace := session.cluster.keyspace.or (some keyspace) }
  let replicationFactor ← env.read (.unsigned 32) "DEMO_REPLICATION_FACTOR" 1
  let printsMetrics ← env.read .bool "DEMO_PRINT_METRICS" false
  return { session := { session with cluster }, keyspace, replicationFactor, printsMetrics }

/-- The session's settings without a keyspace, for creating it. -/
def bootstrapSession (c : Config) : SessionConfig :=
  { c.session with cluster := { c.session.cluster with keyspace := none } }

end Config

/-! ## Commands -/

/-- A command. -/
inductive Command where
  | schema
  | seed (count : UInt32)
  | lookup (customer times : UInt32) (byEmail : Bool)
  | promote (customer : UInt32) (tier : Int32)
  /-- Removes one customer, or all. -/
  | remove (customer : Option UInt32)
  | status
  deriving DecidableEq

/-- What is wrong with a command line. -/
inductive UsageError where
  | noCommand
  | unknownCommand (word : String)
  | unexpectedWord (word : String)
  | missing (name : String)
  | unreadable (name details : String)
  deriving DecidableEq

/-- The text of an error. -/
def UsageError.message : UsageError → String
  | noCommand => "no command; there are schema, seed, lookup, promote, remove and status"
  | unknownCommand word => s!"no such command: {word}"
  | unexpectedWord word => s!"unexpected argument: {word}"
  | missing name => s!"missing argument: {name}"
  | unreadable name details => s!"invalid value for {name}: {details}"

/-! ## Reading a command line -/

/-- Takes the first of some options out of the words, with the value that follows it. -/
def takeOption (names : List String) : List String → Option String × List String
  | w :: v :: rest =>
    if names.contains w then (some v, rest)
    else
      let (value, rest) := takeOption names (v :: rest)
      (value, w :: rest)
  | words => (none, words)

/-- Reads a number without a sign. -/
def unsigned (name text : String) : Except UsageError UInt32 :=
  match (Reader.unsigned 32).read text with
  | .ok n => .ok (UInt32.ofNat n)
  | .error details => .error (.unreadable name details)

/-- Reads a number with a sign. -/
def signed (name text : String) : Except UsageError Int32 :=
  match (Reader.signed 32).read text with
  | .ok n => .ok (Int32.ofInt n)
  | .error details => .error (.unreadable name details)

/-- The only word that is left, if any. -/
def lastWord : List String → Except UsageError (Option String)
  | [] => .ok none
  | [w] => .ok (some w)
  | _ :: w :: _ => .error (.unexpectedWord w)

/-- The number of the customer that a command is about. -/
def customerOf (words : List String) : Except UsageError UInt32 := do
  match ← lastWord words with
  | some w => unsigned "customer" w
  | none => .error (.missing "customer")

namespace Command

/-- Reads a command line. -/
def ofWords : List String → Except UsageError Command
  | [] => .error .noCommand
  | "schema" :: words =>
    match words with
    | [] => .ok .schema
    | w :: _ => .error (.unexpectedWord w)
  | "seed" :: words => do
    let (count, words) := takeOption ["-c", "--count"] words
    match words with
    | [] => return .seed (← unsigned "count" (count.getD "10"))
    | w :: _ => .error (.unexpectedWord w)
  | "lookup" :: words => do
    let (times, words) := takeOption ["-r", "--repeat"] words
    let customer ← customerOf (words.erase "--by-email")
    return .lookup customer (← unsigned "repeat" (times.getD "3")) (words.contains "--by-email")
  | "promote" :: words => do
    let (tier, words) := takeOption ["-t", "--tier"] words
    let customer ← customerOf words
    match tier with
    | some text => return .promote customer (← signed "tier" text)
    | none => .error (.missing "tier")
  | "remove" :: words => do
    match ← lastWord words with
    | some w => return .remove (some (← unsigned "customer" w))
    | none => return .remove none
  | "status" :: words =>
    match words with
    | [] => .ok .status
    | w :: _ => .error (.unexpectedWord w)
  | w :: _ => .error (.unknownCommand w)

/-! ## Carrying a command out -/

/-- The counts of a unit in words. -/
def countLines (c : UnitCounts) : List String :=
  ["cache operations: " ++ toString c.cacheOperations,
    "database operations: " ++ toString c.databaseOperations]

/-- What lookups brought, in words. -/
def lookupLines (r : LookupReport) : List String :=
  ["customer: " ++ r.customer.getD "none", "lookups: " ++ toString r.lookups,
    "cache hits: " ++ toString r.metrics.hits.toNat,
    "cache misses: " ++ toString r.metrics.misses.toNat,
    "database requests: " ++ toString r.metrics.requests.toNat]

variable {σ : Type}

/-- Carries a command out; its result is in words. -/
def run (c : Config) (s : Session σ) (cmd : Command) (w : State σ) : Result σ (List String) :=
  match cmd with
  | schema =>
    let (r, w) := createSchema s c.keyspace (UInt32.ofNat c.replicationFactor) w
    (r.map fun () => ["schema ready: " ++ c.keyspace], w)
  | seed count =>
    let (r, w) := Demo.seed s count w
    (r.map countLines, w)
  | lookup customer times byEmail =>
    let (r, w) := Demo.lookup s customer times.toNat byEmail w
    (r.map lookupLines, w)
  | promote customer tier =>
    let (r, w) := Demo.promote s customer tier w
    (r.map countLines, w)
  | remove customer =>
    let (r, w) := Demo.remove s customer w
    (r.map fun () => ["removed"], w)
  | status =>
    let (r, w) := Demo.count s w
    (r.map fun n => ["customers: " ++ toString n.toInt], w)

/-- Carries a command out without a database: what is sent gets no rows as its answer. The lines
are the statements that were sent, then what the command says, then the series of the metrics
where they are asked for. -/
def rehearse (c : Config) (cmd : Command) : Except Report (List String) :=
  let s : Session Script := { executor := Script.executor, config := c.session }
  let (r, w) := cmd.run c s (s.start {})
  let sent := w.database.executed.map fun p => p.1.cqlWithValues
  let series := w.metrics.events.map fun p => p.1.name ++ " " ++ toString p.2
  r.map fun lines => sent ++ lines ++ if c.printsMetrics then series else []

end Command

end WideRow.Demo
