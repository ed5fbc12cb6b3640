import WideRow.Demo.Config

/-!
# The program

Rehearses one command of the demonstration: prints what it would send to a database, and what
it would say. Settings come from the environment.
-/

namespace WideRow.Demo

/-- The variables that the demonstration is configured by. -/
def variableNames : List String :=
  ["CASSANDRA_CONTACT_POINTS", "CASSANDRA_KEYSPACE", "CASSANDRA_DATACENTER",
    "CASSANDRA_USERNAME", "CASSANDRA_PASSWORD", "CASSANDRA_CONNECT_TIMEOUT_SECS",
    "CASSANDRA_REQUEST_TIMEOUT_SECS", "HELENUS_CACHE_ENABLED", "HELENUS_CACHE_MAX_CAPACITY",
    "HELENUS_CACHE_TTL_SECS", "HELENUS_QUERY_TIMEOUT_MS", "HELENUS_SHOW_CQL",
    "HELENUS_SHOW_VALUES", "DEMO_KEYSPACE", "DEMO_REPLICATION_FACTOR", "DEMO_PRINT_METRICS"]

/-- The environment of the process. -/
def environment : IO Variables := do
  let pairs ← variableNames.filterMapM fun name => do
    return (← IO.getEnv name).map fun value => (name, value)
  return fun name => pairs.lookup name

/-- Says what went wrong. -/
def failWith (message : String) : IO UInt32 := do
  IO.eprintln message
  return 1

end WideRow.Demo

open WideRow.Demo in
/-- Rehearses the command that the arguments name. -/
def main (args : List String) : IO UInt32 := do
  match Config.ofVariables (← environment), Command.ofWords args with
  | .error e, _ => failWith e.message
  | _, .error e => failWith e.message
  | .ok c, .ok cmd =>
    match cmd.rehearse c with
    | .error r => failWith r.message
    | .ok lines =>
      for line in lines do
        IO.println line
      return 0
