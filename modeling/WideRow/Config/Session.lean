import WideRow.Config.Reader
import WideRow.Duration

/-!
# Configuration of a session

How the cluster is reached, how the session cache is set up, and what is logged.
-/

namespace WideRow

/-- How the cluster is reached. -/
structure ClusterConfig where
  contactPoints : List String := ["127.0.0.1:9042"]
  keyspace : Option String := none
  datacenter : Option String := none
  username : Option String := none
  password : Option String := none
  connectTimeoutSeconds : Nat := 10
  requestTimeoutSeconds : Nat := 30
  deriving DecidableEq

namespace ClusterConfig

/-- The hosts in a list separated by commas. -/
def hosts (s : String) : List String :=
  ((Text.pieces ',' s).map Text.trim).filter fun h => !h.isEmpty

/-- Reads the settings of the cluster. -/
def ofVariables (env : Variables) : Except ConfigError ClusterConfig := do
  let contactPoints := hosts (← env.required "CASSANDRA_CONTACT_POINTS")
  if contactPoints.isEmpty then
    .error (.unreadable "CASSANDRA_CONTACT_POINTS" "No valid contact points provided")
  else
    let connect ← env.read (.unsigned 64) "CASSANDRA_CONNECT_TIMEOUT_SECS" 10
    let request ← env.read (.unsigned 64) "CASSANDRA_REQUEST_TIMEOUT_SECS" 30
    return {
      contactPoints
      keyspace := env "CASSANDRA_KEYSPACE"
      datacenter := env "CASSANDRA_DATACENTER"
      username := env "CASSANDRA_USERNAME"
      password := env "CASSANDRA_PASSWORD"
      connectTimeoutSeconds := connect
      requestTimeoutSeconds := request }

/-- Uses a keyspace. -/
def withKeyspace (c : ClusterConfig) (name : String) : ClusterConfig :=
  { c with keyspace := some name }

/-- Prefers a data center. -/
def withDatacenter (c : ClusterConfig) (name : String) : ClusterConfig :=
  { c with datacenter := some name }

/-- Logs in. -/
def withCredentials (c : ClusterConfig) (username password : String) : ClusterConfig :=
  { c with username := some username, password := some password }

/-- Waits this many seconds for a connection. -/
def withConnectTimeout (c : ClusterConfig) (seconds : Nat) : ClusterConfig :=
  { c with connectTimeoutSeconds := seconds }

/-- Waits this many seconds for an answer. -/
def withRequestTimeout (c : ClusterConfig) (seconds : Nat) : ClusterConfig :=
  { c with requestTimeoutSeconds := seconds }

end ClusterConfig

/-- How the session cache is set up. -/
structure CacheConfig where
  isEnabled : Bool := true
  maxCapacity : Nat := 10000
  timeToLive : Option Duration := none
  deriving DecidableEq

namespace CacheConfig

/-- A cache that is not used. -/
def disabled : CacheConfig := { isEnabled := false }

/-- Keeps at most this many entries. -/
def withMaxCapacity (c : CacheConfig) (n : Nat) : CacheConfig := { c with maxCapacity := n }

/-- Keeps entries no longer than this. -/
def withTimeToLive (c : CacheConfig) (d : Duration) : CacheConfig :=
  { c with timeToLive := some d }

/-- Reads the settings of the cache. -/
def ofVariables (env : Variables) : Except ConfigError CacheConfig := do
  let isEnabled ← env.read .bool "HELENUS_CACHE_ENABLED" true
  let maxCapacity ← env.read (.unsigned 64) "HELENUS_CACHE_MAX_CAPACITY" 10000
  let seconds ← env.read? (.unsigned 64) "HELENUS_CACHE_TTL_SECS"
  return { isEnabled, maxCapacity, timeToLive := seconds.map .ofSeconds }

end CacheConfig

/-- The settings of a session. -/
structure SessionConfig where
  cluster : ClusterConfig := {}
  cache : CacheConfig := {}
  queryTimeout : Option Duration := none
  /-- Whether statements are logged. -/
  showsCql : Bool := false
  /-- Whether statements are logged with their values. -/
  showsValues : Bool := false
  deriving DecidableEq

namespace SessionConfig

/-- Waits this long for the answer to a statement that has no limit of its own. -/
def withQueryTimeout (c : SessionConfig) (d : Duration) : SessionConfig :=
  { c with queryTimeout := some d }

/-- Says whether statements are logged. -/
def withShowCql (c : SessionConfig) (b : Bool) : SessionConfig := { c with showsCql := b }

/-- Says whether statements are logged with their values. -/
def withShowValues (c : SessionConfig) (b : Bool) : SessionConfig := { c with showsValues := b }

/-- Reads the settings of a session. -/
def ofVariables (env : Variables) : Except ConfigError SessionConfig := do
  let cluster ← ClusterConfig.ofVariables env
  let cache ← CacheConfig.ofVariables env
  let milliseconds ← env.read? (.unsigned 64) "HELENUS_QUERY_TIMEOUT_MS"
  let showsCql ← env.read .bool "HELENUS_SHOW_CQL" false
  let showsValues ← env.read .bool "HELENUS_SHOW_VALUES" false
  return {
    cluster, cache, showsCql, showsValues
    queryTimeout := milliseconds.map .ofMilliseconds }

end SessionConfig

/-! ## Where a program runs -/

/-- Where a program runs. -/
inductive Deployment where
  | development
  | production
  deriving DecidableEq

/-- Production only where it is asked for, in upper or lower case. -/
def Deployment.ofVariables (env : Variables) : Deployment :=
  if (env.textOr "APP_ENV" "development").toLower == "production" then production
  else development

end WideRow
