import WideRow.Duration

/-!
# Metrics and the log

What a session counts: hits and misses of its caches, statements sent, and how often each kind
of operation ran. Totals are 64-bit numbers. Beside them every event is counted in a named
series, where the kinds of hits and the operations stay apart.

What is said about a run is a log of messages with named texts.
-/

namespace WideRow

/-! ## The log -/

/-- How much an event matters. -/
inductive Level where
  | debug
  | info
  | warn
  deriving DecidableEq

/-- The name of a level. -/
def Level.name : Level → String
  | debug => "DEBUG"
  | info => "INFO"
  | warn => "WARN"

/-- An entry of the log. -/
structure Event where
  level : Level
  message : String
  fields : List (String × String) := []
  deriving DecidableEq

/-! ## Metrics -/

/-- Which cache answered, or failed to. -/
inductive CacheScope where
  | session
  | unitOfWork
  deriving DecidableEq

/-- The name of a scope. -/
def CacheScope.name : CacheScope → String
  | session => "session"
  | unitOfWork => "unit_of_work"

/-- A series of events that are counted together. -/
inductive Series where
  | cacheHits (scope : CacheScope)
  | cacheMisses (scope : CacheScope)
  | databaseRequests (operation : String)
  | databaseDuration
  | requestDuration (operation : String)
  deriving DecidableEq

/-- The name of a series with its label. -/
def Series.name : Series → String
  | cacheHits scope => "helenus_cache_hits_total\x7bscope=" ++ scope.name ++ "\x7d"
  | cacheMisses scope => "helenus_cache_misses_total\x7bscope=" ++ scope.name ++ "\x7d"
  | databaseRequests operation =>
    "helenus_database_requests_total\x7boperation=" ++ operation ++ "\x7d"
  | databaseDuration => "helenus_database_duration_seconds"
  | requestDuration operation =>
    "helenus_request_duration_seconds\x7boperation=" ++ operation ++ "\x7d"

/-- The counters of a session. -/
structure Metrics where
  hits : UInt64 := 0
  misses : UInt64 := 0
  requests : UInt64 := 0
  databaseMicros : UInt64 := 0
  /-- The number of events of every series that has one. -/
  events : List (Series × Nat) := []

namespace Metrics

/-- One more in a series. -/
def bump (s : Series) : List (Series × Nat) → List (Series × Nat)
  | [] => [(s, 1)]
  | (t, n) :: rest => if t = s then (t, n + 1) :: rest else (t, n) :: bump s rest

/-- Counts an event of a series. -/
def count (m : Metrics) (s : Series) : Metrics := { m with events := bump s m.events }

/-- A lookup was answered by a cache. -/
def hit (m : Metrics) (scope : CacheScope) : Metrics :=
  { m with hits := m.hits + 1 }.count (.cacheHits scope)

/-- A cache had no answer to a lookup. -/
def miss (m : Metrics) (scope : CacheScope) : Metrics :=
  { m with misses := m.misses + 1 }.count (.cacheMisses scope)

/-- A statement was sent and answered. -/
def databaseRequest (m : Metrics) (operation : String) (elapsed : Duration) : Metrics :=
  ({ m with
      requests := m.requests + 1
      databaseMicros := m.databaseMicros + UInt64.ofNat elapsed.microseconds }.count
    (.databaseRequests operation)).count .databaseDuration

/-- An operation ran to its end. -/
def completed (m : Metrics) (operation : String) : Metrics := m.count (.requestDuration operation)

/-- The part of the lookups that was answered by a cache, as the bits of a 64-bit number; zero
where there were none. -/
def hitRatio (m : Metrics) : UInt64 :=
  let lookups := m.hits + m.misses
  if lookups = 0 then 0 else (m.hits.toFloat / lookups.toFloat).toBits

end Metrics

end WideRow
