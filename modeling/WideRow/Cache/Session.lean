import Std.Data.ExtTreeMap
import WideRow.Cache.Facet
import WideRow.Duration

/-!
# The session cache

A finite map from cache keys to rows, shared by everything that runs in a session. One row
stands under every key it can be found by. Whether a row may go in is decided by the users of
the cache, who ask `isEnabled` and the row's entity first.

The rows are in the care of a library that drops entries by itself, because there are more of
them than `maxCapacity` or because they are older than `timeToLive`. Which entries it drops and
when is its own affair, and is taken here as a parameter, an `Evictor`. All that is known of it is
what it promises (`Evictor.IsDocumented`): it drops nothing from a cache that has room.
-/

namespace WideRow

/-- Rows by cache key. -/
structure SessionCache where
  isEnabled : Bool := true
  maxCapacity : Nat := 10000
  timeToLive : Option Duration := none
  rows : Std.ExtTreeMap String Row compare := ∅

namespace SessionCache

/-- The row under the first key that has one. -/
def get? (c : SessionCache) (keys : List String) : Option Row := keys.findSome? (c.rows[·]?)

/-- Puts a row under every one of the keys. -/
def put (c : SessionCache) (keys : List String) (r : Row) : SessionCache :=
  { c with rows := keys.foldl (fun rows k => rows.insert k r) c.rows }

/-- Drops the entries of the keys. -/
def invalidate (c : SessionCache) (keys : List String) : SessionCache :=
  { c with rows := keys.foldl (fun rows k => rows.erase k) c.rows }

/-- Drops the entries of a table. -/
def invalidateSchema (c : SessionCache) (schema : String) : SessionCache :=
  { c with rows := c.rows.filter fun k _ => !(Facet.schemaStart schema).isPrefixOf k }

/-- Drops all entries. -/
def clear (c : SessionCache) : SessionCache := { c with rows := ∅ }

/-- The number of entries. -/
def size (c : SessionCache) : Nat := c.rows.size

/-- The cache after the entries of some keys were dropped. -/
def evict (c : SessionCache) (lost : String → Bool) : SessionCache :=
  { c with rows := c.rows.filter fun k _ => !lost k }

/-- Entries are kept however old they are, and there are no more of them than fit, so many more
included. -/
def HasRoom (c : SessionCache) (more : Nat := 0) : Prop :=
  c.timeToLive = none ∧ c.size + more ≤ c.maxCapacity

instance (c : SessionCache) (more : Nat) : Decidable (c.HasRoom more) :=
  inferInstanceAs (Decidable (_ ∧ _))

end SessionCache

/-- The library in whose care the rows are: the keys whose entries it drops from a cache at a
moment. Moments are numbered in the order in which they come. -/
structure Evictor where
  drops (moment : Nat) (c : SessionCache) (key : String) : Bool

namespace Evictor

/-- What the library promises: entries go because there are too many of them, or because they are
too old, and for no other reason. -/
structure IsDocumented (p : Evictor) : Prop where
  keeps (moment : Nat) (c : SessionCache) (key : String) : c.HasRoom → p.drops moment c key = false

/-- The cache after a moment. -/
def settle (p : Evictor) (moment : Nat) (c : SessionCache) : SessionCache :=
  c.evict (p.drops moment c)

end Evictor

end WideRow
