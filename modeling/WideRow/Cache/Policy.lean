import WideRow.Cache.Session

/-!
# Keeping rows in the session cache

What reads and writes do with the session cache, for the rows of one entity: under which keys a
row goes in, how a cached row follows a write, and what is dropped when it is not known which
rows a write has changed.
-/

namespace WideRow

/-- What a cache is being used for. -/
inductive CacheUse where
  | fetch
  | update
  | delete
  deriving DecidableEq

/-- The name of a use. -/
def CacheUse.name : CacheUse → String
  | fetch => "fetch"
  | update => "update"
  | delete => "delete"

/-- The handling of one entity's rows. Without an entity nothing has a key. -/
structure CachePolicy where
  use : CacheUse
  entity : Option Entity

namespace CachePolicy

/-- Whether rows of the entity may go into this cache. -/
def admits (p : CachePolicy) (c : SessionCache) : Bool :=
  c.isEnabled && p.entity.any (·.isCacheable)

/-- The facets that values bind. -/
def facetsOfValues (p : CachePolicy) (values : List (Node × Value)) : List Facet :=
  match p.entity with
  | none => []
  | some e => e.facetsOfValues values

/-- The facets that a row binds. -/
def facetsOfRow (p : CachePolicy) (r : Row) : Except Error (List Facet) :=
  match p.entity with
  | none => .ok []
  | some e => e.facetsOfRow r

/-- The keys that a row binds. -/
def keysOfRow (p : CachePolicy) (r : Row) : Except Error (List String) :=
  (p.facetsOfRow r).map Facet.keys

/-- The table of the entity. -/
def schema? (p : CachePolicy) : Option String := p.entity.map (·.table.name)

/-- Puts a row under all its keys, if it has facets enough to be found by. The answer says
whether it went in. -/
def update (p : CachePolicy) (c : SessionCache) (r : Row) : Except Error (Bool × SessionCache) := do
  let facets ← p.facetsOfRow r
  if facets.length < Facet.leastForSession then return (false, c)
  else return (true, c.put (Facet.keys facets) r)

/-- Drops the row under the keys, under these and all other keys it binds; without keys, all
rows of the table. -/
def evict (p : CachePolicy) (c : SessionCache) (keys : List String) : Except Error SessionCache :=
  if keys.isEmpty then
    match p.schema? with
    | some schema => .ok (c.invalidateSchema schema)
    | none => .ok c
  else
    match c.get? keys with
    | none => .ok (c.invalidate keys)
    | some r => do return c.invalidate (keys ++ (← p.keysOfRow r))

/-- Lets the row under the keys follow a write: columns in `known` take their new cells, those
in `unknown` are forgotten, and the row moves to the keys it binds now. A write that is not
known to have changed one row evicts the table. The cache comes back even where the merged row
cannot be read: its old entries are gone by then. -/
def merge (p : CachePolicy) (c : SessionCache) (keys : List String) (known : Row)
    (unknown : List String) : Except Error Unit × SessionCache :=
  if keys.isEmpty then
    match p.evict c keys with
    | .ok c' => (.ok (), c')
    | .error e => (.error e, c)
  else
    let before := (c.get? keys).getD .empty
    let moved : Except Error (List String × Row) := do
      let previous ← p.keysOfRow before
      return (previous, ← (← before.merge known).removeAll unknown)
    match moved with
    | .error e => (.error e, c)
    | .ok (previous, after) =>
      let c := c.invalidate previous
      match p.update c after with
      | .error e => (.error e, c)
      | .ok (_, c') => (.ok (), c')

end CachePolicy

end WideRow
