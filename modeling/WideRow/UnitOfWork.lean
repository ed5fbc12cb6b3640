import WideRow.Cache.Session
import WideRow.Duration

/-!
# Units of work

A unit of work is a scratch cache for the rows that one piece of work reads and writes. Units
nest. A lookup goes through the unit and then its ancestors (`Units.chain`), and the first of
them that has an entry for one of the keys answers. A deleted row stays as an entry that says
so, so that nothing further out is asked.

Committing a nested unit lays its entries over those of its parent; committing a unit without a
parent publishes them in the session cache: rows that may be kept there replace what is there,
and deleted ones remove it. A unit is closed once, by commit or abort.

Units are numbered in the order of their beginning, so a parent has the smaller number and
every chain of ancestors ends.
-/

namespace WideRow

/-- What a unit knows of a key. -/
inductive UnitEntry where
  /-- A row, and whether a commit may keep it in the session cache. -/
  | row (r : Row) (promote : Bool)
  | deleted

/-- Whether a unit is still in use. -/
inductive UnitStatus where
  | opened
  | committed
  | aborted
  deriving DecidableEq

/-- A unit of work. -/
structure UnitOfWork where
  /-- How messages name the unit. -/
  label : String
  parent : Option Nat
  status : UnitStatus := .opened
  entries : Std.ExtTreeMap String UnitEntry compare := ∅
  cacheOperations : Int := 0
  databaseOperations : Int := 0
  cacheTime : Duration := .zero
  databaseTime : Duration := .zero
  /-- Tags of the hooks that a commit runs. -/
  commitHooks : List String := []
  /-- Tags of the hooks that an abort runs. -/
  abortHooks : List String := []

/-- The answer of a unit and its ancestors. -/
inductive UnitAnswer where
  | found (r : Row)
  | deleted
  | missing

namespace UnitOfWork

/-- The entry under the first key that has one. -/
def find? (u : UnitOfWork) (keys : List String) : Option UnitEntry :=
  keys.findSome? (u.entries[·]?)

/-- Gives every one of the keys an entry. -/
def put (u : UnitOfWork) (keys : List String) (e : UnitEntry) : UnitOfWork :=
  { u with entries := keys.foldl (fun entries k => entries.insert k e) u.entries }

/-- Forgets the entries of a table. -/
def evictSchema (u : UnitOfWork) (schema : String) : UnitOfWork :=
  { u with entries := u.entries.filter fun k _ => !(Facet.schemaStart schema).isPrefixOf k }

/-- Counts operations of the cache and of the database. -/
def record (u : UnitOfWork) (cache database : Int) : UnitOfWork :=
  { u with
    cacheOperations := u.cacheOperations + cache
    databaseOperations := u.databaseOperations + database }

/-- Adds to the times spent. -/
def addTimes (u : UnitOfWork) (cache database : Duration) : UnitOfWork :=
  { u with
    cacheTime := u.cacheTime.add cache
    databaseTime := u.databaseTime.add database }

/-- Has a commit run a hook. -/
def onCommit (u : UnitOfWork) (hook : String) : UnitOfWork :=
  { u with commitHooks := u.commitHooks ++ [hook] }

/-- Has an abort run a hook. -/
def onAbort (u : UnitOfWork) (hook : String) : UnitOfWork :=
  { u with abortHooks := u.abortHooks ++ [hook] }

/-- The unit after it was closed: entries and hooks have gone to whoever closed it. -/
def closed (u : UnitOfWork) (status : UnitStatus) : UnitOfWork :=
  { u with status, entries := ∅, commitHooks := [], abortHooks := [] }

/-- A unit after a nested one was folded into it. -/
def absorb (u nested : UnitOfWork) : UnitOfWork :=
  { u with
    entries := u.entries ∪ nested.entries
    cacheOperations := u.cacheOperations + nested.cacheOperations
    databaseOperations := u.databaseOperations + nested.databaseOperations
    cacheTime := u.cacheTime.add nested.cacheTime
    databaseTime := u.databaseTime.add nested.databaseTime
    commitHooks := u.commitHooks ++ nested.commitHooks }

/-- The session cache after a unit without a parent was committed. -/
def publish (u : UnitOfWork) (c : SessionCache) : SessionCache :=
  if c.isEnabled then
    let kept := c.rows.filter fun k _ =>
      match u.entries[k]? with
      | some .deleted => false
      | _ => true
    let promoted := u.entries.filterMap fun _ e =>
      match e with
      | .row r true => some r
      | _ => none
    { c with rows := kept ∪ promoted }
  else c

end UnitOfWork

/-- All units of a session, in the order of their beginning. -/
structure Units where
  list : List UnitOfWork := []

namespace Units

/-- A unit by its number. -/
def get? (us : Units) (i : Nat) : Option UnitOfWork := us.list[i]?

/-- Changes one unit. -/
def modify (us : Units) (i : Nat) (f : UnitOfWork → UnitOfWork) : Units := ⟨us.list.modify i f⟩

/-- A new unit at the end. -/
def begin (us : Units) (label : String) (parent : Option Nat) : Units :=
  ⟨us.list ++ [({ label, parent } : UnitOfWork)]⟩

/-- A unit and its ancestors, the innermost first. -/
def chain (us : Units) (i : Nat) : List UnitOfWork :=
  match us.get? i with
  | none => []
  | some u =>
    match u.parent with
    | none => [u]
    | some p => if p < i then u :: us.chain p else [u]
termination_by i

/-- The entry of a unit or its nearest ancestor that has one for one of the keys. -/
def find? (us : Units) (i : Nat) (keys : List String) : Option UnitEntry :=
  (us.chain i).findSome? (·.find? keys)

/-- What a unit and its ancestors know of keys. -/
def lookup (us : Units) (i : Nat) (keys : List String) : UnitAnswer :=
  match us.find? i keys with
  | some (.row r _) => .found r
  | some .deleted => .deleted
  | none => .missing

/-- The open unit with this number, or the error that it is closed. No caller has the number
of a unit that was never begun. -/
def opened (us : Units) (i : Nat) : Except Error UnitOfWork :=
  match us.get? i with
  | none => .error .brokenOff
  | some u =>
    match u.status with
    | .opened => .ok u
    | .committed => .error (.mapping (.closedUnit u.label true))
    | .aborted => .error (.mapping (.closedUnit u.label false))

/-- What closing a unit leaves behind: the units, the session cache, and the hooks to run. -/
structure Closing where
  units : Units
  cache : SessionCache
  hooks : List String

/-- Commits a unit. The hooks of a nested unit wait for its parent. -/
def commit (us : Units) (c : SessionCache) (i : Nat) : Except Error Closing := do
  let u ← us.opened i
  let us := us.modify i (·.closed .committed)
  match u.parent with
  | some p => return ⟨us.modify p (·.absorb u), c, []⟩
  | none => return ⟨us, u.publish c, u.commitHooks⟩

/-- Aborts a unit, whose entries are lost. -/
def abort (us : Units) (c : SessionCache) (i : Nat) : Except Error Closing := do
  let u ← us.opened i
  return ⟨us.modify i (·.closed .aborted), c, u.abortHooks⟩

end Units

end WideRow
