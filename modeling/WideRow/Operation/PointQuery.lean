import WideRow.Operation.Query

/-!
# Point queries

A query for a single row may be answered without the database. Where its filters are
equalities that bind a key of the entity, the caches are asked: the unit of work and its
ancestors first, then the session cache. A cached row answers if it has every column of the
projection and the values that the filters ask for (`Plan.accepts`); a row that the unit has
deleted answers that there is none. Otherwise the statement is sent, and the row that comes
back is put into the caches (`Plan.populate`).
-/

namespace WideRow

/-- Reads a single row. -/
structure PointQuery (α : Type) where
  query : Query α

instance {α : Type} : Restricted (PointQuery α) where
  mapConditions f q := ⟨Restricted.mapConditions f q.query⟩

instance {α : Type} : Configured (PointQuery α) where
  mapOptions f q := ⟨Configured.mapOptions f q.query⟩

/-- Reads only the first row. -/
def Query.single {α : Type} (q : Query α) : PointQuery α := ⟨q.limited 1⟩

namespace PointQuery

variable {α β : Type}

/-- Makes something of the item. -/
def map (q : PointQuery α) (f : α → β) : PointQuery β := ⟨q.query.map f⟩

/-- The query as a statement. -/
def statement (q : PointQuery α) (prepare : ValuePreparer) : Except Error Statement :=
  q.query.statement prepare

/-- Builds the statement and logs the warnings. -/
def build {σ : Type} (q : PointQuery α) (s : Session σ) (w : State σ) : Outcome σ Statement :=
  q.query.build s w

/-- How the caches stand to a query. -/
structure Plan where
  policy : CachePolicy
  projection : List Node
  equalities : List (Node × Value)
  keys : List String
  usesCache : Bool

/-- The plan of a query in a session. -/
def plan (q : PointQuery α) (prepare : ValuePreparer) : Plan :=
  let policy : CachePolicy := ⟨.fetch, q.query.entity.toOption⟩
  { policy
    projection := q.query.projection
    equalities := q.query.conditions.equalities prepare
    keys := q.query.conditions.keys policy prepare
    usesCache := q.query.options.usesCache }

/-- What the caches say. -/
inductive Resolution where
  | hit (r : Row)
  | deleted
  /-- The database has to be asked; `populate` says whether the caches want its answer. -/
  | miss (populate : Bool)

namespace Plan

/-- Whether a row has every column that is read. -/
def covers (p : Plan) (r : Row) : Bool := p.projection.all fun n => r.contains n.column.name

/-- Whether a cached row answers the query. -/
def accepts (p : Plan) (r : Row) : Except Error Bool :=
  if p.covers r then rowSatisfies r p.equalities else .ok false

/-- The row of the session cache that answers the query. -/
def fromSession? (p : Plan) (c : SessionCache) : Except Error (Option Row) :=
  match c.get? p.keys with
  | none => .ok none
  | some r => do return if ← p.accepts r then some r else none

variable {σ : Type}

/-- Asks the session cache. -/
def withoutUnit (p : Plan) (w : State σ) : Outcome σ Resolution :=
  if !p.usesCache || !p.policy.admits w.cache || p.keys.isEmpty then
    (.ok (.miss (p.policy.admits w.cache)), w)
  else
    match p.fromSession? w.cache with
    | .error e => (.error e, w)
    | .ok (some r) => (.ok (.hit r), w.hit .session)
    | .ok none => (.ok (.miss true), w.miss .session)

/-- Asks the session cache for a unit that has no answer. A row found there becomes the unit's
own, but is not its to publish. -/
def sessionForUnit (p : Plan) (i : Nat) (w : State σ) : Outcome σ Resolution :=
  if !p.policy.admits w.cache then (.ok (.miss true), w)
  else
    match p.fromSession? w.cache with
    | .error e => (.error e, w)
    | .ok none => (.ok (.miss true), (w.miss .session).modifyUnit i (·.record (-1) 0))
    | .ok (some r) =>
      let w := (w.hit .session).modifyUnit i (·.record 1 0)
      match p.policy.keysOfRow r with
      | .error e => (.error e, w)
      | .ok keys => (.ok (.hit r), w.modifyUnit i (·.put keys (.row r false)))

/-- Asks a unit and its ancestors, then the session cache. -/
def withinUnit (p : Plan) (i : Nat) (w : State σ) : Outcome σ Resolution :=
  let hit (w : State σ) := (w.hit .unitOfWork).modifyUnit i (·.record 1 0)
  if !p.usesCache then (.ok (.miss false), w)
  else if p.keys.isEmpty then (.ok (.miss true), w)
  else
    match w.units.lookup i p.keys with
    | .deleted => (.ok .deleted, hit w)
    | .missing => p.sessionForUnit i (w.miss .unitOfWork)
    | .found r =>
      match p.accepts r with
      | .error e => (.error e, w)
      | .ok true => (.ok (.hit r), hit w)
      | .ok false => p.sessionForUnit i (w.miss .unitOfWork)

/-- Asks the caches. -/
def resolve (p : Plan) (unit : Option Nat) (w : State σ) : Outcome σ Resolution :=
  match unit with
  | none => p.withoutUnit w
  | some i => p.withinUnit i w

/-- A row that was read, completed by the values its filters asked for. -/
def completed (p : Plan) (r : Row) : Row :=
  (cellsOfEqualities p.equalities).foldl
    (fun r (column, c) =>
      if r.contains column then r else ⟨r.columns ++ [column], r.cells ++ [c]⟩) r

/-- The units after a row was read in one of them: it goes over what they know of the row. -/
def populateUnit (p : Plan) (r : Row) (i : Nat) (us : Units) : Except Error Units := do
  let facets ← p.policy.facetsOfRow r
  let keys := Facet.keys facets
  if keys.isEmpty then return us
  else
    let merged ← match us.lookup i keys with
      | .found known => known.merge r
      | _ => .ok r
    let promote := p.policy.entity.any (·.isCacheable) && facets.length ≥ Facet.leastForSession
    return us.modify i (·.put keys (.row merged promote))

/-- The session cache after a row was read: it goes over what the cache knows of the row. -/
def populateSession (p : Plan) (r : Row) (c : SessionCache) : Except Error SessionCache := do
  let keys ← p.policy.keysOfRow r
  if keys.isEmpty then return c
  else
    let merged ← match c.get? keys with
      | some known => known.merge r
      | none => .ok r
    return (← p.policy.update c merged).2

/-- Puts a row that was read into the caches. -/
def populate (p : Plan) (r : Row) (unit : Option Nat) (w : State σ) : Outcome σ Unit :=
  match unit with
  | some i =>
    match p.populateUnit (p.completed r) i w.units with
    | .error e => (.error e, w)
    | .ok units => (.ok (), { w with units })
  | none =>
    match p.populateSession (p.completed r) w.cache with
    | .error e => (.error e, w)
    | .ok cache => (.ok (), { w with cache })

end Plan

variable {σ : Type}

/-- Sends the statement, keeps the row it brings if that is wanted, and makes the item. -/
def fetch (q : PointQuery α) (s : Session σ) (unit : Option Nat) (p : Plan) (populate : Bool)
    (st : Statement) (w : State σ) : Outcome σ (Option α) :=
  match s.execute unit .selectFirst q.query.options st w with
  | (.error e, w) => (.error e, w)
  | (.ok result, w) =>
    match result.first? with
    | none => (.ok none, w)
    | some r =>
      match if populate then p.populate r unit w else (.ok (), w) with
      | (.error e, w) => (.error e, w)
      | (.ok (), w) => ((q.query.mapper r).map some, w)

/-- Answers the query from the caches or by its statement. -/
def answer (q : PointQuery α) (s : Session σ) (unit : Option Nat) (w : State σ) :
    Outcome σ (Option α) :=
  match q.build s w with
  | (.error e, w) => (.error e, w)
  | (.ok st, w) =>
    let p := q.plan s.prepare
    match p.resolve unit w with
    | (.error e, w) => (.error e, w)
    | (.ok .deleted, w) => (.ok none, w)
    | (.ok (.hit r), w) => ((q.query.mapper r).map some, w)
    | (.ok (.miss populate), w) => q.fetch s unit p populate st w

/-- Runs the query. -/
def run (q : PointQuery α) (s : Session σ) (unit : Option Nat) :
    State σ → Outcome σ (Option α) :=
  Session.counted .selectFirst (q.answer s unit)

end PointQuery

end WideRow
