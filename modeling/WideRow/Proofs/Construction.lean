import WideRow.Proofs.Assembly
import WideRow.Proofs.Calls
import WideRow.Proofs.Failures
import WideRow.Proofs.ReadYourWrites

/-!
# Errors of construction

An operation whose calls went wrong is found out when its statement is built, before anything is
sent. So is one whose columns do not go together, or that says too little.

> `first_error_wins`: an operation with a first error reports it wherever its statement is built or
> it is run; a statement is refused for errors of construction only, and an operation whose
> statement is refused sends nothing and leaves the caches and their counts as they were.
-/

namespace WideRow

/-! ## Statements fail with errors of construction -/

/-- All errors that a computation may end with are errors of construction. -/
abbrev FailsInConstruction {α : Type} (x : Except Error α) : Prop :=
  FailsOnly (fun e => e.isConstruction = true) x

namespace FailsInConstruction

variable {prepare : ValuePreparer}

/-- Columns of several entities are refused when the statement is built. -/
theorem soleEntity (action : String) (first : Node) (rest : List Node) :
    FailsInConstruction (soleEntity action first rest) := by
  unfold WideRow.soleEntity
  split
  next => exact .error rfl
  next => exact .ok _

/-- So are filters of another entity. -/
theorem checkEntity (c : Conditions) (e : Entity) : FailsInConstruction (c.checkEntity e) := by
  unfold Conditions.checkEntity
  split
  next => exact .error rfl
  next => exact .ok _

/-- So is a value that cannot be bound. -/
theorem bound {t : ColumnType} (n : Node) (v : t.Carrier) :
    FailsInConstruction (Postulate.bound n prepare v) := by
  unfold Postulate.bound
  split
  next => exact .ok _
  next => exact .error rfl

theorem clause (f : Filter) : FailsInConstruction (f.clause prepare) := by
  unfold Filter.clause
  obtain ⟨n, t, p⟩ := f
  cases p with
  | single op v => exact .bind (bound n v) fun x => .ok _
  | many vs => exact .bind (.mapM (bound n) vs) fun xs => .ok _

theorem clauses (fs : List Filter) : FailsInConstruction (fs.mapM (·.clause prepare)) :=
  .mapM clause fs

/-- What an operation keeps is brought up as an error of construction. -/
theorem check {p : Pending} {first : Option Error} (h : p.first = first.map Pending.kept) :
    FailsInConstruction p.check := by
  unfold Pending.check
  rw [h]
  cases first with
  | none => exact .ok _
  | some e => exact .error (Pending.isConstruction_kept e)

end FailsInConstruction

section

open FailsInConstruction

variable {prepare : ValuePreparer}

/-- A select fails in construction, if the error that it keeps is one of construction. -/
theorem Query.failsInConstruction_statement {α : Type} {q : Query α}
    (h : FailsInConstruction q.conditions.pending.check) :
    FailsInConstruction (q.statement prepare) := by
  have hentity : FailsInConstruction q.entity := by
    unfold entity
    split
    next => exact .error rfl
    next n ns _ => exact FailsInConstruction.soleEntity _ n ns
  exact .bind h fun _ => .bind hentity fun e => .bind (checkEntity _ e) fun _ =>
    .bind (clauses _) fun _ => .ok _

theorem RowCount.failsInConstruction_statement {c : RowCount}
    (h : FailsInConstruction c.conditions.pending.check) :
    FailsInConstruction (c.statement prepare) := by
  refine .bind h fun _ => ?_
  cases c.entity.or c.conditions.firstEntity? with
  | none => exact .error rfl
  | some e =>
    exact .bind (.ok e) fun e => .bind (checkEntity _ e) fun _ => .bind (clauses _) fun _ => .ok _

theorem RowUpdate.failsInConstruction_statement {u : RowUpdate}
    (h : FailsInConstruction u.conditions.pending.check) :
    FailsInConstruction (u.statement prepare) := by
  have hentity : FailsInConstruction u.entity := by
    unfold entity
    split
    next n ns _ => exact FailsInConstruction.soleEntity _ n ns
    next =>
      split
      next => exact .ok _
      next => exact .error rfl
  refine .bind h fun _ => .bind hentity fun e => .bind (checkEntity _ e) fun _ => ?_
  split
  next => exact .error rfl
  next =>
    split
    next => exact .error rfl
    next => exact .bind (clauses _) fun _ => .bind (clauses _) fun _ => .ok _

theorem RowInsert.failsInConstruction_statement {i : RowInsert}
    (h : FailsInConstruction i.pending.check) : FailsInConstruction (i.statement prepare) := by
  have hentity : FailsInConstruction i.entity := by
    unfold entity
    split
    next n ns _ => exact FailsInConstruction.soleEntity _ n ns
    next => exact .error rfl
  exact .bind h fun _ => .bind hentity fun _ => .ok _

theorem RowDelete.failsInConstruction_statement {d : RowDelete}
    (h : FailsInConstruction d.conditions.pending.check) :
    FailsInConstruction (d.statement prepare) := by
  refine .bind h fun _ => .bind (checkEntity _ _) fun _ => ?_
  split
  next => exact .ok _
  next =>
    split
    next => exact .error rfl
    next => exact .bind (clauses _) fun _ => .bind (clauses _) fun _ => .ok _

end

/-! ## Operations without a statement -/

/-- Another series is not counted with a series. -/
theorem Metrics.mem_bump {s t : Series} (h : t ≠ s) {n : Nat} :
    ∀ {events : List (Series × Nat)}, (t, n) ∈ bump s events ↔ (t, n) ∈ events
  | [] => by simp [bump, h]
  | (t', m) :: events => by
    unfold bump
    split
    next heq =>
      subst heq
      simp [h]
    next => rw [List.mem_cons, List.mem_cons, mem_bump h]

/-- One state is like another but for the number of operations that ran: nothing was sent, and
caches, units, hooks, log and counts are as they were. -/
structure State.IsIdle {σ : Type} (w w' : State σ) : Prop where
  database : w'.database = w.database
  cache : w'.cache = w.cache
  units : w'.units = w.units
  events : w'.events = w.events
  hooks : w'.hooks = w.hooks
  hits : w'.metrics.hits = w.metrics.hits
  misses : w'.metrics.misses = w.metrics.misses
  requests : w'.metrics.requests = w.metrics.requests
  databaseMicros : w'.metrics.databaseMicros = w.metrics.databaseMicros
  series : ∀ t n, (∀ operation, t ≠ .requestDuration operation) →
    ((t, n) ∈ w'.metrics.events ↔ (t, n) ∈ w.metrics.events)

/-- What becomes of an operation whose first error is known. -/
structure Reports {σ α : Type} (first : Option Error) (statement : Except Error Statement)
    (build : State σ → Outcome σ Statement) (run : Option Nat → State σ → Outcome σ α) :
    Prop where
  /-- A first error of construction is why there is no statement. -/
  kept : ∀ e, first = some e → e.isConstruction = true → statement = .error e
  /-- Any other first error is told as one of construction. -/
  told : ∀ e, first = some e → e.isConstruction = false →
    statement = .error (.mapping (.reported e.message))
  /-- There are no other reasons for an operation to have no statement. -/
  construction : ∀ e, statement = .error e → e.isConstruction = true
  /-- The text of the statement is missed for the same reason as the statement. -/
  unwritten : ∀ e, statement = .error e → ∀ w,
    (build w).1.map Statement.cql = .error e ∧ w.IsIdle (build w).2
  /-- Without a statement an operation does nothing, in any unit or in none. -/
  unsent : ∀ e, statement = .error e → ∀ unit w,
    (run unit w).1 = .error e ∧ w.IsIdle (run unit w).2

section

variable {σ : Type} {s : Session σ}

theorem State.IsIdle.refl (w : State σ) : w.IsIdle w :=
  ⟨rfl, rfl, rfl, rfl, rfl, rfl, rfl, rfl, rfl, fun _ _ _ => Iff.rfl⟩

/-- To count a call is no work for caches and database. -/
theorem State.isIdle_completed (w : State σ) (k : OperationKind) : w.IsIdle (w.completed k) :=
  ⟨rfl, rfl, rfl, rfl, rfl, rfl, rfl, rfl, rfl, fun _ _ h => Metrics.mem_bump (h _)⟩

/-- An operation that fails in construction is counted as one that ran. -/
theorem counted_of_construction {α : Type} {k : OperationKind} {run : State σ → Outcome σ α}
    {w : State σ} {e : Error} (h : run w = (.error e, w)) (he : e.isConstruction = true) :
    (Session.counted k run w).1 = .error e ∧ w.IsIdle (Session.counted k run w).2 := by
  have hbroken : (run w).1 ≠ .error .brokenOff := by
    rw [h]
    intro hbroken
    rw [Except.error.inj hbroken] at he
    exact absurd he Bool.false_ne_true
  rw [counted_of_completed hbroken, h]
  exact ⟨rfl, w.isIdle_completed k⟩

/-- What becomes of an operation follows from what the operation keeps, from what its
statement may fail with, and from what it does without one. -/
theorem Reports.of_pending {α : Type} {first : Option Error} {p : Pending}
    {statement : Except Error Statement} {build : State σ → Outcome σ Statement}
    {run : Option Nat → State σ → Outcome σ α} (hfirst : p.first = first.map Pending.kept)
    (hpending : ∀ e, p.first = (some e).map Pending.kept → statement = .error (Pending.kept e))
    (hfails : FailsInConstruction p.check → FailsInConstruction statement)
    (hbuild : ∀ e, statement = .error e → ∀ w, build w = (.error e, w))
    (hrun : ∀ e, statement = .error e → e.isConstruction = true → ∀ unit w,
      (run unit w).1 = .error e ∧ w.IsIdle (run unit w).2) :
    Reports first statement build run where
  kept e hsome he := by
    rw [hpending e (by rw [hfirst, hsome]), Pending.kept_of_isConstruction he]
  told e hsome he := by
    rw [hpending e (by rw [hfirst, hsome]), Pending.kept_of_not_isConstruction he]
  construction := hfails (.check hfirst)
  unwritten e h w := by
    rw [hbuild e h w]
    exact ⟨rfl, .refl w⟩
  unsent e h := hrun e h (hfails (.check hfirst) e h)

/-- A statement that cannot be built is not sent, and no cache is asked. -/
theorem Query.build_of_error {α : Type} {q : Query α} {e : Error}
    (h : q.statement s.prepare = .error e) (w : State σ) : q.build s w = (.error e, w) := by
  rw [build, h]

/-- A count that has no statement does not come to a number. -/
theorem RowCount.run_of_error {c : RowCount} {e : Error} (h : c.statement s.prepare = .error e)
    (he : e.isConstruction = true) (unit : Option Nat) (w : State σ) :
    (c.run s unit w).1 = .error e ∧ w.IsIdle (c.run s unit w).2 := by
  have hfetch : c.fetch s unit w = (.error e, w) := by
    rw [fetch, build, h]
  obtain ⟨hresult, hidle⟩ := counted_of_construction (k := .count) hfetch he
  unfold run
  generalize Session.counted .count (c.fetch s unit) w = outcome at hresult hidle
  obtain ⟨result, w'⟩ := outcome
  obtain rfl : result = .error e := hresult
  exact ⟨rfl, hidle⟩

theorem RowDelete.build_of_error {d : RowDelete} {e : Error}
    (h : d.statement s.prepare = .error e) (w : State σ) : d.build s w = (.error e, w) := by
  rw [build, h]

end

/-- However an operation is put together, by any calls in any order: if one of them went wrong, the
error of the first that did is what the operation fails with wherever its statement is built or
written out or it is run, in a unit or outside of all. An error of construction is reported as it
is, and any other as one that tells its text. A statement is never refused for another reason than
an error of construction, and then nothing is sent, and nothing changes in the caches, in the units
and in what is counted of them and of the database. -/
theorem first_error_wins {σ : Type} (s : Session σ) :
    (∀ {α : Type} {q : Query α} {first : Option Error}, q.Made first →
      Reports first (q.statement s.prepare) (q.build s) (q.run s)) ∧
    (∀ {α : Type} {q : PointQuery α} {first : Option Error}, q.Made first →
      Reports first (q.statement s.prepare) (q.build s) (q.run s)) ∧
    (∀ {c : RowCount} {first : Option Error}, c.Made first →
      Reports first (c.statement s.prepare) (c.build s) (c.run s)) ∧
    (∀ {u : RowUpdate} {first : Option Error}, u.Made first →
      Reports first (u.statement s.prepare) (u.build s) (u.run s)) ∧
    (∀ {i : RowInsert} {first : Option Error}, i.Made first →
      Reports first (i.statement s.prepare) (i.build s) (i.run s)) ∧
    ∀ {d : RowDelete} {first : Option Error}, d.Made first →
      Reports first (d.statement s.prepare) (d.build s) (d.run s) := by
  refine ⟨fun h => ?query, fun h => ?single, fun h => ?count, fun h => ?update, fun h => ?insert,
    fun h => ?delete⟩
  case query =>
    refine .of_pending h.first_eq (fun e he => Pending.check_bind he _)
      Query.failsInConstruction_statement (fun e he => Query.build_of_error he)
      fun e he hconstruction unit w => counted_of_construction ?_ hconstruction
    rw [Query.fetch, Query.build_of_error he]
  case single =>
    refine .of_pending h.first_eq (fun e he => Pending.check_bind he _)
      Query.failsInConstruction_statement (fun e he => Query.build_of_error he)
      fun e he hconstruction unit w => counted_of_construction ?_ hconstruction
    rw [PointQuery.answer, PointQuery.build, Query.build_of_error he]
  case count =>
    -- a count runs on after it was counted as an operation, with a number to make of its rows
    refine .of_pending h.first_eq (fun e he => Pending.check_bind he _)
      RowCount.failsInConstruction_statement (fun e he w => by rw [RowCount.build, he])
      fun e he hconstruction unit w => RowCount.run_of_error he hconstruction unit w
  case update =>
    refine .of_pending h.first_eq (fun e he => Pending.check_bind he _)
      RowUpdate.failsInConstruction_statement (fun e he w => by rw [RowUpdate.build, he])
      fun e he hconstruction unit w => counted_of_construction ?_ hconstruction
    rw [RowUpdate.apply, RowUpdate.build, he]
  case insert =>
    refine .of_pending h.first_eq (fun e he => Pending.check_bind he _)
      RowInsert.failsInConstruction_statement (fun e he w => by rw [RowInsert.build, he])
      fun e he hconstruction unit w => counted_of_construction ?_ hconstruction
    rw [RowInsert.apply, RowInsert.build, he]
  case delete =>
    refine .of_pending h.first_eq (fun e he => Pending.check_bind he _)
      RowDelete.failsInConstruction_statement (fun e he => RowDelete.build_of_error he)
      fun e he hconstruction unit w => counted_of_construction ?_ hconstruction
    rw [RowDelete.apply, RowDelete.build_of_error he]

namespace User

/-- Reads the ages of users, in an order that users do not have, of those that a search finds which
has failed. -/
def misordered : Query Row :=
  Restricted.where_ ((Query.raw.column entity "age").orderBy entity "age" .ascending)
    (.error (.driver "down"))

/-- The order is refused first, also of the query's first row. Where the search alone has failed,
its error is told. -/
theorem misordered_reports :
    misordered.statement .identity = .error (.mapping (.notClustering "User.age")) ∧
    (misordered.single.run session (some 0) opened).1 =
      .error (.mapping (.notClustering "User.age")) ∧
    opened.IsIdle (misordered.single.run session (some 0) opened).2 ∧
    (Restricted.where_ Query.raw (.error (.driver "down"))).statement .identity =
      .error (.mapping (.reported "Driver error: down")) := by
  have hmade : misordered.Made (some (.mapping (.notClustering "User.age"))) :=
    ((Query.Made.raw.column entity "age").orderBy entity "age" .ascending).shared
      (.where_ (.error (.driver "down")))
  have hfailed : (Restricted.where_ Query.raw (.error (.driver "down"))).Made
      (some (.driver "down")) := Query.Made.raw.shared (.where_ (.error (.driver "down")))
  obtain ⟨hquery, hsingle, -⟩ := first_error_wins session
  have hkept := (hquery hmade).kept _ rfl rfl
  have hunsent := (hsingle (.single hmade)).unsent _ ((hsingle (.single hmade)).kept _ rfl rfl)
    (some 0) opened
  exact ⟨hkept, hunsent.1, hunsent.2, (hquery hfailed).told _ rfl rfl⟩

end User

end WideRow
