import WideRow.Proofs.Charges
import WideRow.Sample.Script

/-!
# Statements that are refused

The executor may refuse a statement, and the database may leave a conditional write undone. Either
way the caches stay as they are (`State.KeepsCaches`), whatever they were, and the operation tells
what it was told. Where a write was carried out, the caches follow it, which cannot fail as long as
every row that they have has a cell for each of its columns.

> `refusals_leave_caches`: an error of the executor is what the operation fails with, an answer that
> says that a write was not applied is its result, and neither changes an entry of a cache; a write
> whose statement was sent comes to what the executor said, unless a row that lacks a cell breaks it
> off.
-/

namespace WideRow

/-! ## Caches that are kept -/

/-- A unit without what it has counted and how long it took. -/
def UnitOfWork.uncounted (u : UnitOfWork) : UnitOfWork :=
  { u with
    cacheOperations := 0
    databaseOperations := 0
    cacheTime := .zero
    databaseTime := .zero }

/-- The account of a unit without what it has counted. -/
def UnitAccount.uncounted (a : UnitAccount) : UnitAccount :=
  { a with cacheOperations := 0, databaseOperations := 0 }

/-- What a unit knows and its account, counts and times apart, are all of it. -/
theorem UnitOfWork.uncounted_eq_of {u u' : UnitOfWork} (hknows : u'.knowledge = u.knowledge)
    (haccount : u'.account.uncounted = u.account.uncounted) : u'.uncounted = u.uncounted := by
  simp only [knowledge, Prod.mk.injEq] at hknows
  simp only [account, UnitAccount.uncounted, UnitAccount.mk.injEq] at haccount
  simp only [uncounted, mk.injEq]
  grind

/-- The session cache has the entries that it had, and so has every unit, which is the same but for
counts and times. No hook has run. -/
structure State.KeepsCaches {σ : Type} (w w' : State σ) : Prop where
  cache : w'.cache = w.cache
  units : ∀ i, (w'.units.get? i).map UnitOfWork.uncounted =
    (w.units.get? i).map UnitOfWork.uncounted
  hooks : w'.hooks = w.hooks

section

variable {σ : Type} {s : Session σ} {unit : Option Nat} {w w' : State σ} {db : σ}
  {sent answered missed : Nat}

/-- Accounts that were charged are the same but for the counts. -/
theorem State.Spends.accounts_uncounted (h : w.Spends s unit sent answered missed w') (i : Nat) :
    (w'.units.accounts[i]?).map UnitAccount.uncounted =
      (w.units.accounts[i]?).map UnitAccount.uncounted := by
  rw [h.accounts]
  cases unit with
  | none => rfl
  | some j =>
    rw [Option.elim, List.getElem?_modify]
    cases w.units.accounts[i]? with
    | none => rfl
    | some a => by_cases hij : j = i <;> simp [hij, UnitAccount.uncounted, UnitAccount.charge]

/-- What spends something, and leaves alone what the caches know, keeps the caches. -/
theorem State.Spends.keepsCaches (h : w.Spends s unit sent answered missed w')
    (hmoved : w.Moved db w') : w.KeepsCaches w' where
  cache := hmoved.cache
  units i := by
    have haccounts := h.accounts_uncounted i
    simp only [Units.accounts, List.getElem?_map, Option.map_map] at haccounts
    have hknows := hmoved.units i
    unfold Units.get? at hknows ⊢
    cases hu : w.units.list[i]? with
    | none => simpa [hu] using hknows
    | some u =>
      cases hu' : w'.units.list[i]? with
      | none => simp [hu, hu'] at hknows
      | some u' =>
        simp only [hu, hu', Option.map_some, Option.some.injEq] at hknows haccounts ⊢
        exact UnitOfWork.uncounted_eq_of hknows haccounts
  hooks := h.hooks

end

/-! ## Operations that write -/

/-- An operation that writes. -/
inductive Write where
  | insert (x : RowInsert)
  | update (u : RowUpdate)
  | delete (d : RowDelete)

namespace Write

/-- The write as an operation. -/
def call : Write → Call
  | insert x => .insert x
  | update u => .update u
  | delete d => .delete d

/-- How the write is counted. -/
def kind : Write → OperationKind
  | insert _ => .insert
  | update _ => .update
  | delete _ => .delete

/-- What is logged before the statement is sent. -/
def warnings (st : Statement) : Write → List Event
  | insert _ | update _ => []
  | delete d => d.warnings st

section

variable {σ : Type}

/-- How the caches follow the write where it was carried out. -/
def through (prepare : ValuePreparer) (unit : Option Nat) : Write → State σ → Outcome σ Unit
  | insert x => x.writeThrough prepare unit
  | update u => u.writeThrough prepare unit
  | delete d => d.writeThrough prepare unit

/-- Runs the write. -/
def run (s : Session σ) (unit : Option Nat) : Write → State σ → Outcome σ ResultSet
  | insert x => x.run s unit
  | update u => u.run s unit
  | delete d => d.run s unit

end

end Write

section

variable {σ : Type} {s : Session σ} {unit : Option Nat} {w w' : State σ} {db : σ}
  {st : Statement} {e : Error} {answer : ResultSet}

/-- A call is counted whatever it did. -/
theorem counted_congr {α : Type} {k : OperationKind} {run run' : State σ → Outcome σ α}
    (h : run w = run' w') : Session.counted k run w = Session.counted k run' w' := by
  unfold Session.counted
  rw [h]

/-- All writes are run alike. -/
theorem Write.run_eq {x : Write} (hst : x.call.statement s.prepare = .ok st) (unit : Option Nat)
    (w : State σ) : x.run s unit w = Session.counted x.kind
      (s.write unit x.kind x.call.options st (x.through s.prepare unit))
      { w with events := w.events ++ x.warnings st } := by
  cases x with
  | insert x =>
    have hst' : x.statement s.prepare = .ok st := hst
    refine counted_congr ?_
    rw [RowInsert.apply, RowInsert.build, hst']
    simp only [warnings, List.append_nil]
    rfl
  | update u =>
    have hst' : u.statement s.prepare = .ok st := hst
    refine counted_congr ?_
    rw [RowUpdate.apply, RowUpdate.build, hst']
    simp only [warnings, List.append_nil]
    rfl
  | delete d =>
    have hst' : d.statement s.prepare = .ok st := hst
    refine counted_congr ?_
    rw [RowDelete.apply, RowDelete.build, hst']
    rfl

/-- Sending the statement of a write moves the database. -/
theorem Write.moved_sent (x : Write) (unit : Option Nat) (st : Statement) (w : State σ) :
    w.Moved (s.reply x.call.options st w.database).2 (s.execute unit x.kind x.call.options st
      { w with events := w.events ++ x.warnings st }).2 :=
  (w.moved_events (w.events ++ x.warnings st)).trans moved_execute

/-- A write that was not carried out tells what the executor said, and leaves the caches alone. -/
theorem Write.run_of_not_applied {x : Write} (hst : x.call.statement s.prepare = .ok st)
    (unit : Option Nat)
    (h : (s.reply x.call.options st w.database).1.bind ResultSet.wasApplied ≠ .ok true) :
    (x.run s unit w).1 =
        (s.reply x.call.options st w.database).1.bind ResultSet.acknowledged ∧
      w.Moved (s.reply x.call.options st w.database).2 (x.run s unit w).2 := by
  have hcounted := moved_counted (k := x.kind)
    (w := { w with events := w.events ++ x.warnings st })
    (s.write unit x.kind x.call.options st (x.through s.prepare unit))
  have hsent := x.moved_sent (s := s) unit st w
  rw [x.run_eq hst, counted_fst]
  rw [write_of_not_applied (by rw [execute_fst]; exact h)] at hcounted ⊢
  have hmoved := hsent.trans hcounted
  rw [hsent.database] at hmoved
  exact ⟨by rw [execute_fst], hmoved⟩

/-! ## Following a write that was carried out -/

/-- Once its statement was built, a write is followed unless that breaks off. -/
theorem Write.breaksOffOnly_through {x : Write} (hst : x.call.statement s.prepare = .ok st)
    (unit : Option Nat) (w : State σ) : BreaksOffOnly (x.through s.prepare unit w).1 := by
  cases x with
  | insert x => exact x.breaksOffOnly_writeThrough hst w
  | update u => exact u.breaksOffOnly_writeThrough hst w
  | delete d => exact d.breaksOffOnly_writeThrough w

variable {prepare : ValuePreparer} {entity : Entity}

/-- Full rows can follow an insert. -/
theorem RowInsert.writeThrough_fst (x : RowInsert) (he : x.entity = .ok entity)
    (hfull : w.HasFullRows) : (x.writeThrough prepare unit w).1 = .ok () := by
  have hkeys := Entity.keysOfRow_of_full (e := entity) .update (Row.isFull_row_insert prepare x)
  by_cases hnil : entity.shapeKeys (x.row prepare).valueAt = []
  · rw [hnil] at hkeys
    rw [writeThrough_of_no_keys he hkeys]
  cases unit with
  | some i =>
    obtain ⟨after, hafter, hafull, -⟩ := Row.merge_spec
      (hfull.shown i (entity.shapeKeys (x.row prepare).valueAt)) (x.row prepare)
    obtain ⟨promote, hthrough⟩ := x.writeThrough_in_unit he rfl hnil hafter hafull
    rw [hthrough]
  | none =>
    by_cases hadmits : (⟨.update, some entity⟩ : CachePolicy).admits w.cache = true
    · obtain ⟨after, hafter, hafull, -⟩ := Row.merge_spec
        (hfull.getD (entity.shapeKeys (x.row prepare).valueAt)) (x.row prepare)
      rw [x.writeThrough_outside he rfl hnil hadmits hafter hafull]
    · rw [writeThrough_of_refused he hkeys hadmits]

/-- Full rows can follow an update. -/
theorem RowUpdate.writeThrough_fst (u : RowUpdate) (he : u.entity = .ok entity)
    (hfull : w.HasFullRows) : (u.writeThrough prepare unit w).1 = .ok () := by
  generalize hkeys : u.conditions.keys ⟨.update, some entity⟩ prepare = keys
  cases unit with
  | some i =>
    by_cases hnil : keys = []
    · rw [writeThrough_of_no_keys he (hkeys.trans hnil)]
    · have hbefore := hfull.before ⟨.update, some entity⟩ keys i
      obtain ⟨after, hafter, hafull, -⟩ := u.exists_following prepare hbefore
      obtain ⟨promote, hthrough⟩ := u.writeThrough_in_unit he hkeys hnil rfl hbefore hafter hafull
      rw [hthrough]
  | none =>
    by_cases hadmits : (⟨.update, some entity⟩ : CachePolicy).admits w.cache = true
    · by_cases hnil : keys = []
      · rw [writeThrough_of_no_keys_outside he hadmits (hkeys.trans hnil)]
      · obtain ⟨after, hafter, hafull, -⟩ := u.exists_following prepare (hfull.getD keys)
        rw [u.writeThrough_outside he hkeys hnil hadmits rfl (hfull.getD keys) hafter hafull]
    · rw [writeThrough_of_refused he hadmits]

/-- Full rows have keys to be dropped by. -/
theorem CachePolicy.exists_keysOfRow (p : CachePolicy) {r : Row} (hr : r.IsFull) :
    ∃ keys, p.keysOfRow r = .ok keys := by
  obtain ⟨facets, hfacets⟩ := p.exists_facetsOfRow hr
  exact ⟨Facet.keys facets, keysOfRow_of_facets hfacets⟩

/-- With full rows an eviction does not fail. -/
theorem CachePolicy.exists_evict (p : CachePolicy) (hfull : w.HasFullRows) (keys : List String) :
    ∃ c, p.evict w.cache keys = .ok c := by
  unfold evict
  split
  next => split <;> exact ⟨_, rfl⟩
  next =>
    cases hget : w.cache.get? keys with
    | none => exact ⟨_, rfl⟩
    | some r =>
      obtain ⟨bound, hbound⟩ := p.exists_keysOfRow (hfull.get? hget)
      exact ⟨_, bind_eq_ok.2 ⟨bound, hbound, rfl⟩⟩

/-- With full rows the keys of a delete can be found. -/
theorem RowDelete.exists_deletedKeys (p : CachePolicy) (hfull : w.HasFullRows)
    (keys : List String) (i : Nat) : ∃ all, deletedKeys p keys i w.units w.cache = .ok all := by
  rw [deletedKeys_eq]
  cases hknown : known? keys i w.units w.cache with
  | none => exact ⟨keys, rfl⟩
  | some r =>
    have hr : r.IsFull := by
      unfold known? at hknown
      split at hknown
      next hlookup =>
        obtain rfl := Option.some.inj hknown
        exact hfull.lookup hlookup
      next => exact hfull.get? hknown
    obtain ⟨bound, hbound⟩ := p.exists_keysOfRow hr
    exact ⟨keys ++ bound, by rw [Option.elim, hbound]; rfl⟩

/-- Full rows can follow a delete. -/
theorem RowDelete.writeThrough_fst (d : RowDelete) (hfull : w.HasFullRows) :
    (d.writeThrough prepare unit w).1 = .ok () := by
  unfold writeThrough
  cases unit with
  | none =>
    obtain ⟨c, hc⟩ := CachePolicy.exists_evict ⟨.delete, some d.entity⟩ hfull
      (if d.isTruncate = true then [] else d.conditions.keys ⟨.delete, some d.entity⟩ prepare)
    simp only [hc]
  | some i =>
    dsimp only
    split
    next => rfl
    next =>
      split
      next => rfl
      next =>
        obtain ⟨all, hall⟩ := exists_deletedKeys ⟨.delete, some d.entity⟩ hfull
          (d.conditions.keys ⟨.delete, some d.entity⟩ prepare) i
        rw [hall]

/-- Full rows can follow a write whose statement was built. -/
theorem Write.through_fst {x : Write} (hst : x.call.statement s.prepare = .ok st)
    (unit : Option Nat) (hfull : w.HasFullRows) : (x.through s.prepare unit w).1 = .ok () := by
  cases x with
  | insert x =>
    obtain ⟨entity, he, -⟩ := RowInsert.of_statement hst
    exact x.writeThrough_fst he hfull
  | update u =>
    obtain ⟨entity, -, -, he, -⟩ := RowUpdate.of_statement hst
    exact u.writeThrough_fst he hfull
  | delete d => exact d.writeThrough_fst hfull

/-- Every row of an answer has a cell for each of its columns. -/
def ResultSet.IsFull (answer : ResultSet) : Prop := ∀ r ∈ answer.rows, r.IsFull

/-- An answer with full rows tells whether a write was applied. -/
theorem ResultSet.IsFull.exists_wasApplied (h : answer.IsFull) :
    ∃ applied, answer.wasApplied = .ok applied := by
  unfold wasApplied
  cases hfirst : answer.first? with
  | none => exact ⟨true, rfl⟩
  | some row =>
    dsimp only
    rw [Row.find?_eq (h row (List.mem_of_head? hfirst))]
    split
    next hcell => cases hcell
    next b _ => exact ⟨b, rfl⟩
    next => exact ⟨true, rfl⟩

/-- An answer that says whether it was applied is passed on. -/
theorem ResultSet.acknowledged_of_wasApplied {applied : Bool}
    (h : answer.wasApplied = .ok applied) : answer.acknowledged = .ok answer := by
  rw [acknowledged, h]
  rfl

/-- The answer to a write is taken as it is, unless reading in it breaks off. -/
theorem ResultSet.bind_acknowledged (reply : Except Error ResultSet) :
    reply.bind acknowledged = reply ∨ reply.bind acknowledged = .error .brokenOff := by
  cases reply with
  | error e => exact .inl rfl
  | ok answer =>
    rw [Except.bind, acknowledged]
    cases happlied : answer.wasApplied with
    | ok applied => exact .inl rfl
    | error e =>
      obtain rfl := answer.breaksOffOnly_wasApplied e happlied
      exact .inr rfl

/-- A write whose statement was sent comes to what the executor said, unless it breaks off. -/
theorem Write.run_fst {x : Write} (hst : x.call.statement s.prepare = .ok st) :
    (x.run s unit w).1 = (s.reply x.call.options st w.database).1 ∨
      (x.run s unit w).1 = .error .brokenOff := by
  by_cases happlied :
      (s.reply x.call.options st w.database).1.bind ResultSet.wasApplied = .ok true
  · rw [x.run_eq hst, counted_fst,
      write_eq_of_applied (by rw [execute_fst]; exact happlied), execute_fst]
    have hbroken := x.breaksOffOnly_through hst unit
      (s.execute unit x.kind x.call.options st { w with events := w.events ++ x.warnings st }).2
    generalize x.through s.prepare unit _ = followed at hbroken ⊢
    obtain ⟨done, w₁⟩ := followed
    cases done with
    | ok _ => exact ResultSet.bind_acknowledged _
    | error e => exact .inr (congrArg _ (hbroken e rfl))
  · rw [(x.run_of_not_applied hst unit happlied).1]
    exact ResultSet.bind_acknowledged _

/-- Where all rows are full, in the caches and in the answer, a write whose statement was sent comes
to what the executor said. -/
theorem Write.run_fst_of_full {x : Write} (hst : x.call.statement s.prepare = .ok st)
    (hfull : w.HasFullRows)
    (hanswer : ∀ answer, (s.reply x.call.options st w.database).1 = .ok answer → answer.IsFull) :
    (x.run s unit w).1 = (s.reply x.call.options st w.database).1 := by
  have hacknowledged : (s.reply x.call.options st w.database).1.bind ResultSet.acknowledged =
      (s.reply x.call.options st w.database).1 := by
    cases hreply : (s.reply x.call.options st w.database).1 with
    | error e => rfl
    | ok answer =>
      obtain ⟨applied, happlied⟩ := (hanswer answer hreply).exists_wasApplied
      exact ResultSet.acknowledged_of_wasApplied happlied
  by_cases happlied :
      (s.reply x.call.options st w.database).1.bind ResultSet.wasApplied = .ok true
  · have hsent := x.moved_sent (s := s) unit st w
    have hfollowed := x.through_fst hst unit (hfull.moved hsent)
    rw [x.run_eq hst, counted_fst,
      write_of_applied (by rw [execute_fst]; exact happlied) (Prod.ext hfollowed rfl), execute_fst]
    exact hacknowledged
  · rw [(x.run_of_not_applied hst unit happlied).1]
    exact hacknowledged

/-! ## Statements that are sent -/

/-- A call sends a statement: its statement is built, and a lookup is not answered by a cache nor
broken off by one. -/
def Call.Sends (s : Session σ) (unit : Option Nat) (w : State σ) (st : Statement) (c : Call) :
    Prop :=
  c.statement s.prepare = .ok st ∧
    match c with
    | lookup q => (q.single.plan s.prepare).Misses unit w
    | _ => True

/-- What sends nothing unless its statement is built leaves the database as it is where it is
not. -/
theorem Session.Reaches.eq_of_unbuilt {statement : Except Error Statement} {db' : σ}
    (hreaches : s.Reaches (sentOf statement) db db') (h : ∀ st, statement ≠ .ok st) : db' = db := by
  cases statement with
  | error e => exact hreaches.eq_of_zero
  | ok st => exact absurd rfl (h st)

/-- A call that sends no statement leaves the database as it is. -/
theorem Call.database_of_not_sends {c : Call} (h : ∀ st, ¬ c.Sends s unit w st) :
    (c.run s unit w).2.database = w.database := by
  cases c with
  | lookup q =>
    cases hst : q.single.statement s.prepare with
    | error e => exact (spends_lookup_of_error hst unit w).database.eq_of_zero
    | ok st =>
      obtain ⟨sent, hspends, -, -, hnone⟩ := spends_lookup hst unit w
      obtain rfl := hnone fun hmisses => h st ⟨hst, hmisses⟩
      exact hspends.database.eq_of_zero
  | read q => exact (spends_read q w).database.eq_of_unbuilt fun st hst => h st ⟨hst, trivial⟩
  | count x => exact (spends_count x w).database.eq_of_unbuilt fun st hst => h st ⟨hst, trivial⟩
  | insert x => exact (spends_insert x w).database.eq_of_unbuilt fun st hst => h st ⟨hst, trivial⟩
  | update u => exact (spends_update u w).database.eq_of_unbuilt fun st hst => h st ⟨hst, trivial⟩
  | delete d => exact (spends_delete d w).database.eq_of_unbuilt fun st hst => h st ⟨hst, trivial⟩

theorem State.Moved.self (h : w.Moved db w') : w.Moved w'.database w' := by
  rw [h.database]
  exact h

/-- A lookup that misses and whose statement is refused follows the database, and moves nothing
else. -/
theorem follows_of_refused_lookup {α : Type} {q : Query α}
    (hmisses : (q.single.plan s.prepare).Misses unit w)
    (hst : q.single.statement s.prepare = .ok st)
    (hreply : (s.reply q.options st w.database).1 = .error e) :
    Call.Follows s (fun w' => w.Moved w'.database w') (.lookup q) w (q.single.run s unit w) := by
  refine lookup_follows (ignoresCounts_moved w) (.refl w) fun st' hst' w₁ hw₁ => ?_
  obtain rfl : st = st' := Except.ok.inj (hst.symm.trans hst')
  obtain ⟨populate, hmiss⟩ := hmisses
  rw [← PointQuery.Plan.fst_resolve_of_moved hw₁] at hmiss
  have hmoved := PointQuery.Plan.Misses.moved ⟨populate, hmiss⟩
  rw [hw₁.database] at hmoved
  refine ⟨.miss populate, _, Prod.ext hmiss rfl, hmoved.database, fun w₃ hw₃ => ⟨?_, ?_⟩⟩
  · exact ((hw₁.trans hmoved).trans hw₃).self
  · -- there is no answer whose row could go into the caches
    intro _ answer r hanswer
    cases hreply.symm.trans hanswer

/-- A call whose statement is refused fails as the executor did, and leaves the caches alone. -/
theorem Call.run_of_refused {c : Call} (hsends : c.Sends s unit w st)
    (hreply : (s.reply c.options st w.database).1 = .error e) :
    (c.run s unit w).1 = .error e ∧
      w.Moved (c.run s unit w).2.database (c.run s unit w).2 := by
  obtain ⟨hst, hasks⟩ := hsends
  -- what follows the database fails as the database does
  have hdirect : (c.direct s w.database).1 = .error e := by
    rw [direct_of_ok hst, hreply]
    rfl
  have hwrite : ∀ x : Write, x.call.statement s.prepare = .ok st →
      (s.reply x.call.options st w.database).1 = .error e →
      (x.run s unit w).1 = .error e ∧
        w.Moved (x.run s unit w).2.database (x.run s unit w).2 := by
    intro x hst hreply
    obtain ⟨hresult, hmoved⟩ := x.run_of_not_applied hst unit
      (by rw [hreply]; simp [Except.bind])
    rw [hreply] at hresult
    exact ⟨hresult, hmoved.self⟩
  cases c with
  | lookup q =>
    have hfollows := follows_of_refused_lookup hasks hst hreply
    exact ⟨hfollows.result.trans hdirect, hfollows.kept⟩
  | read q =>
    have hfollows : Call.Follows s (fun w' => w.Moved w'.database w') (.read q) w
        (q.run s unit w) :=
      read_follows (ignoresCounts_moved w) (.refl w) fun _ _ _ hw₁ => hw₁.self
    exact ⟨hfollows.result.trans hdirect, hfollows.kept⟩
  | count x =>
    have hfollows : Call.Follows s (fun w' => w.Moved w'.database w') (.count x) w
        (x.run s unit w) :=
      count_follows (ignoresCounts_moved w) (.refl w) fun _ _ _ hw₁ => hw₁.self
    exact ⟨hfollows.result.trans hdirect, hfollows.kept⟩
  | insert x => exact hwrite (.insert x) hst hreply
  | update u => exact hwrite (.update u) hst hreply
  | delete d => exact hwrite (.delete d) hst hreply

/-- Every call that leaves alone what the caches know keeps them. -/
theorem Call.keepsCaches {c : Call} (h : w.Moved db (c.run s unit w).2) :
    w.KeepsCaches (c.run s unit w).2 := by
  obtain ⟨_, _, _, hspends⟩ := c.exists_spends (s := s) unit w
  exact hspends.keepsCaches h

/-- A write that only moved the database keeps the caches. -/
theorem Write.keepsCaches {x : Write} (h : w.Moved db (x.run s unit w).2) :
    w.KeepsCaches (x.run s unit w).2 := by
  cases x with
  | insert x => exact Call.keepsCaches (c := .insert x) h
  | update u => exact Call.keepsCaches (c := .update u) h
  | delete d => exact Call.keepsCaches (c := .delete d) h

end

/-- Nothing that is refused changes a cache, whatever the caches are. A call that sends no statement
does not reach the database. One whose statement the executor refuses fails with the executor's
error. A write that was not applied results in the answer that says so. In both cases every entry of
the session cache and of every unit is as it was. And an operation that writes returns what the
executor said of its statement, an error or an answer, since following it in the caches never fails.
It may return nothing, where it breaks off at a row without a cell for each of its columns, in a
cache or in the answer. -/
theorem refusals_leave_caches {σ : Type} (s : Session σ) (unit : Option Nat) (w : State σ) :
    (∀ c : Call, (∀ st, ¬ c.Sends s unit w st) → (c.run s unit w).2.database = w.database) ∧
    (∀ (c : Call) (st : Statement) (e : Error), c.Sends s unit w st →
      (s.reply c.options st w.database).1 = .error e →
      (c.run s unit w).1 = .error e ∧ w.KeepsCaches (c.run s unit w).2) ∧
    (∀ (x : Write) (st : Statement) (answer : ResultSet), x.call.Sends s unit w st →
      (s.reply x.call.options st w.database).1 = .ok answer → answer.wasApplied = .ok false →
      (x.run s unit w).1 = .ok answer ∧ w.KeepsCaches (x.run s unit w).2) ∧
    ∀ (x : Write) (st : Statement), x.call.Sends s unit w st →
      (x.run s unit w).1 = (s.reply x.call.options st w.database).1 ∨
      (x.run s unit w).1 = .error .brokenOff ∧ ¬ (w.HasFullRows ∧
        ∀ answer, (s.reply x.call.options st w.database).1 = .ok answer → answer.IsFull) := by
  refine ⟨fun c h => Call.database_of_not_sends h, fun c st e hsends hreply => ?refused,
    fun x st answer hsends hreply hfalse => ?unapplied, fun x st hsends => ?sent⟩
  case refused =>
    obtain ⟨hresult, hmoved⟩ := c.run_of_refused hsends hreply
    exact ⟨hresult, c.keepsCaches hmoved⟩
  case unapplied =>
    obtain ⟨hresult, hmoved⟩ := x.run_of_not_applied hsends.1 unit
      (by rw [hreply, Except.bind, hfalse]; simp)
    rw [hreply, Except.bind, ResultSet.acknowledged_of_wasApplied hfalse] at hresult
    exact ⟨hresult, x.keepsCaches hmoved⟩
  case sent =>
    by_cases hfull : w.HasFullRows ∧
        ∀ answer, (s.reply x.call.options st w.database).1 = .ok answer → answer.IsFull
    · exact .inl (x.run_fst_of_full hsends.1 hfull.1 hfull.2)
    · exact (x.run_fst hsends.1).imp_right fun hbroken => ⟨hbroken, hfull⟩

namespace User

/-- A session that answers by a script. -/
def scripted : Session Script where
  executor := Script.executor

/-- A unit was opened on a session that knows Ann, and the next statement is answered so. -/
def answering (response : Except Error ResultSet) : State Script where
  database := { responses := [response] }
  cache := opened.cache
  units := opened.units

/-- Ann cannot be renamed while the executor is down, is not where the database refuses it, and is
where it does not. Her name is cached, so that it is known without a statement; asking for the name
of another user while the executor is down leaves the caches as they are. -/
theorem rename_refused :
    let down : State Script := answering (.error (.driver "down"))
    let refusing : State Script := answering (.ok (Script.applied false))
    let fine : State Script := answering (.ok .empty)
    ((rename 5 "Bea").run scripted (some 0) down).1 = .error (.driver "down") ∧
      down.KeepsCaches ((nameOf 6).single.run scripted (some 0) down).2 ∧
      ((rename 5 "Bea").run scripted (some 0) refusing).1 = .ok (Script.applied false) ∧
      refusing.KeepsCaches ((rename 5 "Bea").run scripted (some 0) refusing).2 ∧
      ((rename 5 "Bea").run scripted (some 0) fine).1 = .ok .empty ∧
      ((nameOf 5).single.run scripted (some 0) fine).2.database = fine.database := by
  intro down refusing fine
  obtain ⟨-, hdown, -⟩ := refusals_leave_caches scripted (some 0) down
  obtain ⟨-, -, hrefusing, -⟩ := refusals_leave_caches scripted (some 0) refusing
  obtain ⟨hunsent, -, -, hfine⟩ := refusals_leave_caches scripted (some 0) fine
  have hanother : ((nameOf 6).single.plan scripted.prepare).Misses (some 0) down := by
    decide +kernel
  have hcached : ¬ ((nameOf 5).single.plan scripted.prepare).Misses (some 0) fine := by
    decide +kernel
  have hrefused := hrefusing (.update (rename 5 "Bea")) _ (Script.applied false) ⟨rfl, trivial⟩
    rfl rfl
  have hfailed := (hdown (.lookup (nameOf 6)) _ (.driver "down") ⟨rfl, hanother⟩ rfl).2
  refine ⟨(hdown (.update (rename 5 "Bea")) _ _ ⟨rfl, trivial⟩ rfl).1, hfailed, hrefused.1,
    hrefused.2, ?_, hunsent (.lookup (nameOf 5)) fun st hsends => hcached hsends.2⟩
  -- nothing breaks off here
  have hended : ((rename 5 "Bea").run scripted (some 0) fine).1.isOk = true := by decide +kernel
  obtain hdone | ⟨hbroken, -⟩ := hfine (.update (rename 5 "Bea")) _ ⟨rfl, trivial⟩
  · exact hdone
  · rw [show ((rename 5 "Bea").run scripted (some 0) fine).1 = .error .brokenOff from hbroken]
      at hended
    cases hended

end User

end WideRow
