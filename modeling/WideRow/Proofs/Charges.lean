import WideRow.Proofs.CacheChanges
import WideRow.Proofs.Failures
import WideRow.Proofs.HitAndMiss

/-!
# What operations are charged

Every statement that is sent is counted for the session and for the unit that it is sent in. So is
every lookup that a cache answers, and a lookup in a unit that both caches miss counts against the
unit. `State.Spends` says of two states what was spent between them: how many statements the
executor was given, how many lookups were answered by a cache and how many were missed by both. All
else that stands in the books about a unit (`UnitAccount`), and the hooks that ran, is as it was.

> `spends_insert` and its siblings: an operation other than a lookup spends one statement if its
> statement is built, and nothing else;
> `spends_lookup`: a lookup spends nothing but a hit if a cache answers it, and otherwise no hit,
> and one statement unless a row of the caches breaks it off.
-/

namespace WideRow

/-! ## Accounts of units -/

/-- What stands in the books about a unit: all but what it knows and how long it took. -/
structure UnitAccount where
  label : String
  parent : Option Nat
  status : UnitStatus
  commitHooks : List String
  abortHooks : List String
  cacheOperations : Int
  databaseOperations : Int

/-- The account of a unit. -/
def UnitOfWork.account (u : UnitOfWork) : UnitAccount :=
  ⟨u.label, u.parent, u.status, u.commitHooks, u.abortHooks, u.cacheOperations,
    u.databaseOperations⟩

/-- Counts operations of the cache and of the database. -/
def UnitAccount.charge (a : UnitAccount) (cache database : Int) : UnitAccount :=
  { a with
    cacheOperations := a.cacheOperations + cache
    databaseOperations := a.databaseOperations + database }

theorem UnitAccount.charge_zero (a : UnitAccount) : a.charge 0 0 = a := by
  simp only [charge, Int.add_zero]

/-- Charges add up. -/
theorem UnitAccount.charge_charge (a : UnitAccount) (cache database cache' database' : Int) :
    (a.charge cache database).charge cache' database' =
      a.charge (cache + cache') (database + database') := by
  simp only [charge, Int.add_assoc]

/-- The accounts of all units. -/
def Units.accounts (us : Units) : List UnitAccount := us.list.map UnitOfWork.account

/-- What is made of the items of a list changes with them. -/
theorem map_modify {α β : Type} {f : α → β} {g : α → α} {k : β → β}
    (h : ∀ a, f (g a) = k (f a)) (l : List α) (i : Nat) :
    (l.modify i g).map f = (l.map f).modify i k := by
  refine List.ext_getElem? fun j => ?_
  rw [List.getElem?_map, List.getElem?_modify, List.getElem?_modify, List.getElem?_map]
  cases l[j]? with
  | none => rfl
  | some a => by_cases hij : i = j <;> simp [hij, h]

/-- What a change of an item keeps is kept of the whole list. -/
theorem map_modify_of_kept {α β : Type} {f : α → β} {g : α → α} (h : ∀ a, f (g a) = f a)
    (l : List α) (i : Nat) : (l.modify i g).map f = l.map f := by
  rw [map_modify (k := id) h, List.modify_id]

/-- The account of a unit changes with the unit. -/
theorem Units.accounts_modify (us : Units) {f : UnitOfWork → UnitOfWork}
    {g : UnitAccount → UnitAccount} (h : ∀ u, (f u).account = g u.account) (i : Nat) :
    (us.modify i f).accounts = us.accounts.modify i g := map_modify h us.list i

/-- A change that spends nothing leaves all accounts. -/
theorem Units.accounts_modify_of_kept (us : Units) {f : UnitOfWork → UnitOfWork}
    (h : ∀ u, (f u).account = u.account) (i : Nat) : (us.modify i f).accounts = us.accounts :=
  map_modify_of_kept h us.list i

/-! ## Spending -/

section

variable {σ : Type}

/-- One state of the database comes after another by so many statements. -/
inductive Session.Reaches (s : Session σ) : Nat → σ → σ → Prop
  | refl (db : σ) : s.Reaches 0 db db
  | step {n : Nat} {db db' : σ} (h : s.Reaches n db db') (st : Statement) (o : ExecutionOptions) :
    s.Reaches (n + 1) db (s.executor.execute st o db').2

/-- Between two states, statements were sent and lookups answered or missed, all of them in a unit
if there is one. -/
structure State.Spends (s : Session σ) (unit : Option Nat) (sent answered missed : Nat)
    (w w' : State σ) : Prop where
  database : s.Reaches sent w.database w'.database
  requests : w'.metrics.requests = w.metrics.requests + UInt64.ofNat sent
  hits : w'.metrics.hits = w.metrics.hits + UInt64.ofNat answered
  hooks : w'.hooks = w.hooks
  accounts : w'.units.accounts = unit.elim w.units.accounts fun i =>
    w.units.accounts.modify i (·.charge (answered - missed) sent)

variable {s : Session σ} {unit : Option Nat} {w w' w'' : State σ}

/-- Statements that are sent one after the other. -/
theorem Session.Reaches.trans {n m : Nat} {db db' db'' : σ} (h : s.Reaches n db db')
    (h' : s.Reaches m db' db'') : s.Reaches (n + m) db db'' := by
  induction h' with
  | refl => exact h
  | step _ st o ih => exact (ih h).step st o

/-- Without statements the database stays as it is. -/
theorem Session.Reaches.eq_of_zero {db db' : σ} (h : s.Reaches 0 db db') : db' = db := by
  cases h
  rfl

namespace State

/-- What leaves the database, the counts and the accounts alone spends nothing. -/
theorem Spends.of_eq (hdatabase : w'.database = w.database)
    (hrequests : w'.metrics.requests = w.metrics.requests)
    (hhits : w'.metrics.hits = w.metrics.hits) (hhooks : w'.hooks = w.hooks)
    (haccounts : w'.units.accounts = w.units.accounts) : w.Spends s unit 0 0 0 w' where
  database := by
    rw [hdatabase]
    exact .refl _
  requests := by rw [hrequests]; exact (UInt64.add_zero _).symm
  hits := by rw [hhits]; exact (UInt64.add_zero _).symm
  hooks := hhooks
  accounts := by
    rw [haccounts]
    cases unit with
    | none => rfl
    | some i =>
      have hnothing : (fun a : UnitAccount => a.charge ((0 : Nat) - (0 : Nat)) (0 : Nat)) = id :=
        funext UnitAccount.charge_zero
      simp only [Option.elim, hnothing, List.modify_id]

theorem Spends.refl (w : State σ) : w.Spends s unit 0 0 0 w := .of_eq rfl rfl rfl rfl rfl

/-- What is spent one after the other is spent together. -/
theorem Spends.trans {sent sent' answered answered' missed missed' : Nat}
    (h : w.Spends s unit sent answered missed w')
    (h' : w'.Spends s unit sent' answered' missed' w'') :
    w.Spends s unit (sent + sent') (answered + answered') (missed + missed') w'' where
  database := h.database.trans h'.database
  requests := by rw [h'.requests, h.requests, UInt64.add_assoc, UInt64.ofNat_add]
  hits := by rw [h'.hits, h.hits, UInt64.add_assoc, UInt64.ofNat_add]
  hooks := h'.hooks.trans h.hooks
  accounts := by
    rw [h'.accounts, h.accounts]
    cases unit with
    | none => rfl
    | some i =>
      simp only [Option.elim]
      rw [List.modify_modify_eq]
      congr 1
      funext a
      rw [Function.comp_apply, UnitAccount.charge_charge]
      congr 1
      omega

theorem spends_events (w : State σ) (events : List Event) :
    w.Spends s unit 0 0 0 { w with events } := .of_eq rfl rfl rfl rfl rfl

theorem spends_cache (w : State σ) (cache : SessionCache) :
    w.Spends s unit 0 0 0 { w with cache } := .of_eq rfl rfl rfl rfl rfl

/-- Entries of a unit cost nothing. -/
theorem spends_modifyUnit {f : UnitOfWork → UnitOfWork} (h : ∀ u, (f u).account = u.account)
    (i : Nat) : w.Spends s unit 0 0 0 (w.modifyUnit i f) :=
  .of_eq rfl rfl rfl rfl (w.units.accounts_modify_of_kept h i)

/-- To count a miss charges nobody: what a unit is charged for it is recorded apart. -/
theorem spends_miss (w : State σ) (scope : CacheScope) :
    w.Spends s unit 0 0 0 (w.miss scope) := .of_eq rfl rfl rfl rfl rfl

theorem spends_completed (w : State σ) (k : OperationKind) :
    w.Spends s unit 0 0 0 (w.completed k) := .of_eq rfl rfl rfl rfl rfl

/-- An answer of the session cache outside of units. -/
theorem spends_hit (w : State σ) (scope : CacheScope) :
    w.Spends s none 0 1 0 (w.hit scope) where
  database := .refl _
  requests := (UInt64.add_zero _).symm
  hits := rfl
  hooks := rfl
  accounts := rfl

/-- An answer in a unit. -/
theorem spends_hit_record (w : State σ) (scope : CacheScope) (i : Nat) :
    w.Spends s (some i) 0 1 0 ((w.hit scope).modifyUnit i (·.record 1 0)) where
  database := .refl _
  requests := (UInt64.add_zero _).symm
  hits := rfl
  hooks := rfl
  accounts := w.units.accounts_modify (fun _ => rfl) i

/-- A lookup in a unit that both caches have missed. -/
theorem spends_miss_record (w : State σ) (i : Nat) :
    w.Spends s (some i) 0 0 1 (w.modifyUnit i (·.record (-1) 0)) where
  database := .refl _
  requests := (UInt64.add_zero _).symm
  hits := (UInt64.add_zero _).symm
  hooks := rfl
  accounts := w.units.accounts_modify (fun _ => rfl) i

end State

/-- A statement is counted once, in the session and in the unit that it is sent in. -/
theorem spends_execute (s : Session σ) (unit : Option Nat) (k : OperationKind)
    (o : StatementOptions) (st : Statement) (w : State σ) :
    w.Spends s unit 1 0 0 (s.execute unit k o st w).2 where
  database := by
    cases unit with
    | none => exact (Session.Reaches.refl _).step st _
    | some i => exact (Session.Reaches.refl _).step st _
  requests := by cases unit <;> rfl
  hits := by cases unit <;> exact (UInt64.add_zero _).symm
  hooks := by cases unit <;> rfl
  accounts := by
    cases unit with
    | none => rfl
    | some i => exact w.units.accounts_modify (fun _ => rfl) i

variable {k : OperationKind} {o : StatementOptions} {st : Statement} {sent answered missed : Nat}

/-- That an operation is counted when it is over costs nothing. -/
theorem spends_counted {α : Type} {run : State σ → Outcome σ α}
    (h : w.Spends s unit sent answered missed (run w).2) :
    w.Spends s unit sent answered missed (Session.counted k run w).2 := by
  by_cases hbroken : (run w).1 = .error .brokenOff
  · rwa [counted_of_brokenOff hbroken]
  · rw [counted_of_completed hbroken]
    exact h.trans (State.spends_completed _ k)

/-! ## Writes -/

/-- What follows a write in the caches costs nothing, so a write costs its statement. -/
theorem spends_write {through : State σ → Outcome σ Unit}
    (hthrough : ∀ w : State σ, w.Spends s unit 0 0 0 (through w).2) (w : State σ) :
    w.Spends s unit 1 0 0 (s.write unit k o st through w).2 := by
  have hsent := spends_execute s unit k o st w
  by_cases happlied : (s.execute unit k o st w).1.bind ResultSet.wasApplied = .ok true
  · rw [write_snd_of_applied happlied]
    exact hsent.trans (hthrough _)
  · rw [write_of_not_applied happlied]
    exact hsent

/-- To change the caches costs nothing. -/
theorem State.Change.spends {N M : String → Prop} (h : w.Change N M w') :
    w.Spends s unit 0 0 0 w' := by
  cases h with
  | session _ => exact w.spends_cache _
  | hold i _ _ _ | mark i _ | forget i _ =>
    refine State.spends_modifyUnit ?_ i
    exact fun _ => rfl

/-- What is written through the caches costs nothing. -/
theorem State.Changes.spends {N M : String → Prop} (h : w.Changes N M w') :
    w.Spends s unit 0 0 0 w' := by
  induction h with
  | refl => exact .refl w
  | tail _ hchange ih => exact ih.trans hchange.spends

end

/-! ## Operations other than lookups -/

/-- The statements that are sent of what was to become one. -/
def sentOf : Except Error Statement → Nat
  | .ok _ => 1
  | .error _ => 0

section

variable {σ : Type} {unit : Option Nat} {s : Session σ}

/-- An operation spends one statement, or none if its statement cannot be built. -/
theorem spends_insert (x : RowInsert) (w : State σ) :
    w.Spends s unit (sentOf (x.statement s.prepare)) 0 0 (x.run s unit w).2 := by
  refine spends_counted ?_
  unfold RowInsert.apply RowInsert.build
  cases x.statement s.prepare with
  | error e => exact .refl w
  | ok st => exact spends_write (fun w₁ => (x.changes_writeThrough s.prepare unit w₁).spends) w

theorem spends_update (u : RowUpdate) (w : State σ) :
    w.Spends s unit (sentOf (u.statement s.prepare)) 0 0 (u.run s unit w).2 := by
  refine spends_counted ?_
  unfold RowUpdate.apply RowUpdate.build
  cases u.statement s.prepare with
  | error e => exact .refl w
  | ok st => exact spends_write (fun w₁ => (u.changes_writeThrough s.prepare unit w₁).spends) w

theorem spends_delete (d : RowDelete) (w : State σ) :
    w.Spends s unit (sentOf (d.statement s.prepare)) 0 0 (d.run s unit w).2 := by
  refine spends_counted ?_
  unfold RowDelete.apply RowDelete.build
  cases d.statement s.prepare with
  | error e => exact .refl w
  | ok st =>
    exact (w.spends_events _).trans (spends_write
      (fun w₁ => (d.changes_writeThrough (N := fun _ => False) s.prepare unit w₁).spends) _)

theorem spends_read {α : Type} (q : Query α) (w : State σ) :
    w.Spends s unit (sentOf (q.statement s.prepare)) 0 0 (q.run s unit w).2 := by
  refine spends_counted ?_
  unfold Query.fetch Query.build
  cases q.statement s.prepare with
  | error e => exact .refl w
  | ok st =>
    have hsent := (w.spends_events (w.events ++ q.warnings st)).trans
      (spends_execute s unit .select q.options st _)
    dsimp only
    generalize s.execute unit .select q.options st _ = reply at hsent ⊢
    obtain ⟨answer, w'⟩ := reply
    cases answer <;> exact hsent

theorem spends_count (c : RowCount) (w : State σ) :
    w.Spends s unit (sentOf (c.statement s.prepare)) 0 0 (c.run s unit w).2 := by
  have hfetch : w.Spends s unit (sentOf (c.statement s.prepare)) 0 0 (c.fetch s unit w).2 := by
    unfold RowCount.fetch RowCount.build
    cases c.statement s.prepare with
    | error e => exact .refl w
    | ok st =>
      have hsent := spends_execute s unit .count c.options st w
      dsimp only
      generalize s.execute unit .count c.options st w = reply at hsent ⊢
      obtain ⟨answer, w'⟩ := reply
      cases answer <;> exact hsent
  have hcounted := spends_counted (k := .count) hfetch
  unfold RowCount.run
  generalize Session.counted .count (c.fetch s unit) w = outcome at hcounted ⊢
  obtain ⟨counts, w'⟩ := outcome
  cases counts <;> exact hcounted

end

/-! ## Lookups -/

section

variable {σ : Type} {unit : Option Nat} {s : Session σ} {w : State σ}

namespace PointQuery.Plan

variable {p : Plan}

/-- What a unit answers settles a lookup: it has a row that does, or says that the row is gone. -/
def IsSettledBy (p : Plan) : UnitAnswer → Prop
  | .found r => p.accepts r = .ok true
  | .deleted => True
  | .missing => False

/-- A cache answers a lookup: a unit with a row or the mark of a deleted one, or the session
cache. -/
def IsAnswered (p : Plan) (unit : Option Nat) (w : State σ) : Prop :=
  match unit with
  | none => p.usesCache = true ∧ p.policy.admits w.cache = true ∧ p.IsInSession w.cache
  | some i =>
    p.usesCache = true ∧ p.IsSettledBy (w.units.lookup i p.keys) ∨ p.TakesFromSession i w

/-- A lookup in a unit asks the unit and the session cache, and neither has an answer. -/
def IsMissedByBoth (p : Plan) (unit : Option Nat) (w : State σ) : Prop :=
  match unit with
  | none => False
  | some i =>
    p.usesCache = true ∧ p.keys ≠ [] ∧ p.IsOpenAfter (w.units.lookup i p.keys) ∧
      p.policy.admits w.cache = true ∧ p.fromSession? w.cache = .ok none

instance (p : Plan) : (a : UnitAnswer) → Decidable (p.IsSettledBy a)
  | .found r =>
    match h : p.accepts r with
    | .ok true => isTrue h
    | .ok false => isFalse fun h' => by cases h.symm.trans h'
    | .error _ => isFalse fun h' => by cases h.symm.trans h'
  | .deleted => isTrue trivial
  | .missing => isFalse id

instance (p : Plan) (unit : Option Nat) (w : State σ) : Decidable (p.IsAnswered unit w) :=
  match unit with
  | none => inferInstanceAs (Decidable (_ ∧ _ ∧ _))
  | some _ => inferInstanceAs (Decidable (_ ∧ _ ∨ _))

instance (p : Plan) (c : SessionCache) : Decidable (p.fromSession? c = .ok none) :=
  match h : p.fromSession? c with
  | .ok none => isTrue rfl
  | .ok (some _) => isFalse fun h' => by cases h'
  | .error _ => isFalse fun h' => by cases h'

instance (p : Plan) (unit : Option Nat) (w : State σ) : Decidable (p.IsMissedByBoth unit w) :=
  match unit with
  | none => isFalse id
  | some _ => inferInstanceAs (Decidable (_ ∧ _ ∧ _ ∧ _ ∧ _))

/-- A unit does not settle a lookup that it leaves open. -/
theorem not_isSettledBy_of_isOpenAfter : ∀ {a : UnitAnswer}, p.IsOpenAfter a → ¬ p.IsSettledBy a
  | .found _, hopen, hsettled => by cases hopen.symm.trans hsettled
  | .deleted, hopen, _ => hopen
  | .missing, _, hsettled => hsettled

theorem IsAnswered.not_isMissedByBoth (h : p.IsAnswered unit w) : ¬ p.IsMissedByBoth unit w := by
  cases unit with
  | none => exact id
  | some i =>
    rintro ⟨-, -, hopen, -, hnone⟩
    obtain ⟨-, hsettled⟩ | ⟨-, -, -, r, hr⟩ := h
    · exact not_isSettledBy_of_isOpenAfter hopen hsettled
    · cases hnone.symm.trans hr

/-- Full rows break no lookup off. -/
theorem not_hasFullRows_of_fromSession? {e : Error} (h : p.fromSession? w.cache = .error e) :
    ¬ w.HasFullRows := by
  intro hfull
  obtain ⟨r, hget, haccepts⟩ := exists_of_fromSession?_error h
  obtain ⟨b, hb, -⟩ := p.accepts_spec (hfull.get? hget)
  cases hb.symm.trans haccepts

/-- A row that was found and cannot be compared with the filters lacks one of their columns. -/
theorem not_hasFullRows_of_accepts {i : Nat} {keys : List String} {r : Row} {e : Error}
    (hr : w.units.lookup i keys = .found r) (h : p.accepts r = .error e) : ¬ w.HasFullRows := by
  intro hfull
  obtain ⟨b, hb, -⟩ := p.accepts_spec (hfull.lookup hr)
  cases hb.symm.trans h

/-- What becomes of a lookup, and what is spent on the caches for it. -/
structure Settles (p : Plan) (s : Session σ) (unit : Option Nat) (w : State σ)
    (outcome : Outcome σ Resolution) : Prop where
  spends : w.Spends s unit 0 (if p.IsAnswered unit w then 1 else 0)
    (if p.IsMissedByBoth unit w then 1 else 0) outcome.2
  answered : p.IsAnswered unit w → ∀ populate, outcome.1 ≠ .ok (.miss populate)
  missed : ¬ p.IsAnswered unit w → (∃ populate, outcome.1 = .ok (.miss populate)) ∨
    outcome.1 = .error .brokenOff ∧ ¬ w.HasFullRows

/-- An answer from a cache is charged once, and there is no miss then. -/
theorem Settles.of_answered {outcome : Outcome σ Resolution} (h : p.IsAnswered unit w)
    (hspends : w.Spends s unit 0 1 0 outcome.2)
    (hresult : ∀ populate, outcome.1 ≠ .ok (.miss populate)) :
    p.Settles s unit w outcome where
  spends := by
    rw [if_pos h, if_neg h.not_isMissedByBoth]
    exact hspends
  answered _ := hresult
  missed hnot := absurd h hnot

/-- A miss is charged if both caches were asked, and the lookup goes on or breaks off. -/
theorem Settles.of_missed {outcome : Outcome σ Resolution} (h : ¬ p.IsAnswered unit w)
    (hspends : w.Spends s unit 0 0 (if p.IsMissedByBoth unit w then 1 else 0) outcome.2)
    (hresult : (∃ populate, outcome.1 = .ok (.miss populate)) ∨
      outcome.1 = .error .brokenOff ∧ ¬ w.HasFullRows) : p.Settles s unit w outcome where
  spends := by
    rw [if_neg h]
    exact hspends
  answered hanswered := absurd hanswered h
  missed _ := hresult

/-- Outside units the session cache alone is asked. -/
theorem settles_withoutUnit (p : Plan) (w : State σ) :
    p.Settles s none w (p.withoutUnit w) := by
  have hbroken := p.breaksOffOnly_fromSession? w.cache
  have houtside := p.outside_withoutUnit w
  generalize p.withoutUnit w = outcome at houtside ⊢
  cases houtside with
  | passed hskips =>
    refine .of_missed (fun ⟨huses, hadmits, hin⟩ => ?_) (.refl w) (.inl ⟨_, rfl⟩)
    exact keys_ne_nil_of_isInSession hin (hskips huses hadmits)
  | broken _ _ hfrom =>
    obtain rfl := hbroken _ hfrom
    refine .of_missed (fun ⟨_, _, r, hr⟩ => ?_) (.refl w)
      (.inr ⟨rfl, not_hasFullRows_of_fromSession? hfrom⟩)
    cases hfrom.symm.trans hr
  | hit huses hadmits hfrom =>
    exact .of_answered ⟨huses, hadmits, _, hfrom⟩ (w.spends_hit .session) fun _ h => by cases h
  | missed _ _ hfrom =>
    refine .of_missed (fun ⟨_, _, r, hr⟩ => ?_) (w.spends_miss .session) (.inl ⟨_, rfl⟩)
    cases hfrom.symm.trans hr

/-- A lookup that a unit leaves open is settled by the session cache. -/
theorem settles_beyond {i : Nat} {outcome : Outcome σ Resolution} (huses : p.usesCache = true)
    (hkeys : p.keys ≠ []) (hopen : p.IsOpenAfter (w.units.lookup i p.keys))
    (h : p.Beyond i (w.miss .unitOfWork) outcome) : p.Settles s (some i) w outcome := by
  have hmiss : w.Spends s (some i) 0 0 0 (w.miss .unitOfWork) := w.spends_miss .unitOfWork
  have hbroken := p.breaksOffOnly_fromSession? w.cache
  -- what is not in the session cache is no answer at all
  have hunanswered : (p.policy.admits w.cache = true → ¬ p.IsInSession w.cache) →
      ¬ p.IsAnswered (some i) w := by
    rintro hnone (⟨-, hsettled⟩ | ⟨-, hadmits, -, hin⟩)
    · exact not_isSettledBy_of_isOpenAfter hopen hsettled
    · exact hnone hadmits hin
  cases h with
  | passed hrefused =>
    -- the session cache is not asked, so that the unit is charged nothing
    refine .of_missed (hunanswered fun hadmits => absurd hadmits hrefused) ?_ (.inl ⟨_, rfl⟩)
    rw [if_neg fun hboth => hrefused hboth.2.2.2.1]
    exact hmiss
  | broken _ hfrom =>
    obtain rfl := hbroken _ hfrom
    refine .of_missed (hunanswered fun _ ⟨r, hr⟩ => by cases hfrom.symm.trans hr) ?_
      (.inr ⟨rfl, not_hasFullRows_of_fromSession? hfrom⟩)
    rw [if_neg fun hboth => by cases hfrom.symm.trans hboth.2.2.2.2]
    exact hmiss
  | missed hadmits hfrom =>
    refine .of_missed (hunanswered fun _ ⟨r, hr⟩ => by cases hfrom.symm.trans hr) ?_
      (.inl ⟨_, rfl⟩)
    rw [if_pos ⟨huses, hkeys, hopen, hadmits, hfrom⟩]
    exact (hmiss.trans (State.spends_miss _ .session)).trans (State.spends_miss_record _ i)
  | unkeyed hadmits hfrom =>
    exact .of_answered (.inr ⟨huses, hadmits, hopen, _, hfrom⟩)
      (hmiss.trans (State.spends_hit_record _ .session i)) fun _ h => by cases h
  | taken hadmits hfrom =>
    have hhit := hmiss.trans (State.spends_hit_record _ .session i)
    refine .of_answered (.inr ⟨huses, hadmits, hopen, _, hfrom⟩)
      (hhit.trans (State.spends_modifyUnit ?_ i)) fun _ h => by cases h
    exact fun _ => rfl

/-- In a unit, its chain is asked and then the session cache. -/
theorem settles_withinUnit (p : Plan) (i : Nat) (w : State σ) :
    p.Settles s (some i) w (p.withinUnit i w) := by
  have hhit := w.spends_hit_record (s := s) .unitOfWork i
  have hinside := p.inside_withinUnit i w
  generalize p.withinUnit i w = outcome at hinside ⊢
  cases hinside with
  | passed hignores =>
    refine .of_missed ?_ ?_ (.inl ⟨_, rfl⟩)
    · rintro (⟨huses, -⟩ | ⟨huses, -⟩) <;> exact hignores huses
    · rw [if_neg fun hboth => hignores hboth.1]
      exact .refl w
  | keyless _ hkeys =>
    refine .of_missed ?_ ?_ (.inl ⟨_, rfl⟩)
    · rintro (⟨-, hsettled⟩ | ⟨-, -, -, hin⟩)
      · rw [hkeys, Units.lookup_nil] at hsettled
        exact hsettled
      · exact keys_ne_nil_of_isInSession hin hkeys
    · rw [if_neg fun hboth => hboth.2.1 hkeys]
      exact .refl w
  | deleted huses _ hlookup =>
    exact .of_answered (.inl ⟨huses, by rw [hlookup]; trivial⟩) hhit fun _ h => by cases h
  | broken _ _ hlookup haccepts =>
    obtain rfl := p.breaksOffOnly_accepts _ _ haccepts
    have hclosed : ¬ p.IsOpenAfter (w.units.lookup i p.keys) := by
      rw [hlookup]
      exact fun hopen => by cases haccepts.symm.trans hopen
    refine .of_missed ?_ ?_ (.inr ⟨rfl, not_hasFullRows_of_accepts hlookup haccepts⟩)
    · rintro (⟨-, hsettled⟩ | ⟨-, -, hopen, -⟩)
      · rw [hlookup] at hsettled
        cases haccepts.symm.trans hsettled
      · exact hclosed hopen
    · rw [if_neg fun hboth => hclosed hboth.2.2.1]
      exact .refl w
  | hit huses _ hlookup haccepts =>
    exact .of_answered (.inl ⟨huses, by rw [hlookup]; exact haccepts⟩) hhit fun _ h => by cases h
  | beyond huses hkeys hopen hbeyond => exact settles_beyond huses hkeys hopen hbeyond

theorem settles_resolve (p : Plan) (unit : Option Nat) (w : State σ) :
    p.Settles s unit w (p.resolve unit w) := by
  cases unit with
  | none => exact p.settles_withoutUnit w
  | some i => exact p.settles_withinUnit i w

/-- Another log does not make a lookup another one. -/
theorem Settles.of_events {events : List Event} {outcome : Outcome σ Resolution}
    (h : p.Settles s unit { w with events } outcome) : p.Settles s unit w outcome := by
  have hanswered : p.IsAnswered unit { w with events } ↔ p.IsAnswered unit w := by
    cases unit <;> exact Iff.rfl
  have hboth : p.IsMissedByBoth unit { w with events } ↔ p.IsMissedByBoth unit w := by
    cases unit <;> exact Iff.rfl
  refine ⟨?_, fun hw => h.answered (hanswered.2 hw), fun hw => ?_⟩
  case refine_2 =>
    refine (h.missed fun hw' => hw (hanswered.1 hw')).imp_right fun ⟨hresult, hragged⟩ => ?_
    exact ⟨hresult, fun hfull => hragged (hfull.moved (w.moved_events events))⟩
  have hevents : w.Spends s unit 0 0 0 { w with events } := w.spends_events events
  have hspends := hevents.trans h.spends
  simp only [hanswered, hboth, Nat.zero_add] at hspends
  exact hspends

/-- To store a row that was fetched costs nothing. -/
theorem spends_populate (p : Plan) (r : Row) (w : State σ) :
    w.Spends s unit 0 0 0 (p.populate r unit w).2 := by
  unfold populate
  cases unit with
  | none =>
    dsimp only
    split
    next => exact .refl w
    next cache _ => exact w.spends_cache cache
  | some i =>
    dsimp only
    split
    next => exact .refl w
    next units hunits => exact (changes_populateUnit hunits).spends

end PointQuery.Plan

/-- Asking the database for a row spends a statement, whatever becomes of the row. -/
theorem spends_fetch {α : Type} (s : Session σ) (unit : Option Nat) (q : PointQuery α)
    (p : PointQuery.Plan) (populate : Bool) (st : Statement) (w : State σ) :
    w.Spends s unit 1 0 0 (q.fetch s unit p populate st w).2 := by
  have hsent := spends_execute s unit .selectFirst q.query.options st w
  unfold PointQuery.fetch
  generalize s.execute unit .selectFirst q.query.options st w = reply at hsent ⊢
  obtain ⟨answer, w₁⟩ := reply
  cases answer with
  | error e => exact hsent
  | ok answer =>
    dsimp only
    cases answer.first? with
    | none => exact hsent
    | some r =>
      have hkept : w.Spends s unit 1 0 0
          (if populate = true then p.populate r unit w₁ else (.ok (), w₁)).2 := by
        split
        next => exact hsent.trans (p.spends_populate r w₁)
        next => exact hsent
      dsimp only
      generalize (if populate = true then p.populate r unit w₁ else (.ok (), w₁)) = kept at hkept ⊢
      obtain ⟨done, w₂⟩ := kept
      cases done <;> exact hkept

/-- A lookup whose statement cannot be built asks nobody. -/
theorem spends_lookup_of_error {α : Type} {q : PointQuery α} {e : Error}
    (hst : q.statement s.prepare = .error e) (unit : Option Nat) (w : State σ) :
    w.Spends s unit 0 0 0 (q.run s unit w).2 := by
  refine spends_counted ?_
  rw [PointQuery.answer_of_error hst]
  exact .refl w

/-- A lookup whose statement is built spends a hit and no statement if a cache answers it. Otherwise
it spends no hit and exactly one statement, unless a row of the caches breaks it off. It sends
nothing unless it misses. -/
theorem spends_lookup {α : Type} {q : PointQuery α} {st : Statement}
    (hst : q.statement s.prepare = .ok st) (unit : Option Nat) (w : State σ) :
    ∃ sent, w.Spends s unit sent
        (if (q.plan s.prepare).IsAnswered unit w then 1 else 0)
        (if (q.plan s.prepare).IsMissedByBoth unit w then 1 else 0) (q.run s unit w).2 ∧
      ((q.plan s.prepare).IsAnswered unit w → sent = 0) ∧
      (¬ (q.plan s.prepare).IsAnswered unit w →
        sent = 1 ∨ sent = 0 ∧ (q.run s unit w).1 = .error .brokenOff ∧ ¬ w.HasFullRows) ∧
      (¬ (q.plan s.prepare).Misses unit w → sent = 0) := by
  have hsettles := ((q.plan s.prepare).settles_resolve (s := s) unit
    { w with events := w.events ++ q.query.warnings st }).of_events
  have hanswer := PointQuery.answer_eq hst unit w
  have hmisses : (q.plan s.prepare).Misses unit w ↔ ∃ populate, ((q.plan s.prepare).resolve unit
      { w with events := w.events ++ q.query.warnings st }).1 = .ok (.miss populate) := by
    rw [PointQuery.Plan.fst_resolve_of_moved (w.moved_events _)]
    exact Iff.rfl
  unfold PointQuery.run
  generalize (q.plan s.prepare).resolve unit _ = outcome at hsettles hanswer hmisses
  obtain ⟨resolution, w₁⟩ := outcome
  cases resolution with
  | error e =>
    refine ⟨0, spends_counted (by rw [hanswer]; exact hsettles.spends), fun _ => rfl,
      fun hnot => .inr ⟨rfl, ?_⟩, fun _ => rfl⟩
    obtain ⟨_, h⟩ | ⟨h, hragged⟩ := hsettles.missed hnot
    · cases h
    · rw [counted_fst, hanswer, Except.error.inj h]
      exact ⟨rfl, hragged⟩
  | ok resolution =>
    cases resolution with
    | deleted | hit r =>
      refine ⟨0, spends_counted (by rw [hanswer]; exact hsettles.spends), fun _ => rfl,
        fun hnot => ?_, fun _ => rfl⟩
      obtain ⟨_, h⟩ | ⟨h, -⟩ := hsettles.missed hnot <;> cases h
    | miss populate =>
      -- what was spent on the caches is followed by the statement
      have hfetch := spends_fetch s unit q (q.plan s.prepare) populate st w₁
      refine ⟨1, spends_counted ?_, fun hans => absurd rfl (hsettles.answered hans populate),
        fun _ => .inl rfl, fun hnot => absurd (hmisses.2 ⟨populate, rfl⟩) hnot⟩
      rw [hanswer]
      have hboth := hsettles.spends.trans hfetch
      simp only [Nat.zero_add, Nat.add_zero] at hboth
      exact hboth

/-- Every call spends something, whatever becomes of it, and is charged to no other unit. -/
theorem Call.exists_spends (c : Call) (unit : Option Nat) (w : State σ) :
    ∃ sent answered missed, w.Spends s unit sent answered missed (c.run s unit w).2 := by
  cases c with
  | lookup q =>
    cases hst : q.single.statement s.prepare with
    | error e => exact ⟨_, _, _, spends_lookup_of_error hst unit w⟩
    | ok st =>
      obtain ⟨sent, hspends, -⟩ := spends_lookup hst unit w
      exact ⟨_, _, _, hspends⟩
  | read q => exact ⟨_, _, _, spends_read q w⟩
  | count x => exact ⟨_, _, _, spends_count x w⟩
  | insert x => exact ⟨_, _, _, spends_insert x w⟩
  | update x => exact ⟨_, _, _, spends_update x w⟩
  | delete x => exact ⟨_, _, _, spends_delete x w⟩

end

end WideRow
