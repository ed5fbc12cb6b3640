import WideRow.Operation.PointQuery
import WideRow.Operation.RowCount
import WideRow.Operation.RowDelete
import WideRow.Operation.RowInsert

/-!
# Runs of operations

A `Call` is an operation as data, so that a run is a list of calls and `Session.runAll` its
results with the state they leave. Beside it stands what the same call comes to when the
database alone is asked, `Call.direct`, which knows neither caches nor units. The lemmas after
them say what the steps that all operations share leave as it was.
-/

namespace WideRow

/-- An operation that a session can run. -/
inductive Call where
  /-- A query for a single row. -/
  | lookup {α : Type} (q : Query α)
  /-- A query for all rows. -/
  | read {α : Type} (q : Query α)
  | count (c : RowCount)
  | insert (i : RowInsert)
  | update (u : RowUpdate)
  | delete (d : RowDelete)

/-- What a call results in. -/
def Call.Result : Call → Type
  | @lookup α _ => Option α
  | @read α _ => List α
  | count _ => Int64
  | insert _ | update _ | delete _ => ResultSet

/-- The results of calls, each with its call. -/
abbrev Results := List ((c : Call) × Except Error c.Result)

section

variable {σ : Type} (s : Session σ)

/-- Runs a call. -/
def Call.run (unit : Option Nat) : (c : Call) → State σ → Outcome σ c.Result
  | lookup q => q.single.run s unit
  | read q => q.run s unit
  | count c => c.run s unit
  | insert i => i.run s unit
  | update u => u.run s unit
  | delete d => d.run s unit

/-- Runs calls one after the other. -/
def Session.runAll (unit : Option Nat) : List Call → State σ → Results × State σ
  | [], w => ([], w)
  | c :: cs, w =>
    let first := c.run s unit w
    let rest := runAll unit cs first.2
    (⟨c, first.1⟩ :: rest.1, rest.2)

/-- The last call of a run finds what the calls before it left. -/
theorem Session.runAll_concat (unit : Option Nat) (c : Call) : ∀ (calls : List Call) (w : State σ),
    (s.runAll unit (calls ++ [c]) w).2 = (c.run s unit (s.runAll unit calls w).2).2
  | [], _ => rfl
  | d :: calls, w => runAll_concat unit c calls (d.run s unit w).2

/-- Something is so of every call of a run and the state that it starts from. -/
def Session.Along (unit : Option Nat) (P : Call → State σ → Prop) : List Call → State σ → Prop
  | [], _ => True
  | c :: cs, w => P c w ∧ Along unit P cs (c.run s unit w).2

/-- What holds of all calls in all states holds along every run. -/
theorem Session.Along.of_forall {unit : Option Nat} {P : Call → State σ → Prop} :
    ∀ {calls : List Call} {w : State σ}, (∀ c ∈ calls, ∀ w, P c w) → s.Along unit P calls w
  | [], _, _ => trivial
  | c :: _, _, h => ⟨h c (List.mem_cons_self ..) _,
      of_forall fun d hd => h d (List.mem_cons_of_mem _ hd)⟩

/-- What every call keeps, a run keeps; what it brings about, it does so all along the run. -/
theorem Session.Along.of_step {unit : Option Nat} {P R : Call → State σ → Prop}
    {Q : State σ → Prop} : ∀ {calls : List Call} {w : State σ},
      (∀ c ∈ calls, ∀ w : State σ, Q w → P c w → R c w ∧ Q (c.run s unit w).2) →
      s.Along unit P calls w → Q w →
      s.Along unit R calls w ∧ Q (s.runAll unit calls w).2
  | [], _, _, _, hw => ⟨trivial, hw⟩
  | c :: calls, w, hstep, hcalls, hw => by
    obtain ⟨hfirst, hkept⟩ := hstep c (List.mem_cons_self ..) w hw hcalls.1
    obtain ⟨hrest, hend⟩ := of_step (fun d hd => hstep d (List.mem_cons_of_mem _ hd)) hcalls.2 hkept
    exact ⟨⟨hfirst, hrest⟩, hend⟩

/-! ## The database alone -/

/-- How the statement of a call is to be executed. -/
def Call.options : Call → StatementOptions
  | lookup q => q.options
  | read q => q.options
  | count c => c.options
  | insert i => i.options
  | update u => u.options
  | delete d => d.options

/-- The statement of a call. -/
def Call.statement (prepare : ValuePreparer) : Call → Except Error Statement
  | lookup q => q.single.statement prepare
  | read q => q.statement prepare
  | count c => c.statement prepare
  | insert i => i.statement prepare
  | update u => u.statement prepare
  | delete d => d.statement prepare

/-- What a lookup makes of an answer: the item of its first row. -/
def Query.itemOf {α : Type} (q : Query α) (answer : ResultSet) : Except Error (Option α) :=
  match answer.first? with
  | none => .ok none
  | some r => (q.mapper r).map some

/-- The answer to a write, in which it must be possible to read whether it was applied. -/
def ResultSet.acknowledged (answer : ResultSet) : Except Error ResultSet :=
  answer.wasApplied.map fun _ => answer

/-- What a call makes of the answer to its statement. -/
def Call.result : (c : Call) → ResultSet → Except Error c.Result
  | lookup q, answer => q.itemOf answer
  | read q, answer => answer.rows.mapM q.mapper
  | count _, answer =>
    (answer.rows.mapM fun r : Row => r.get "count" .bigint).map fun counts : List Int64 =>
      counts.head?.getD 0
  | insert _, answer => answer.acknowledged
  | update _, answer => answer.acknowledged
  | delete _, answer => answer.acknowledged

/-- The answer of the executor to a statement, and its state after it. -/
def Session.reply (o : StatementOptions) (st : Statement) (db : σ) :
    Except Error ResultSet × σ :=
  s.executor.execute st (s.executionOptions o st) db

/-- What a call comes to when the database alone is asked. -/
def Call.direct (c : Call) (db : σ) : Except Error c.Result × σ :=
  match c.statement s.prepare with
  | .error e => (.error e, db)
  | .ok st =>
    let reply := s.reply c.options st db
    (reply.1.bind c.result, reply.2)

/-- Calls that the database alone answers, one after the other. -/
def Session.directAll : List Call → σ → Results × σ
  | [], db => ([], db)
  | c :: cs, db =>
    let first := c.direct s db
    let rest := directAll cs first.2
    (⟨c, first.1⟩ :: rest.1, rest.2)

/-- The session with its cache switched off. -/
def Session.withoutCache : Session σ :=
  { s with config := { s.config with cache := { s.config.cache with isEnabled := false } } }

end

/-! ## What the steps of an operation leave -/

/-- What a unit of work knows, apart from what it counts. -/
def UnitOfWork.knowledge (u : UnitOfWork) :
    Option Nat × Std.ExtTreeMap String UnitEntry compare := (u.parent, u.entries)

/-- A state becomes another one that differs in the database, and in what is counted and
logged. -/
structure State.Moved {σ : Type} (w : State σ) (db : σ) (w' : State σ) : Prop where
  database : w'.database = db
  cache : w'.cache = w.cache
  units : ∀ i, (w'.units.get? i).map UnitOfWork.knowledge =
    (w.units.get? i).map UnitOfWork.knowledge

/-- What is counted and logged is of no concern. -/
def State.IgnoresCounts {σ : Type} (Q : State σ → Prop) : Prop :=
  ∀ w w', w.Moved w.database w' → Q w → Q w'

/-- What a change of a unit leaves alone is as it was in all units. -/
theorem Units.map_get?_modify {γ : Type} (us : Units) {f : UnitOfWork → UnitOfWork}
    {g : UnitOfWork → γ} (h : ∀ u, g (f u) = g u) (i j : Nat) :
    ((us.modify i f).get? j).map g = (us.get? j).map g := by
  show ((us.list.modify i f)[j]?).map g = (us.list[j]?).map g
  rw [List.getElem?_modify]
  cases us.list[j]? with
  | none => rfl
  | some u => by_cases hij : i = j <;> simp [hij, h]

section

variable {σ : Type} {s : Session σ} {unit : Option Nat} {k : OperationKind}
  {o : StatementOptions} {st : Statement} {w w' : State σ} {db : σ}

namespace State

theorem Moved.refl (w : State σ) : w.Moved w.database w := ⟨rfl, rfl, fun _ => rfl⟩

/-- Two steps that leave the caches as they are leave them so together. -/
theorem Moved.trans {db' : σ} {w'' : State σ} (h : w.Moved db w') (h' : w'.Moved db' w'') :
    w.Moved db' w'' where
  database := h'.database
  cache := h'.cache.trans h.cache
  units i := (h'.units i).trans (h.units i)

theorem Moved.symm (h : w.Moved db w') : w'.Moved w.database w :=
  ⟨rfl, h.cache.symm, fun i => (h.units i).symm⟩

/-- A unit still knows what it knew. -/
theorem Moved.exists_unit (h : w.Moved db w') {i : Nat} {u : UnitOfWork}
    (hu : w.units.get? i = some u) :
    ∃ u', w'.units.get? i = some u' ∧ u'.parent = u.parent ∧ u'.entries = u.entries := by
  have hunits := h.units i
  rw [hu, Option.map_some, Option.map_eq_some_iff] at hunits
  obtain ⟨u', hu', hknows⟩ := hunits
  exact ⟨u', hu', congrArg Prod.fst hknows, congrArg Prod.snd hknows⟩

/-- Hits and misses are counted and move nothing. -/
theorem moved_hit (w : State σ) (scope : CacheScope) : w.Moved w.database (w.hit scope) :=
  ⟨rfl, rfl, fun _ => rfl⟩

theorem moved_miss (w : State σ) (scope : CacheScope) : w.Moved w.database (w.miss scope) :=
  ⟨rfl, rfl, fun _ => rfl⟩

theorem moved_events (w : State σ) (events : List Event) :
    w.Moved w.database { w with events } := ⟨rfl, rfl, fun _ => rfl⟩

/-- Counting operations of a unit. -/
theorem moved_record (w : State σ) (i : Nat) (cache database : Int) :
    w.Moved w.database (w.modifyUnit i (·.record cache database)) where
  database := rfl
  cache := rfl
  units := w.units.map_get?_modify (f := (·.record cache database)) (fun _ => rfl) i

end State

/-- A statement has the result of the reply. -/
theorem execute_fst : (s.execute unit k o st w).1 = (s.reply o st w.database).1 := by
  cases unit <;> rfl

/-- Executing a statement moves the database. -/
theorem moved_execute : w.Moved (s.reply o st w.database).2 (s.execute unit k o st w).2 := by
  cases unit with
  | none => exact ⟨rfl, rfl, fun _ => rfl⟩
  | some i =>
    have hsent : w.Moved (s.reply o st w.database).2 (s.execute none k o st w).2 :=
      ⟨rfl, rfl, fun _ => rfl⟩
    exact hsent.trans (State.moved_record _ i 0 1)

/-- What executing a statement comes to. -/
theorem execute_eq (unit : Option Nat) (k : OperationKind) (o : StatementOptions)
    (st : Statement) (w : State σ) : ∃ w', s.execute unit k o st w =
      ((s.reply o st w.database).1, w') ∧ w.Moved (s.reply o st w.database).2 w' :=
  ⟨_, Prod.ext execute_fst rfl, moved_execute⟩

/-- What executing a statement comes to where something was counted or logged before. -/
theorem State.Moved.execute_eq (h : w.Moved w.database w') (unit : Option Nat)
    (k : OperationKind) (o : StatementOptions) (st : Statement) :
    ∃ w₁, s.execute unit k o st w' = ((s.reply o st w.database).1, w₁) ∧
      w.Moved (s.reply o st w.database).2 w₁ := by
  obtain ⟨w₁, hexec, hmoved⟩ := WideRow.execute_eq (s := s) unit k o st w'
  rw [h.database] at hexec hmoved
  exact ⟨w₁, hexec, h.trans hmoved⟩

/-- An operation that breaks off is not counted. -/
theorem counted_of_brokenOff {α : Type} {run : State σ → Outcome σ α}
    (h : (run w).1 = .error .brokenOff) : Session.counted k run w = run w := by
  unfold Session.counted
  generalize run w = outcome at h ⊢
  obtain ⟨result, w'⟩ := outcome
  rw [show result = .error .brokenOff from h]

/-- A call that does not break off is counted when it is over. -/
theorem counted_of_completed {α : Type} {run : State σ → Outcome σ α}
    (h : (run w).1 ≠ .error .brokenOff) :
    Session.counted k run w = ((run w).1, (run w).2.completed k) := by
  unfold Session.counted
  split
  next hbroken => exact absurd (by rw [hbroken]) h
  next hrun => rw [hrun]

/-- To count a call does not change its result. -/
theorem counted_fst {α : Type} (run : State σ → Outcome σ α) :
    (Session.counted k run w).1 = (run w).1 := by
  unfold Session.counted
  split
  next h => rw [h]
  next h => rw [h]

/-- Counting an operation changes nothing but the metrics. -/
theorem moved_counted {α : Type} (run : State σ → Outcome σ α) :
    (run w).2.Moved (run w).2.database (Session.counted k run w).2 := by
  unfold Session.counted
  split
  next h => rw [h]; exact .refl _
  next h => rw [h]; exact ⟨rfl, rfl, fun _ => rfl⟩

/-- A write that was not carried out leaves the caches alone. -/
theorem write_of_not_applied {through : State σ → Outcome σ Unit}
    (h : (s.execute unit k o st w).1.bind ResultSet.wasApplied ≠ .ok true) :
    s.write unit k o st through w =
      ((s.execute unit k o st w).1.bind ResultSet.acknowledged, (s.execute unit k o st w).2) := by
  unfold Session.write
  generalize s.execute unit k o st w = reply at h ⊢
  obtain ⟨reply, w'⟩ := reply
  cases reply with
  | error e => rfl
  | ok answer =>
    have hnot : answer.wasApplied ≠ .ok true := h
    simp only [Except.bind, ResultSet.acknowledged]
    cases hb : answer.wasApplied with
    | error e => rfl
    | ok b =>
      cases b with
      | false => rfl
      | true => exact absurd hb hnot

/-- A write that was carried out is followed by the caches. -/
theorem write_eq_of_applied {through : State σ → Outcome σ Unit}
    (h : (s.execute unit k o st w).1.bind ResultSet.wasApplied = .ok true) :
    s.write unit k o st through w = match through (s.execute unit k o st w).2 with
      | (.error e, w') => (.error e, w')
      | (.ok (), w') => ((s.execute unit k o st w).1.bind ResultSet.acknowledged, w') := by
  unfold Session.write
  generalize s.execute unit k o st w = reply at h ⊢
  obtain ⟨reply, w₁⟩ := reply
  cases reply with
  | error e => exact absurd h (by simp [Except.bind])
  | ok answer =>
    have happlied : answer.wasApplied = .ok true := h
    simp only [Except.bind, ResultSet.acknowledged, happlied]
    rfl

/-- A write that was applied is taken up by the caches. -/
theorem write_snd_of_applied {through : State σ → Outcome σ Unit}
    (h : (s.execute unit k o st w).1.bind ResultSet.wasApplied = .ok true) :
    (s.write unit k o st through w).2 = (through (s.execute unit k o st w).2).2 := by
  rw [write_eq_of_applied h]
  obtain ⟨done, w'⟩ := through (s.execute unit k o st w).2
  cases done <;> rfl

/-- A write that was applied, and that the caches could take up, is acknowledged. -/
theorem write_of_applied {through : State σ → Outcome σ Unit}
    (h : (s.execute unit k o st w).1.bind ResultSet.wasApplied = .ok true)
    (hthrough : through (s.execute unit k o st w).2 = (.ok (), w')) :
    s.write unit k o st through w =
      ((s.execute unit k o st w).1.bind ResultSet.acknowledged, w') := by
  rw [write_eq_of_applied h, hthrough]

/-- A write that answers that it was carried out was carried out, and the caches followed it. -/
theorem of_write_applied {through : State σ → Outcome σ Unit} {answer : ResultSet}
    (h : (s.write unit k o st through w).1 = .ok answer) (happlied : answer.wasApplied = .ok true) :
    (through (s.execute unit k o st w).2).1 = .ok () ∧
      (s.write unit k o st through w).2 = (through (s.execute unit k o st w).2).2 := by
  by_cases hdone : (s.execute unit k o st w).1.bind ResultSet.wasApplied = .ok true
  · refine ⟨?_, write_snd_of_applied hdone⟩
    rw [write_eq_of_applied hdone] at h
    generalize through (s.execute unit k o st w).2 = followed at h ⊢
    obtain ⟨done, w'⟩ := followed
    cases done with
    | error e => exact absurd h (by simp)
    | ok _ => rfl
  · -- the answer is that of the executor, which says that the write was not carried out
    rw [write_of_not_applied hdone] at h
    cases hreply : (s.execute unit k o st w).1 with
    | error e =>
      rw [hreply] at h
      exact absurd h (by simp [Except.bind])
    | ok answer' =>
      rw [hreply] at h hdone
      have hacknowledged : answer'.wasApplied.map (fun _ => answer') = .ok answer := h
      cases hb : answer'.wasApplied with
      | error e =>
        rw [hb] at hacknowledged
        exact absurd hacknowledged (by simp [Except.map])
      | ok b =>
        rw [hb] at hacknowledged
        rw [← Except.ok.inj hacknowledged] at happlied
        exact absurd happlied hdone

end

end WideRow
