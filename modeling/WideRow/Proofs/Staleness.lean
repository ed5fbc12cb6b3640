import WideRow.Proofs.Upkeep

/-!
# Rows that stay behind

A cached row answers a lookup for as long as it is accepted, whether or not the writes have
reached it. Here single rows of the session cache are followed through a few operations, for any
entity whose keys are single columns: how a first lookup puts a row there (`run_of_start`), and
how a row that is there answers (`run_of_answers`). This is what the faults of the cache come to:

> `confuses_of_shared_key`: of two records that share a cache key, the one that is read first
> answers for the other;
> `staysBehind_of_outlasts`: a column that was read more often than an update takes it away is
> read later on as it was before.
-/

namespace WideRow

section

variable {α : Type}

/-- A lookup of an entity whose values fit its columns. -/
structure Query.IsOf (q : Query α) (e : Entity) (Fits : String → Value → Prop)
    (prepare : ValuePreparer) : Prop where
  reads : q.ReadsProjection
  entity : ∀ n ∈ q.projection, n.entity = e
  filters : q.conditions.Fit Fits prepare

/-- A lookup that asks the session cache, by a key of the entity. -/
def Query.AsksCache (q : Query α) (e : Entity) (prepare : ValuePreparer) : Prop :=
  q.options.usesCache = true ∧ q.conditions.keys ⟨.fetch, some e⟩ prepare ≠ []

/-- What a lookup finds first, from an empty cache, it finds again after a run, whatever has
become of the table. -/
def Session.StaysBehind (s : Session Table) (q : Query α) (calls : List Call) (t : Table) : Prop :=
  ∀ x, ((Call.lookup q).direct s t).1 = .ok (some x) →
    (q.single.run s none (s.runAll none (.lookup q :: calls) (s.start t)).2).1 = .ok (some x)

/-- A lookup of the same columns by other filters. -/
def Query.restrictedBy (q : Query α) (c : Conditions) : Query α := { q with conditions := c }

/-- After two lookups from an empty cache, the first one finds its item also by the filters of
the second one. -/
def Session.Confuses {β : Type} (s : Session Table) (q : Query α) (q' : Query β) (t : Table) :
    Prop :=
  ∀ x y, ((Call.lookup q).direct s t).1 = .ok (some x) →
    ((Call.lookup q').direct s t).1 = .ok (some y) →
    ((q.restrictedBy q'.conditions).single.run s none
      (s.runAll none [.lookup q, .lookup q'] (s.start t)).2).1 = .ok (some x)

/-! ## Rows of records -/

/-- The row that a lookup brings of a record, completed by the values of its filters. -/
def Query.rowOf (q : Query α) (prepare : ValuePreparer) (ρ : Record) : Row :=
  (q.single.plan prepare).completed (ρ.row (q.projection.map (·.column.name)))

/-- A record has the values that the equalities of a lookup ask for. -/
def Query.Fetches (q : Query α) (prepare : ValuePreparer) (ρ : Record) : Prop :=
  ∀ n v, (n, v) ∈ q.conditions.equalities prepare → ρ n.column.name = some v

variable {q : Query α} {prepare : ValuePreparer} {ρ : Record}

/-- The row of a record mirrors it, and has the columns that the lookup reads or asks for. -/
theorem Query.Fetches.rowOf_spec (h : q.Fetches prepare ρ) :
    (q.rowOf prepare ρ).Mirrors [] ρ ∧
      (∀ p ∈ (q.rowOf prepare ρ).pairs, p.2 = ρ p.1) ∧
      ∀ c, (q.rowOf prepare ρ).cell? c ≠ none ↔ Keyring.Reads q prepare c :=
  PointQuery.Plan.mirrors_completed (by simp) h

/-- A column that is read several times is as often in the row. -/
theorem Query.count_le_rowOf (q : Query α) (prepare : ValuePreparer) (ρ : Record) (c : String) :
    (q.projection.map (·.column.name)).count c ≤ (q.rowOf prepare ρ).columns.count c := by
  have hcolumns : (ρ.row (q.projection.map (·.column.name))).columns =
      q.projection.map (·.column.name) := by
    show ((q.projection.map (·.column.name)).map fun c => (c, ρ c)).map Prod.fst = _
    rw [List.map_map]
    exact List.map_id'' (fun _ => rfl) _
  have hle := Row.count_le_foldl_orElse c
    (cellsOfEqualities (q.single.plan prepare).equalities)
    (ρ.row (q.projection.map (·.column.name)))
  rw [hcolumns] at hle
  exact hle

end

/-! ## Lookups outside all units -/

section

variable {e : Entity} {ns : List Node} {Fits : String → Value → Prop} {E : Engine}
  {s : Session Table} {w : State Table} {t : Table} {α : Type} {q : Query α}

/-- A lookup that finds an item has found a record, and the item is what it makes of it. -/
theorem finds_of_direct (hs : s.executor = E.executor) (hexact : ∀ c, ExactOn (Fits c))
    (hq : q.IsOf e Fits s.prepare) {x : α}
    (h : ((Call.lookup q).direct s t).1 = .ok (some x)) :
    ∃ st ρ answer, q.single.statement s.prepare = .ok st ∧ ρ ∈ t ∧ q.Fetches s.prepare ρ ∧
      (E.execute st t).1 = .ok answer ∧
      answer.first? = some (ρ.row (q.projection.map (·.column.name))) ∧
      q.mapper (ρ.row (q.projection.map (·.column.name))) = .ok x := by
  cases hst : q.single.statement s.prepare with
  | error e =>
    rw [direct_of_error (c := .lookup q) hst] at h
    exact absurd h (by simp)
  | ok st =>
    obtain ⟨clauses, hclauses, -, answer, hanswer, hfirst⟩ :=
      reply_of_lookup (E := E) (t := t) hst
    rw [direct_of_ok (c := .lookup q) hst, reply_of_engine hs, hanswer] at h
    have hitem : q.itemOf answer = .ok (some x) := h
    cases hfind : t.find? (E.selects clauses) with
    | none =>
      rw [hfind] at hfirst
      rw [itemOf_of_none hfirst] at hitem
      exact absurd hitem (by simp)
    | some ρ =>
      rw [hfind] at hfirst
      have hrow : answer.first? = some (ρ.row (q.projection.map (·.column.name))) := hfirst
      rw [itemOf_of_some hrow] at hitem
      refine ⟨st, ρ, answer, rfl, List.mem_of_find?_eq_some hfind, fun n v hv => ?_, hanswer,
        hrow, ?_⟩
      · exact Keyring.value_of_selects hexact hq.filters hclauses (List.find?_some hfind) hv
      · cases hm : q.mapper (ρ.row (q.projection.map (·.column.name))) with
        | error e =>
          rw [hm] at hitem
          exact absurd hitem (by simp [Except.map])
        | ok y =>
          rw [hm] at hitem
          rw [Option.some.inj (Except.ok.inj hitem)]

/-- A lookup that the session cache does not answer leaves its row there. -/
theorem run_of_open (hs : s.executor = E.executor) (hcacheable : e.isCacheable = true)
    (henabled : w.cache.isEnabled = true) (hentity : ∀ n ∈ q.projection, n.entity = e)
    {st : Statement} (hst : q.single.statement s.prepare = .ok st) {answer : ResultSet} {r : Row}
    (hanswer : (E.execute st w.database).1 = .ok answer) (hfirst : answer.first? = some r)
    (hopen : q.options.usesCache = true →
      (q.single.plan s.prepare).fromSession? w.cache = .ok none) {c : SessionCache}
    (hpopulate : (q.single.plan s.prepare).populateSession
      ((q.single.plan s.prepare).completed r) w.cache = .ok c) :
    (q.single.run s none w).1 = (q.mapper r).map some ∧
      (q.single.run s none w).2.database = w.database ∧ (q.single.run s none w).2.cache = c := by
  obtain ⟨-, -, hsame, -⟩ := reply_of_lookup (E := E) (t := w.database) hst
  have hadmits : (q.single.plan s.prepare).policy.admits w.cache = true := by
    rw [Keyring.plan_policy hentity hst]
    exact CachePolicy.admits_of_isEnabled henabled hcacheable .fetch
  have hreply : s.reply q.options st w.database = (.ok answer, w.database) := by
    rw [reply_of_engine hs]
    exact Prod.ext hanswer hsame
  obtain ⟨w₂, hresolve, hmoved⟩ : ∃ w₂, (q.single.plan s.prepare).resolve none
      { w with events := w.events ++ q.single.query.warnings st } = (.ok (.miss true), w₂) ∧
        w.Moved w.database w₂ := by
    have hevents := w.moved_events (w.events ++ q.single.query.warnings st)
    obtain ⟨w₂, hwithout, hmoved⟩ := PointQuery.Plan.withoutUnit_of_no_row
      (w := { w with events := w.events ++ q.single.query.warnings st }) hadmits hopen
    exact ⟨w₂, hwithout, hevents.trans hmoved⟩
  have hrun := single_run_of_miss hst hresolve (by rw [hmoved.database, hreply]) hfirst
    { w with cache := c } fun w₃ hw₃ => by
      rw [hmoved.database, hreply] at hw₃
      refine ⟨{ w₃ with cache := c }, ?_, hw₃.database, rfl, ?_⟩
      · simp only [PointQuery.Plan.populate, hw₃.cache, hmoved.cache, hpopulate]
      · exact fun i => (hw₃.units i).trans (hmoved.units i)
  exact ⟨hrun.1, hrun.2.database, hrun.2.cache⟩

/-- The first lookup of a run leaves the row of its record under all keys of it. -/
theorem run_of_start (hkeyed : e.IsKeyedBy ns) (hexact : ∀ c, ExactOn (Fits c))
    (hs : s.executor = E.executor) (hcacheable : e.isCacheable = true)
    (hcache : s.config.cache.isEnabled = true) (hq : q.IsOf e Fits s.prepare) {x : α}
    (h : ((Call.lookup q).direct s t).1 = .ok (some x)) :
    ∃ st ρ w, q.single.statement s.prepare = .ok st ∧ ρ ∈ t ∧ q.Fetches s.prepare ρ ∧
      q.mapper (ρ.row (q.projection.map (·.column.name))) = .ok x ∧
      (q.single.run s none (s.start t)).2 = w ∧ w.database = t ∧ w.cache.isEnabled = true ∧
      ∀ key, w.cache.rows[key]? =
        if key ∈ e.rowKeys ns (q.rowOf s.prepare ρ) then some (q.rowOf s.prepare ρ) else none := by
  obtain ⟨st, ρ, answer, hst, hρ, hfetches, hanswer, hfirst, hitem⟩ :=
    finds_of_direct hs hexact hq h
  have hempty : ∀ keys, (s.start t).cache.get? keys = none := fun keys =>
    SessionCache.get?_eq_none.2 fun _ _ => Std.ExtTreeMap.getElem?_empty
  have hopen : (q.single.plan s.prepare).fromSession? (s.start t).cache = .ok none := by
    rw [PointQuery.Plan.fromSession?, hempty]
  have hpopulate := PointQuery.Plan.populateSession_of_none hkeyed
    (Keyring.plan_policy hq.entity hst) hfetches.rowOf_spec.1.full (hempty _)
  obtain ⟨-, hdb, hafter⟩ :=
    run_of_open hs hcacheable hcache hq.entity hst hanswer hfirst (fun _ => hopen) hpopulate
  refine ⟨st, ρ, _, hst, hρ, hfetches, hitem, rfl, hdb, ?_, fun key => ?_⟩
  · rw [hafter]
    exact hcache
  · have hnone : (s.start t).cache.rows[key]? = none := Std.ExtTreeMap.getElem?_empty
    rw [hafter, SessionCache.rows_put, hnone]

/-- The row under the keys of a lookup answers it with what it reads of a record. -/
structure State.Answers (w : State Table) (q : Query α) (e : Entity) (prepare : ValuePreparer)
    (ρ : Record) : Prop where
  enabled : w.cache.isEnabled = true
  row : ∃ r, w.cache.get? (q.conditions.keys ⟨.fetch, some e⟩ prepare) = some r ∧ r.IsFull ∧
    (∀ n ∈ q.projection, r.cell? n.column.name = some (ρ n.column.name)) ∧
    ∀ n v, (n, v) ∈ q.conditions.equalities prepare →
      ∃ x, r.cell? n.column.name = some (some x) ∧ x.agrees v = true

theorem ignoresCounts_answers (q : Query α) (e : Entity) (prepare : ValuePreparer) (ρ : Record) :
    State.IgnoresCounts fun w => w.Answers q e prepare ρ := by
  intro w w' hmoved h
  refine ⟨?_, ?_⟩
  · rw [hmoved.cache]
    exact h.enabled
  · rw [hmoved.cache]
    exact h.row

/-- The keys of a lookup are keys of every row that has the values of its equalities. -/
theorem mem_rowKeys_of_keys (hkeyed : e.IsKeyedBy ns) {conditions : Conditions} {use : CacheUse}
    {prepare : ValuePreparer} {r : Row}
    (h : ∀ n v, (n, v) ∈ conditions.equalities prepare → r.Binds n v) {key : String}
    (hkey : key ∈ conditions.keys ⟨use, some e⟩ prepare) : key ∈ e.rowKeys ns r := by
  obtain ⟨-, n, hn, v, hv, rfl⟩ := Entity.of_mem_keys hkeyed hkey
  exact Entity.mem_rowKeys.2 ⟨n, hn, v, h n v hv, rfl⟩

/-- The row that was fetched has the values of the filters. -/
theorem Query.Fetches.binds {prepare : ValuePreparer} {ρ : Record} (h : q.Fetches prepare ρ)
    (n : Node) (v : Value) (hv : (n, v) ∈ q.conditions.equalities prepare) :
    (q.rowOf prepare ρ).Binds n v := by
  obtain ⟨hmirror, -, hcolumns⟩ := h.rowOf_spec
  rw [Row.Binds, hmirror.cell_eq ((hcolumns _).2 (.inr ⟨n, v, hv, rfl⟩)), h n v hv]

/-- A row that has the values of the filters is accepted by them. -/
theorem agrees_of_binds (hexact : ∀ c, ExactOn (Fits c)) (hq : q.IsOf e Fits s.prepare)
    {st : Statement} (hst : q.single.statement s.prepare = .ok st) {r : Row}
    (h : ∀ n v, (n, v) ∈ q.conditions.equalities s.prepare → r.Binds n v) (n : Node) (v : Value)
    (hv : (n, v) ∈ q.conditions.equalities s.prepare) :
    ∃ x, r.cell? n.column.name = some (some x) ∧ x.agrees v = true := by
  obtain ⟨_, clauses, -, -, hclauses, -⟩ := Query.of_statement (q := q.single.query) hst
  exact ⟨v, h n v hv, (hexact _).refl (Keyring.fits_equality hq.filters hclauses hv)⟩

/-- The row that a lookup brought answers it. -/
theorem Query.Fetches.answers {ρ : Record} (h : q.Fetches s.prepare ρ)
    (hexact : ∀ c, ExactOn (Fits c)) (hq : q.IsOf e Fits s.prepare) {st : Statement}
    (hst : q.single.statement s.prepare = .ok st) (henabled : w.cache.isEnabled = true)
    (hget : w.cache.get? (q.conditions.keys ⟨.fetch, some e⟩ s.prepare) =
      some (q.rowOf s.prepare ρ)) : w.Answers q e s.prepare ρ := by
  obtain ⟨hmirror, -, hcolumns⟩ := h.rowOf_spec
  refine ⟨henabled, _, hget, hmirror.full, fun n hn => ?_, agrees_of_binds hexact hq hst h.binds⟩
  exact hmirror.cell_eq ((hcolumns _).2 (.inl (List.mem_map_of_mem hn)))

/-- A row of the session cache that a lookup accepts answers it, whatever the table holds. -/
theorem run_of_accepted (hcacheable : e.isCacheable = true) (henabled : w.cache.isEnabled = true)
    (hentity : ∀ n ∈ q.projection, n.entity = e) (hasks : q.AsksCache e s.prepare)
    {st : Statement} (hst : q.single.statement s.prepare = .ok st) {r : Row}
    (hget : w.cache.get? (q.conditions.keys ⟨.fetch, some e⟩ s.prepare) = some r)
    (haccepts : (q.single.plan s.prepare).accepts r = .ok true) :
    (q.single.run s none w).1 = (q.mapper r).map some ∧
      w.Moved w.database (q.single.run s none w).2 := by
  have hadmits : (q.single.plan s.prepare).policy.admits w.cache = true := by
    rw [Keyring.plan_policy hentity hst]
    exact CachePolicy.admits_of_isEnabled henabled hcacheable .fetch
  have hfound : (q.single.plan s.prepare).fromSession? w.cache = .ok (some r) :=
    PointQuery.Plan.fromSession?_eq_some.2
      ⟨by rw [Keyring.plan_keys hentity hst, hget], haccepts⟩
  have hmoved := w.moved_events (w.events ++ q.single.query.warnings st)
  have hwithout := PointQuery.Plan.withoutUnit_of_row
    (w := { w with events := w.events ++ q.single.query.warnings st }) hasks.1 hadmits hfound
  have hresolve : (q.single.plan s.prepare).resolve none
      { w with events := w.events ++ q.single.query.warnings st } = _ := hwithout
  obtain ⟨hresult, hend⟩ := single_run_of_hit hst hresolve
  exact ⟨hresult, (hmoved.trans (State.moved_hit _ .session)).trans hend⟩

/-- A row that answers does so with what the lookup reads of the record. -/
theorem run_of_answers (hcacheable : e.isCacheable = true) (hq : q.ReadsProjection)
    (hentity : ∀ n ∈ q.projection, n.entity = e) (hasks : q.AsksCache e s.prepare)
    {st : Statement} (hst : q.single.statement s.prepare = .ok st) {ρ : Record}
    (h : w.Answers q e s.prepare ρ) :
    (q.single.run s none w).1 =
        (q.mapper (ρ.row (q.projection.map (·.column.name)))).map some ∧
      w.Moved w.database (q.single.run s none w).2 := by
  obtain ⟨henabled, r, hget, hfull, hcells, hequalities⟩ := h
  have haccepts : (q.single.plan s.prepare).accepts r = .ok true := by
    obtain ⟨b, hb, hspec⟩ := (q.single.plan s.prepare).accepts_spec hfull
    have hcovers : ∀ n ∈ (q.single.plan s.prepare).projection, r.cell? n.column.name ≠ none := by
      intro n hn
      rw [hcells n hn]
      simp
    rw [hb, hspec.2 ⟨hcovers, hequalities⟩]
  obtain ⟨hresult, hmoved⟩ :=
    run_of_accepted hcacheable henabled hentity hasks hst hget haccepts
  refine ⟨hresult.trans ?_, hmoved⟩
  rw [hq r _ hfull (Record.isFull_row ρ (q.projection.map (·.column.name)))]
  intro n hn
  refine ⟨_, hcells n hn, ?_⟩
  rw [Record.cell?_row, if_pos (List.mem_map_of_mem hn)]

/-! ## Keys that are shared -/

/-- The statement of a lookup with the filters of another one. -/
theorem exists_statement {prepare : ValuePreparer} (hentity : ∀ n ∈ q.projection, n.entity = e)
    {st : Statement} (hst : q.single.statement prepare = .ok st) {β : Type} {q' : Query β}
    (hentity' : ∀ n ∈ q'.projection, n.entity = e) {st' : Statement}
    (hst' : q'.single.statement prepare = .ok st') :
    ∃ st, (q.restrictedBy q'.conditions).single.statement prepare = .ok st := by
  have hsame := Keyring.entity_of_single hentity hst
  have he : (q.restrictedBy q'.conditions).single.query.entity = .ok e := hsame
  obtain ⟨_, hpending, hbuilt⟩ := bind_eq_ok.1 hst'
  obtain ⟨e', he', hbuilt⟩ := bind_eq_ok.1 hbuilt
  obtain ⟨_, hcheck, hbuilt⟩ := bind_eq_ok.1 hbuilt
  obtain ⟨clauses, hclauses, -⟩ := bind_eq_ok.1 hbuilt
  rw [Keyring.entity_of_single hentity' hst', Except.ok.injEq] at he'
  subst he'
  have hpending' : (q.restrictedBy q'.conditions).single.query.conditions.pending.check = _ :=
    hpending
  have hcheck' : (q.restrictedBy q'.conditions).single.query.conditions.checkEntity e = _ := hcheck
  have hclauses' : (q.restrictedBy q'.conditions).single.query.conditions.filterClauses prepare =
    _ := hclauses
  unfold PointQuery.statement Query.statement
  simp only [bind, Except.bind, hpending', he, hcheck', hclauses']
  exact ⟨_, rfl⟩

section

variable {β : Type} {q' : Query β} {row : Row} {ρ : Record} {key : String}

/-- A lookup that is answered by a row leaves this row to other lookups by the same filters. -/
theorem answers_of_accepted (hcacheable : e.isCacheable = true)
    (henabled : w.cache.isEnabled = true) (hq' : q'.IsOf e Fits s.prepare) {st' : Statement}
    (hst' : q'.single.statement s.prepare = .ok st') (huses' : q'.options.usesCache = true)
    (hkey' : key ∈ q'.conditions.keys ⟨.fetch, some e⟩ s.prepare)
    (hget : ∀ keys : List String, key ∈ keys → w.cache.get? keys = some row)
    (hrow : row.Mirrors [] ρ)
    (hread : ∀ n ∈ q.projection, row.cell? n.column.name = some (ρ n.column.name))
    (haccepts : (q'.single.plan s.prepare).accepts row = .ok true) :
    (q'.single.run s none w).2.Answers (q.restrictedBy q'.conditions) e s.prepare ρ := by
  obtain ⟨b, hb, haccepted⟩ := (q'.single.plan s.prepare).accepts_spec hrow.full
  rw [haccepts] at hb
  obtain ⟨hcovers, hequalities⟩ := haccepted.1 (Except.ok.inj hb).symm
  have hanswers : w.Answers q' e s.prepare ρ :=
    ⟨henabled, row, hget _ hkey', hrow.full, fun n hn => hrow.cell_eq (hcovers n hn), hequalities⟩
  have hmoved := (run_of_answers hcacheable hq'.reads hq'.entity
    ⟨huses', List.ne_nil_of_mem hkey'⟩ hst' hanswers).2
  refine ignoresCounts_answers _ e s.prepare ρ w _ hmoved ?_
  exact ⟨henabled, row, hget _ hkey', hrow.full, hread, hequalities⟩

/-- A lookup that is not answered by a row lays its own row over it, and leaves the columns that it
does not read as they were. -/
theorem answers_of_laid (hkeyed : e.IsKeyedBy ns) (hexact : ∀ c, ExactOn (Fits c))
    (hs : s.executor = E.executor) (hcacheable : e.isCacheable = true)
    (henabled : w.cache.isEnabled = true) (hq' : q'.IsOf e Fits s.prepare) {y : β}
    (hy : ((Call.lookup q').direct s w.database).1 = .ok (some y))
    (hkey' : key ∈ q'.conditions.keys ⟨.fetch, some e⟩ s.prepare)
    (hget : ∀ keys : List String, key ∈ keys → w.cache.get? keys = some row)
    (hrow : row.Mirrors [] ρ)
    (hread : ∀ n ∈ q.projection, row.cell? n.column.name = some (ρ n.column.name))
    (hapart : ∀ n ∈ q.projection, ¬Keyring.Reads q' s.prepare n.column.name)
    (hopen : q'.options.usesCache = true →
      (q'.single.plan s.prepare).fromSession? w.cache = .ok none) :
    (q'.single.run s none w).2.Answers (q.restrictedBy q'.conditions) e s.prepare ρ := by
  obtain ⟨st', σ, answer, hst', -, hfetches, hanswer, hfirst, -⟩ := finds_of_direct hs hexact hq' hy
  obtain ⟨hmirror, hpairs, hcolumns⟩ := hfetches.rowOf_spec
  obtain ⟨merged, hmerged, hfull, hcell, -⟩ := Row.merge_of_all hrow.full hpairs
  have hpopulate := PointQuery.Plan.populateSession_of_some hkeyed
    (Keyring.plan_policy hq'.entity hst') hmirror.full
    (hget _ (mem_rowKeys_of_keys hkeyed hfetches.binds hkey')) hmerged hfull
  obtain ⟨-, -, hafter⟩ :=
    run_of_open hs hcacheable henabled hq'.entity hst' hanswer hfirst hopen hpopulate
  have hbinds : ∀ n v, (n, v) ∈ q'.conditions.equalities s.prepare → merged.Binds n v := by
    intro n v hv
    have hbound := hfetches.binds n v hv
    unfold Row.Binds at hbound
    rw [Row.Binds, hcell, hbound, hfetches n v hv]
    rfl
  have hkeys : ∀ k ∈ q'.conditions.keys ⟨.fetch, some e⟩ s.prepare,
      (w.cache.put (e.rowKeys ns merged) merged).rows[k]? = some merged := fun k hk => by
    rw [SessionCache.rows_put, if_pos (mem_rowKeys_of_keys hkeyed hbinds hk)]
  refine ⟨by rw [hafter]; exact henabled, ?_⟩
  rw [hafter]
  refine ⟨merged, SessionCache.get?_of_all (List.ne_nil_of_mem hkey') hkeys, hfull,
    fun n hn => ?_, agrees_of_binds hexact hq' hst' hbinds⟩
  have hnone : (q'.rowOf s.prepare σ).cell? n.column.name = none :=
    Classical.byContradiction fun hne => hapart n hn ((hcolumns _).1 hne)
  rw [hcell, hnone, ← hread n hn]
  rfl

/-- Where lookups share a cache key, and the second one reads none of the columns of the first
one, the item of the first one is found by the filters of the second one, whether or not they mean
the same record. -/
theorem confuses_of_shared_key (hkeyed : e.IsKeyedBy ns) (hexact : ∀ c, ExactOn (Fits c))
    (hs : s.executor = E.executor) (hcacheable : e.isCacheable = true)
    (hcache : s.config.cache.isEnabled = true) (hq : q.IsOf e Fits s.prepare)
    (hq' : q'.IsOf e Fits s.prepare) (huses : q.options.usesCache = true)
    (hkey : key ∈ q.conditions.keys ⟨.fetch, some e⟩ s.prepare)
    (hkey' : key ∈ q'.conditions.keys ⟨.fetch, some e⟩ s.prepare)
    (hapart : ∀ n ∈ q.projection, ¬Keyring.Reads q' s.prepare n.column.name) :
    s.Confuses q q' t := by
  intro x y hx hy
  obtain ⟨st, ρ, w, hst, -, hfetches, hitem, hrun, hdb, henabled, hrows⟩ :=
    run_of_start hkeyed hexact hs hcacheable hcache hq hx
  obtain ⟨st', -, -, hst', -⟩ := finds_of_direct hs hexact hq' hy
  obtain ⟨hmirror, -, hcolumns⟩ := hfetches.rowOf_spec
  have hread : ∀ n ∈ q.projection, (q.rowOf s.prepare ρ).cell? n.column.name =
      some (ρ n.column.name) := fun n hn =>
    hmirror.cell_eq ((hcolumns _).2 (.inl (List.mem_map_of_mem hn)))
  -- whatever stands in the cache is the row of the first lookup
  have hget : ∀ keys : List String, key ∈ keys →
      w.cache.get? keys = some (q.rowOf s.prepare ρ) := by
    intro keys hmem
    refine SessionCache.get?_eq_some hmem ?_ fun k _ r hr => ?_
    · rw [hrows, if_pos (mem_rowKeys_of_keys hkeyed hfetches.binds hkey)]
    · rw [hrows] at hr
      split at hr
      · exact (Option.some.inj hr).symm
      · exact absurd hr (by simp)
  have hanswers : (q'.single.run s none w).2.Answers (q.restrictedBy q'.conditions) e s.prepare
      ρ := by
    -- the second lookup takes this row for its own, or lays its own over it
    obtain ⟨b, hb, -⟩ := (q'.single.plan s.prepare).accepts_spec hmirror.full
    by_cases hhit : q'.options.usesCache = true ∧ b = true
    · rw [hhit.2] at hb
      exact answers_of_accepted hcacheable henabled hq' hst' hhit.1 hkey' hget hmirror hread hb
    · rw [← hdb] at hy
      refine answers_of_laid hkeyed hexact hs hcacheable henabled hq' hy hkey' hget hmirror hread
        hapart fun huses' => ?_
      have hfalse : b = false := by simpa [huses'] using hhit
      rw [PointQuery.Plan.fromSession?, Keyring.plan_keys hq'.entity hst', hget _ hkey']
      simp only [hb, hfalse]
      rfl
  obtain ⟨st₃, hst₃⟩ := exists_statement hq.entity hst hq'.entity hst'
  have hthird := (run_of_answers hcacheable (q := q.restrictedBy q'.conditions) hq.reads hq.entity
    ⟨huses, List.ne_nil_of_mem hkey'⟩ hst₃ hanswers).1
  have hend : (s.runAll none [.lookup q, .lookup q'] (s.start t)).2 =
      (q'.single.run s none w).2 := by
    rw [← hrun]
    rfl
  rw [hend, hthird]
  exact congrArg (Except.map some) hitem

end

/-! ## Columns that were read too often -/

/-- A row that a lookup brought keeps every column that the lookup reads when it follows an update:
none of them is set, and each was read more often than it is taken away. -/
def Query.Outlasts (q : Query α) (u : RowUpdate) : Prop :=
  ∀ n ∈ q.projection, (∀ p ∈ u.changes, p.1.column.name = n.column.name → ∀ c, p.2 ≠ .set c) ∧
    u.unknown.count n.column.name < (q.projection.map (·.column.name)).count n.column.name

/-- Such a row keeps what it held of the record. -/
theorem Query.Outlasts.updated {u : RowUpdate} (h : q.Outlasts u) {prepare : ValuePreparer}
    {ρ : Record} (hfetches : q.Fetches prepare ρ)
    (hfilters : u.conditions.equalities prepare = q.conditions.equalities prepare)
    (hassigned : ∀ n v, (n, v) ∈ q.conditions.equalities prepare →
      ∀ p ∈ u.changes, p.1.column.name ≠ n.column.name) :
    ∃ known r, Row.empty.setAll (u.known prepare) = .ok known ∧
      (do (← (q.rowOf prepare ρ).merge known).removeAll u.unknown) = .ok r ∧ r.IsFull ∧
      (∀ n ∈ q.projection, r.cell? n.column.name = some (ρ n.column.name)) ∧
      ∀ n v, (n, v) ∈ q.conditions.equalities prepare → r.Binds n v := by
  obtain ⟨hmirror, hpairs, hcolumns⟩ := hfetches.rowOf_spec
  obtain ⟨known, r, hknown, hr, hfull, hcell⟩ := Row.updated_of_holds hmirror.full prepare u
  -- of the columns that are not set, the update knows what the record holds
  have hgiven : ∀ c, (∀ p ∈ u.changes, p.1.column.name = c → ∀ x, p.2 ≠ .set x) →
      ∀ p ∈ u.known prepare, p.1 = c → p.2 = ρ c := by
    intro c hc p hp hpc
    rw [Row.known_eq, List.mem_append, hfilters] at hp
    rcases hp with hp | hp
    · obtain ⟨⟨n, v⟩, hv, rfl⟩ := List.mem_map.1 hp
      rw [← hpc]
      exact (hfetches n v hv).symm
    · obtain ⟨⟨n, y⟩, hy, hset⟩ := List.mem_filterMap.1 hp
      cases y with
      | set y =>
        rw [← Option.some.inj hset] at hpc
        exact absurd rfl (hc _ hy hpc y)
      | _ => exact absurd hset (by simp)
  have hholds : ∀ c, (q.rowOf prepare ρ).Holds c (ρ c) := fun c x hx => hpairs _ hx
  refine ⟨known, r, hknown, hr, hfull, fun n hn => ?_, fun n v hv => ?_⟩
  · obtain ⟨hset, hcount⟩ := h n hn
    exact hcell _ _ (hholds _) (hgiven _ hset)
      (Nat.lt_of_lt_of_le hcount (q.count_le_rowOf prepare ρ n.column.name))
  · have hnot : ∀ p ∈ u.changes, p.1.column.name = n.column.name → ∀ x, p.2 ≠ .set x :=
      fun p hp he => absurd he (hassigned n v hv p hp)
    have hzero : u.unknown.count n.column.name = 0 :=
      List.count_eq_zero.2 (Keyring.not_mem_unknown (hassigned n v hv))
    have hplace : 0 < (q.rowOf prepare ρ).columns.count n.column.name := by
      have hin := Row.contains_eq hmirror.full n.column.name
      have hsome := (hcolumns n.column.name).2 (.inr ⟨n, v, hv, rfl⟩)
      rw [Option.isSome_iff_ne_none.2 hsome] at hin
      exact List.count_pos_iff.2 (by simpa [Row.contains] using hin)
    rw [Row.Binds, hcell _ _ (hholds _) (hgiven _ hnot) (by rw [hzero]; exact hplace),
      hfetches n v hv]

/-- The row that answers a lookup goes on doing so after an update of its record that the columns
of the lookup outlast. -/
theorem answers_of_outlasts (hkeyed : e.IsKeyedBy ns) (hexact : ∀ c, ExactOn (Fits c))
    (hs : s.executor = E.executor) (hcacheable : e.isCacheable = true)
    (hq : q.IsOf e Fits s.prepare) (hasks : q.AsksCache e s.prepare) {st : Statement}
    (hqst : q.single.statement s.prepare = .ok st) {ρ : Record} (hfetches : q.Fetches s.prepare ρ)
    (henabled : w.cache.isEnabled = true)
    (hget : w.cache.get? (q.conditions.keys ⟨.fetch, some e⟩ s.prepare) =
      some (q.rowOf s.prepare ρ)) {u : RowUpdate} (hentity : ∀ p ∈ u.changes, p.1.entity = e)
    (hfilters : u.conditions.filters = q.conditions.filters)
    (hassigned : ∀ st t, u.statement s.prepare = .ok st → E.verdict st t = .accept →
      ∀ n v, (n, v) ∈ q.conditions.equalities s.prepare →
        ∀ p ∈ u.changes, p.1.column.name ≠ n.column.name)
    (houtlasts : q.Outlasts u) : (u.run s none w).2.Answers q e s.prepare ρ := by
  have hbefore := hfetches.answers hexact hq hqst henabled hget
  have hequalities : u.conditions.equalities s.prepare = q.conditions.equalities s.prepare := by
    unfold Conditions.equalities
    rw [hfilters]
  -- the update asks for the row by the keys that the query filed it under
  have hkeys : u.conditions.keys ⟨.update, some e⟩ s.prepare =
      q.conditions.keys ⟨.fetch, some e⟩ s.prepare := by
    unfold Conditions.keys Conditions.onlyEqualities
    rw [hequalities, hfilters]
    rfl
  have hignores := ignoresCounts_answers q e s.prepare ρ
  refine (update_follows hignores hbefore fun st hst => ?_).kept
  obtain ⟨e', _, _, he', -, -, hchanges, hstatement⟩ := RowUpdate.of_statement hst
  refine canWrite_of_accepted hignores hbefore hs (by rw [hstatement]; simp)
    fun hverdict w₁ hw₁ _ => ?_
  have hsame := RowUpdate.entity_eq_of_changes he' hchanges hentity
  subst hsame
  obtain ⟨known, r, hknown, hr, hfull, hread, hbinds⟩ :=
    houtlasts.updated hfetches hequalities (hassigned st _ hst hverdict)
  obtain ⟨b, hupdate⟩ := Entity.update_eq hkeyed .update
    (w.cache.invalidate (e'.rowKeys ns (q.rowOf s.prepare ρ))) hfull
  have hmerge := Keyring.merge_of_ok (p := ⟨.update, some e'⟩) hasks.2
    (by rw [hget]; exact Entity.keysOfRow_eq hkeyed .update hfetches.rowOf_spec.1.full)
    (by rw [hget]; exact hr) hupdate
  have hadmits := CachePolicy.admits_of_isEnabled henabled hcacheable .update
  rw [← hkeys, ← hw₁.cache] at hmerge
  rw [← hw₁.cache] at hadmits henabled
  refine ⟨_, RowUpdate.writeThrough_of_admitted he' hadmits hknown hmerge, rfl, henabled, r, ?_,
    hfull, hread, agrees_of_binds hexact hq hqst hbinds⟩
  refine SessionCache.get?_of_all hasks.2 fun key hkey => ?_
  rw [SessionCache.rows_put, if_pos (mem_rowKeys_of_keys hkeyed hbinds hkey)]

/-- A lookup stays behind an update that its columns outlast. -/
theorem staysBehind_of_outlasts (hkeyed : e.IsKeyedBy ns) (hexact : ∀ c, ExactOn (Fits c))
    (hs : s.executor = E.executor) (hcacheable : e.isCacheable = true)
    (hcache : s.config.cache.isEnabled = true) (hq : q.IsOf e Fits s.prepare)
    (hasks : q.AsksCache e s.prepare) {u : RowUpdate} (hentity : ∀ p ∈ u.changes, p.1.entity = e)
    (hfilters : u.conditions.filters = q.conditions.filters)
    (hassigned : ∀ st t, u.statement s.prepare = .ok st → E.verdict st t = .accept →
      ∀ n v, (n, v) ∈ q.conditions.equalities s.prepare →
        ∀ p ∈ u.changes, p.1.column.name ≠ n.column.name)
    (houtlasts : q.Outlasts u) : s.StaysBehind q [.update u] t := by
  intro x hx
  obtain ⟨st, ρ, w, hst, -, hfetches, hitem, hrun, -, henabled, hrows⟩ :=
    run_of_start hkeyed hexact hs hcacheable hcache hq hx
  have hget : w.cache.get? (q.conditions.keys ⟨.fetch, some e⟩ s.prepare) =
      some (q.rowOf s.prepare ρ) := by
    refine SessionCache.get?_of_all hasks.2 fun key hkey => ?_
    rw [hrows, if_pos (mem_rowKeys_of_keys hkeyed hfetches.binds hkey)]
  have hanswers := answers_of_outlasts hkeyed hexact hs hcacheable hq hasks hst hfetches henabled
    hget hentity hfilters hassigned houtlasts
  have hend : (s.runAll none [.lookup q, .update u] (s.start t)).2 = (u.run s none w).2 := by
    rw [← hrun]
    rfl
  rw [hend, (run_of_answers hcacheable hq.reads hq.entity hasks hst hanswers).1, hitem]
  rfl

end

end WideRow
