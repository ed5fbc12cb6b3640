import WideRow.Proofs.Coherence
import WideRow.Proofs.Following

/-!
# How the session cache is kept

Outside all units, what one operation does to a session cache whose rows are right. The
database is a table in memory, and `Keyring.Sound` says of it and of the cache what the
operations rely on and keep: the key columns tell the records apart, and the cache is coherent.

For each operation there is one lemma, and all of them say the same: the operation comes to what
the table alone says, and leaves things sound (`lookup_step`, `insert_step`, `update_step`,
`delete_step`). What they ask of the operation is that its values fit its columns, and for the two
faults of the cache that it stays clear of them:

* a lookup that keeps a row under a unique column reads the primary key with it, because a row
  without it is out of reach of the writes, which name their row by the primary key;
* a column that is changed element by element is never read twice, because a row loses it once.
-/

namespace WideRow

/-! ## Operations on a table in memory -/

section

variable {E : Engine} {s : Session Table} {w : State Table}

/-- A session on a table in memory replies what the table does. -/
theorem reply_of_engine (hs : s.executor = E.executor) (o : StatementOptions) (st : Statement)
    (t : Table) : s.reply o st t = E.execute st t := by
  rw [Session.reply, hs]
  rfl

/-- A statement that changes nothing is answered, and the table is as it was. -/
theorem reply_of_unchanged (hs : s.executor = E.executor) (o : StatementOptions) {st : Statement}
    {t : Table} (h : (E.execute st t).2 = t) : s.reply o st t = ((E.execute st t).1, t) := by
  rw [reply_of_engine hs]
  exact Prod.ext rfl h

/-- A write that was not carried out leaves the table as it was, so that only one that was
accepted, and changed the table as it says, is left to be followed. -/
theorem canWrite_of_accepted {Q : State Table → Prop} (hQ : State.IgnoresCounts Q) (hw : Q w)
    (hs : s.executor = E.executor) {o : StatementOptions} {st : Statement}
    (hst : ∀ x, st ≠ .select x) {through : State Table → Outcome Table Unit}
    (h : E.verdict st w.database = .accept → ∀ w₁, w.Moved w₁.database w₁ →
      E.change st w.database = .ok w₁.database →
      ∃ w₂, through w₁ = (.ok (), w₂) ∧ w₂.database = w₁.database ∧ Q w₂) :
    s.CanWrite Q w o st through where
  unapplied hnot w₁ hw₁ := by
    rw [reply_of_engine hs] at hnot hw₁
    rw [Engine.execute_of_not_applied hnot] at hw₁
    exact hQ _ _ hw₁ hw
  applied happlied w₁ hw₁ := by
    rw [reply_of_engine hs] at happlied hw₁
    obtain ⟨hverdict, hchange⟩ := Engine.of_applied hst happlied
    have hdb := hw₁.database
    rw [← hdb] at hw₁ hchange
    exact h hverdict w₁ hw₁ hchange

/-- Reading all rows changes nothing. -/
theorem read_keeps {α : Type} {q : Query α} {unit : Option Nat} {Q : State Table → Prop}
    (hQ : State.IgnoresCounts Q) (hs : s.executor = E.executor) (h : Q w) :
    Call.Follows s Q (.read q) w (q.run s unit w) := by
  refine read_follows hQ h fun st hst w₁ hw₁ => ?_
  obtain ⟨_, _, -, -, -, rfl⟩ := Query.of_statement hst
  rw [reply_of_engine hs] at hw₁
  exact hQ w w₁ hw₁ h

/-- Counting rows changes nothing. -/
theorem count_keeps {c : RowCount} {unit : Option Nat} {Q : State Table → Prop}
    (hQ : State.IgnoresCounts Q) (hs : s.executor = E.executor) (h : Q w) :
    Call.Follows s Q (.count c) w (c.run s unit w) := by
  refine count_follows hQ h fun st hst w₁ hw₁ => ?_
  obtain ⟨_, rfl⟩ := RowCount.of_statement hst
  rw [reply_of_engine hs] at hw₁
  exact hQ w w₁ hw₁ h

end

namespace Keyring

variable {K : Keyring} {t : Table} {v : Value} {f : Record → Record}

/-! ## The table after a write -/

/-- A change that leaves the key columns leaves a table. -/
theorem IsTable.map (h : K.IsTable t) (hf : ∀ ρ, ∀ n ∈ K.nodes,
    f ρ n.column.name = ρ n.column.name) : K.IsTable (t.map f) where
  keys n hn := (h.keys n hn).map fun ρ => hf ρ n hn
  valued := by
    intro σ hσ
    obtain ⟨ρ, hρ, rfl⟩ := List.mem_map.1 hσ
    rw [hf ρ _ K.primary_mem]
    exact h.valued ρ hρ

/-- Fewer records are a table, too. -/
theorem IsTable.filter (h : K.IsTable t) (p : Record → Bool) : K.IsTable (t.filter p) where
  keys n hn := (h.keys n hn).filter p
  valued ρ hρ := h.valued ρ (List.mem_filter.1 hρ).1

/-- A record that is changed or added under its primary key leaves a table. -/
theorem IsTable.upsert (h : K.IsTable t) (hv : K.Fits K.primary.column.name v)
    (hf : ∀ ρ, ρ K.primary.column.name = some v → ∀ n ∈ K.nodes,
      f ρ n.column.name = ρ n.column.name) :
    K.IsTable (t.upsert K.primary.column.name v f) where
  keys n hn := (h.keys n hn).upsert (K.exact _) hv (fun hc => by rw [hc]; exact hv)
    fun ρ hρ => hf ρ hρ n hn
  valued := by
    intro σ hσ
    rcases (Table.mem_upsert (K.exact _) (h.keys _ K.primary_mem) hv).1 hσ with rfl | ⟨hσ, -⟩
    · have hkey := Table.recordAt_key (K.exact _) hv K.primary.column.name t
      exact ⟨v, by rw [hf _ hkey _ K.primary_mem, hkey]⟩
    · exact h.valued σ hσ

theorem isTable_nil : K.IsTable [] where
  keys _ _ := ⟨fun _ h => absurd h (by simp), fun _ h => absurd h (by simp)⟩
  valued _ h := absurd h (by simp)

end Keyring

/-! ## Operations whose values fit -/

/-- Every value that a filter binds fits its column. -/
def Conditions.Fit (Fits : String → Value → Prop) (prepare : ValuePreparer) (c : Conditions) :
    Prop :=
  ∀ clauses, c.filterClauses prepare = .ok clauses → ∀ clause ∈ clauses,
    ∀ v ∈ clause.values, Fits (Identifier.read clause.column) v

/-- Filters fit if the values in their clauses do. -/
theorem Conditions.fit_of_clauses {Fits : String → Value → Prop} {prepare : ValuePreparer}
    {c : Conditions} {clauses : List Clause} (h : c.filterClauses prepare = .ok clauses)
    (hfits : ∀ clause ∈ clauses, ∀ v ∈ clause.values, Fits (Identifier.read clause.column) v) :
    c.Fit Fits prepare := by
  intro clauses' h'
  rw [h, Except.ok.injEq] at h'
  rwa [← h']

/-- The filters are one equality, on this column. -/
def Conditions.Names (c : Conditions) (k : Node) : Prop :=
  ∃ f, c.filters = [f] ∧ f.node = k ∧ f.operator = .eq

/-- Such filters make one clause. -/
theorem Conditions.of_names {c : Conditions} {k : Node} (h : c.Names k) {prepare : ValuePreparer}
    {clauses : List Clause} (hclauses : c.filterClauses prepare = .ok clauses) :
    c.onlyEqualities = true ∧ ∃ v, c.equalities prepare = [(k, v)] ∧
      clauses = [⟨k.column.cql, .eq, [v]⟩] := by
  obtain ⟨f, hf, rfl, hop⟩ := h
  have honly : c.onlyEqualities = true := by simp [onlyEqualities, hf, hop]
  unfold filterClauses at hclauses
  rw [hf, List.mapM_cons] at hclauses
  obtain ⟨clause, hclause, hclauses⟩ := bind_eq_ok.1 hclauses
  obtain ⟨v, hv, rfl⟩ := Filter.of_clause_eq hclause hop
  refine ⟨honly, v, ?_, (Except.ok.inj hclauses).symm⟩
  simp [equalities, hf, hv]

/-- The clauses of such filters restrict this column alone. -/
theorem Conditions.restricts_of_names {c : Conditions} {k : Node} (h : c.Names k)
    {prepare : ValuePreparer} {clauses : List Clause}
    (hclauses : c.filterClauses prepare = .ok clauses) :
    clauses.length ≤ 1 ∧ ∀ clause ∈ clauses, Identifier.read clause.column = k.column.name := by
  obtain ⟨f, hf, rfl, -⟩ := h
  constructor
  · unfold filterClauses at hclauses
    rw [hf, List.mapM_cons] at hclauses
    obtain ⟨clause, -, hclauses⟩ := bind_eq_ok.1 hclauses
    have hone : [clause] = clauses := Except.ok.inj hclauses
    rw [← hone]
    exact Nat.le_refl 1
  · intro clause hmem
    obtain ⟨g, hg, hcolumn⟩ := exists_filter hclauses hmem
    rw [hf, List.mem_singleton] at hg
    rw [hcolumn, hg, Identifier.read_cql]

namespace Keyring

variable {K : Keyring} {t : Table} {v : Value}

/-- The columns that a row has once it was read and completed. -/
def Reads {α : Type} (q : Query α) (prepare : ValuePreparer) (column : String) : Prop :=
  column ∈ q.projection.map (·.column.name) ∨
    ∃ n v, (n, v) ∈ q.conditions.equalities prepare ∧ n.column.name = column

/-- A lookup of the entity that the cache can take part in. -/
structure FitsLookup (K : Keyring) (once : List String) (prepare : ValuePreparer) {α : Type}
    (q : Query α) : Prop where
  /-- What is made of a row depends on the columns that are read. -/
  reads : q.ReadsProjection
  entity : ∀ n ∈ q.projection, n.entity = K.entity
  filters : q.conditions.Fit K.Fits prepare
  /-- No column that is changed element by element is read twice. -/
  once : ∀ c ∈ once, (q.projection.map (·.column.name)).count c ≤ 1
  /-- Whoever reads a key column reads the primary key. -/
  primary : ∀ n ∈ K.nodes, Reads q prepare n.column.name →
    Reads q prepare K.primary.column.name

/-- What operations rely on and keep. -/
structure Sound (K : Keyring) (once : List String) (t : Table) (c : SessionCache) : Prop where
  enabled : c.isEnabled = true
  table : K.IsTable t
  coherent : K.Coherent once (c.rows[·]?) t

/-- The table and the session cache of a state are sound. -/
def SoundIn (K : Keyring) (once : List String) (w : State Table) : Prop :=
  K.Sound once w.database w.cache

theorem ignoresCounts_soundIn (K : Keyring) (once : List String) :
    State.IgnoresCounts (K.SoundIn once) := by
  intro w w' hmoved h
  unfold SoundIn
  rw [hmoved.database, hmoved.cache]
  exact h

/-- A value that a filter asks for fits its column. -/
theorem fits_equality {Fits : String → Value → Prop} {prepare : ValuePreparer} {c : Conditions}
    (h : c.Fit Fits prepare) {clauses : List Clause}
    (hclauses : c.filterClauses prepare = .ok clauses) {n : Node}
    (hv : (n, v) ∈ c.equalities prepare) : Fits n.column.name v := by
  have hfits := h clauses hclauses _ (Conditions.exists_clause hclauses hv) v
    (List.mem_singleton_self v)
  rwa [Identifier.read_cql] at hfits

theorem fits_of_equalities {Fits : String → Value → Prop} {prepare : ValuePreparer}
    {c : Conditions} (h : c.Fit Fits prepare) {clauses : List Clause}
    (hclauses : c.filterClauses prepare = .ok clauses) {n : Node}
    (hvalues : c.equalities prepare = [(n, v)]) : Fits n.column.name v :=
  fits_equality h hclauses (by rw [hvalues]; exact List.mem_singleton_self _)

/-- The keys of filters are of values that equalities ask for. -/
theorem of_mem_keys {prepare : ValuePreparer} {c : Conditions} {use : CacheUse} {key : String}
    (h : key ∈ c.keys ⟨use, some K.entity⟩ prepare) : c.onlyEqualities = true ∧
      ∃ n ∈ K.nodes, ∃ v, (n, v) ∈ c.equalities prepare ∧ K.key n v = key :=
  Entity.of_mem_keys K.keyed h

/-- Filters that name a record by one of its keys have that key. -/
theorem mem_keys_of_names {n : Node} (hn : n ∈ K.nodes) {prepare : ValuePreparer}
    {c : Conditions} (heq : c.onlyEqualities = true) (hvalues : c.equalities prepare = [(n, v)])
    (use : CacheUse) (key : String) :
    key ∈ c.keys ⟨use, some K.entity⟩ prepare ↔ key = K.key n v := by
  constructor
  · intro h
    obtain ⟨-, m, -, u, hu, rfl⟩ := of_mem_keys h
    rw [hvalues, List.mem_singleton, Prod.mk.injEq] at hu
    rw [hu.1, hu.2]
  · rintro rfl
    rw [Entity.keys_eq K.keyed, if_pos heq, hvalues]
    exact Entity.mem_boundKeys.2 ⟨n, hn, v, by simp, rfl⟩

/-- A full row of the entity has the keys that it is filed under. -/
theorem keysOfRow_eq (use : CacheUse) {r : Row} (h : r.IsFull) :
    (⟨use, some K.entity⟩ : CachePolicy).keysOfRow r = .ok (K.keysOf r) :=
  Entity.keysOfRow_eq K.keyed use h

/-- To store a full row is to put it under all of its keys. -/
theorem update_eq (use : CacheUse) (c : SessionCache) {r : Row} (h : r.IsFull) :
    ∃ b, (⟨use, some K.entity⟩ : CachePolicy).update c r = .ok (b, c.put (K.keysOf r) r) :=
  Entity.update_eq K.keyed use c h

/-- Nothing of the entity is found after its table was evicted. -/
theorem rows_invalidateSchema (c : SessionCache) (n : Node) (v : Value) :
    (c.invalidateSchema K.entity.table.name).rows[K.key n v]? = none :=
  SessionCache.rows_invalidateSchema ..

end Keyring

/-! ## Lookups -/

namespace PointQuery.Plan

variable {e : Entity} {ns : List Node} {p : Plan} {c : SessionCache} {r : Row}

/-- A row whose keys are free goes in as it is. -/
theorem populateSession_of_none (hkeyed : e.IsKeyedBy ns) (hp : p.policy = ⟨.fetch, some e⟩)
    (hr : r.IsFull) (hget : c.get? (e.rowKeys ns r) = none) :
    p.populateSession r c = .ok (c.put (e.rowKeys ns r) r) := by
  rw [populateSession, hp, Entity.keysOfRow_eq hkeyed _ hr]
  obtain ⟨b, hupdate⟩ := Entity.update_eq hkeyed .fetch c hr
  by_cases hnil : e.rowKeys ns r = []
  · rw [hnil]
    rfl
  · have hkeys : (e.rowKeys ns r).isEmpty = false := by simpa using hnil
    simp only [bind, Except.bind, hkeys, Bool.false_eq_true, if_false, hget, hupdate]
    rfl

/-- A row goes over the one that is known. -/
theorem populateSession_of_some (hkeyed : e.IsKeyedBy ns) (hp : p.policy = ⟨.fetch, some e⟩)
    (hr : r.IsFull) {known merged : Row} (hget : c.get? (e.rowKeys ns r) = some known)
    (hmerged : known.merge r = .ok merged) (hfull : merged.IsFull) :
    p.populateSession r c = .ok (c.put (e.rowKeys ns merged) merged) := by
  rw [populateSession, hp, Entity.keysOfRow_eq hkeyed _ hr]
  obtain ⟨b, hupdate⟩ := Entity.update_eq hkeyed .fetch c hfull
  have hkeys : (e.rowKeys ns r).isEmpty = false := by
    cases hnil : e.rowKeys ns r with
    | nil =>
      rw [hnil] at hget
      exact absurd hget (by simp)
    | cons _ _ => rfl
  simp only [bind, Except.bind, hkeys, Bool.false_eq_true, if_false, hget, hmerged, hupdate]
  rfl

end PointQuery.Plan

namespace Keyring

variable {K : Keyring} {once : List String} {E : Engine} {s : Session Table} {w : State Table}
  {t : Table} {c : SessionCache}

/-- The entity of a lookup whose columns are of one. -/
theorem entity_of_single {e : Entity} {α : Type} {q : Query α}
    (hentity : ∀ n ∈ q.projection, n.entity = e) {prepare : ValuePreparer} {st : Statement}
    (hst : q.single.statement prepare = .ok st) : q.single.query.entity = .ok e := by
  have hone : ∃ n, n ∈ q.projection := by
    obtain ⟨e, -, he, -⟩ := Query.of_statement (q := q.single.query) hst
    cases hp : q.projection with
    | nil =>
      have hnil : q.single.query.projection = [] := hp
      rw [Query.entity, hnil] at he
      exact absurd he (by simp)
    | cons n ns => exact ⟨n, List.mem_cons_self ..⟩
  obtain ⟨n, hn⟩ := hone
  rw [Query.entity_of_statement (q := q.single.query) hst (n := n) hn, hentity n hn]

/-- A lookup of columns of an entity goes by the policy of that entity. -/
theorem plan_policy {e : Entity} {α : Type} {q : Query α}
    (hentity : ∀ n ∈ q.projection, n.entity = e) {prepare : ValuePreparer} {st : Statement}
    (hst : q.single.statement prepare = .ok st) :
    (q.single.plan prepare).policy = ⟨.fetch, some e⟩ := by
  show (⟨.fetch, q.single.query.entity.toOption⟩ : CachePolicy) = _
  rw [entity_of_single hentity hst]
  rfl

theorem plan_keys {e : Entity} {α : Type} {q : Query α}
    (hentity : ∀ n ∈ q.projection, n.entity = e) {prepare : ValuePreparer} {st : Statement}
    (hst : q.single.statement prepare = .ok st) :
    (q.single.plan prepare).keys = q.conditions.keys ⟨.fetch, some e⟩ prepare := by
  rw [← plan_policy hentity hst]
  rfl

/-- A record that clauses select has the values that equalities ask for. -/
theorem value_of_selects {Fits : String → Value → Prop} (hexact : ∀ c, ExactOn (Fits c))
    {prepare : ValuePreparer} {conditions : Conditions} {clauses : List Clause}
    (hfits : conditions.Fit Fits prepare)
    (hclauses : conditions.filterClauses prepare = .ok clauses) {ρ : Record}
    (hρ : E.selects clauses ρ = true) {n : Node} {v : Value}
    (hv : (n, v) ∈ conditions.equalities prepare) : ρ n.column.name = some v :=
  Conditions.value_of_selects hclauses hρ hv (hexact _) (fits_equality hfits hclauses hv)

/-- A record that has another value than an equality asks for is not removed. -/
theorem mem_filter_of_ne {Fits : String → Value → Prop} (hexact : ∀ c, ExactOn (Fits c))
    {prepare : ValuePreparer} {conditions : Conditions} {clauses : List Clause}
    (hfits : conditions.Fit Fits prepare)
    (hclauses : conditions.filterClauses prepare = .ok clauses) {n : Node} {v : Value}
    (hv : (n, v) ∈ conditions.equalities prepare) {t : Table} {ρ : Record} (hρ : ρ ∈ t)
    (hne : ρ n.column.name ≠ some v) : ρ ∈ t.filter fun ρ => !E.selects clauses ρ := by
  refine List.mem_filter.2 ⟨hρ, ?_⟩
  have hnot : E.selects clauses ρ ≠ true := fun hselected =>
    hne (value_of_selects hexact hfits hclauses hselected hv)
  simpa using hnot

/-- The row that the table answers a lookup with, completed by what its filters ask for, is of a
record that has all of this. -/
theorem of_answer {α : Type} {q : Query α} (hq : K.FitsLookup once s.prepare q) {st : Statement}
    (hst : q.single.statement s.prepare = .ok st) {answer : ResultSet} {r : Row}
    (hreply : (E.execute st t).1 = .ok answer) (hfirst : answer.first? = some r) :
    ∃ ρ ∈ t, (∀ n v, (n, v) ∈ q.conditions.equalities s.prepare → ρ n.column.name = some v) ∧
      ((q.single.plan s.prepare).completed r).Mirrors once ρ ∧
      (∀ p ∈ ((q.single.plan s.prepare).completed r).pairs, p.2 = ρ p.1) ∧
      ∀ c, ((q.single.plan s.prepare).completed r).cell? c ≠ none ↔ Reads q s.prepare c := by
  obtain ⟨clauses, hclauses, -, answer', hanswer, hfirst'⟩ :=
    reply_of_lookup (E := E) (t := t) hst
  rw [hreply, Except.ok.injEq] at hanswer
  rw [← hanswer, hfirst] at hfirst'
  obtain ⟨ρ, hfind, rfl⟩ := Option.map_eq_some_iff.1 hfirst'.symm
  have hvalues : ∀ n v, (n, v) ∈ (q.single.plan s.prepare).equalities →
      ρ n.column.name = some v := fun n v hv =>
    value_of_selects K.exact hq.filters hclauses (List.find?_some hfind) hv
  exact ⟨ρ, List.mem_of_find?_eq_some hfind, hvalues,
    PointQuery.Plan.mirrors_completed (p := q.single.plan s.prepare) hq.once hvalues⟩

/-- Outside all units, the session cache answers a lookup with a row that the lookup accepts, and
otherwise the database can be asked. In between something may happen to the session cache. -/
theorem resolve_without_unit {Q : State Table → Prop} (after : State Table → State Table)
    (h : ∀ w₂, w.Moved w.database w₂ → (after w₂).database = w.database ∧ Q (after w₂))
    (hs : s.executor = E.executor) {α : Type} {q : Query α} {st : Statement}
    (hsame : (E.execute st w.database).2 = w.database)
    (hadmits : (q.single.plan s.prepare).policy.admits w.cache = true)
    (hhit : ∀ r, w.cache.get? (q.single.plan s.prepare).keys = some r → r.IsFull ∧
      ((q.single.plan s.prepare).accepts r = .ok true →
        (E.execute st w.database).1.bind q.itemOf = (q.mapper r).map some))
    (hmiss : ∀ w₂, w.Moved w.database w₂ →
      s.CanAnswer none Q q st w.database (after w₂) (.miss true))
    {w₁ : State Table} (hw₁ : w.Moved w.database w₁) :
    ∃ found w₂, (q.single.plan s.prepare).resolve none w₁ = (.ok found, w₂) ∧
      (after w₂).database = w.database ∧
      s.CanAnswer none Q q st w.database (after w₂) found := by
  have hreply := reply_of_unchanged hs q.options hsame
  have hcounted : ∀ {w₂ : State Table}, w₁.Moved w₁.database w₂ → w.Moved w.database w₂ := by
    intro w₂ hw₂
    rw [hw₁.database] at hw₂
    exact hw₁.trans hw₂
  have houtside := (q.single.plan s.prepare).outside_withoutUnit w₁
  rw [PointQuery.Plan.resolve]
  generalize (q.single.plan s.prepare).withoutUnit w₁ = outcome at houtside ⊢
  cases houtside with
  | passed _ =>
    rw [hw₁.cache, hadmits]
    exact ⟨.miss true, w₁, rfl, (h w₁ hw₁).1, hmiss w₁ hw₁⟩
  | broken _ _ hr =>
    -- a full row breaks nothing off
    obtain ⟨r, hget, haccepts⟩ := PointQuery.Plan.exists_of_fromSession?_error hr
    rw [hw₁.cache] at hget
    obtain ⟨b, hb, -⟩ := (q.single.plan s.prepare).accepts_spec (hhit r hget).1
    cases hb.symm.trans haccepts
  | missed _ _ _ =>
    have hmoved := hcounted (w₁.moved_miss .session)
    exact ⟨.miss true, w₁.miss .session, rfl, (h _ hmoved).1, hmiss _ hmoved⟩
  | hit _ _ hr =>
    obtain ⟨hget, haccepts⟩ := PointQuery.Plan.of_fromSession? hr
    rw [hw₁.cache] at hget
    have hmoved := hcounted (w₁.moved_hit .session)
    obtain ⟨hdb, hkept⟩ := h _ hmoved
    refine ⟨.hit _, w₁.hit .session, rfl, hdb, ?_, congrArg Prod.snd hreply, hkept⟩
    rw [hreply]
    exact (hhit _ hget).2 haccepts

/-- What the cache knows of a row with a primary key stands under the primary key, and is of the
same record. -/
theorem Sound.get?_keysOf (h : K.Sound once t c) {ρ : Record} (hρ : ρ ∈ t) {row : Row}
    (hrow : row.Mirrors once ρ) {v : Value} (hv : row.Binds K.primary v) :
    c.get? (K.keysOf row) = c.rows[K.key K.primary v]? ∧
      ∀ known, c.rows[K.key K.primary v]? = some known → known.Mirrors once ρ := by
  have hsame : ∀ n ∈ K.nodes, ∀ u known, row.Binds n u → c.rows[K.key n u]? = some known →
      known.Mirrors once ρ ∧ c.rows[K.key K.primary v]? = some known := by
    intro n hn u known hu hknown
    have hfits := fits_of_binds h.table hρ hrow hn hu
    obtain ⟨σ, hσ, hmirror, hu', x, hx⟩ := h.coherent.held n hn u known hfits hknown
    have hone : σ = ρ := (h.table.keys n hn).alone σ hσ ρ hρ u (eq_of_binds hmirror hu')
      (eq_of_binds hrow hu)
    subst hone
    have hxv : some x = some v := (eq_of_binds hmirror hx).symm.trans (eq_of_binds hrow hv)
    rw [Option.some.inj hxv] at hx
    exact ⟨hmirror, h.coherent.anchored n hn u known hfits hknown v hx⟩
  refine ⟨?_, fun known hknown => (hsame _ K.primary_mem v known hv hknown).1⟩
  cases hget : c.get? (K.keysOf row) with
  | none =>
    exact (SessionCache.get?_eq_none.1 hget _ (mem_keysOf.2 ⟨_, K.primary_mem, v, hv, rfl⟩)).symm
  | some known =>
    obtain ⟨key, hkey, hknown⟩ := SessionCache.exists_of_get? hget
    obtain ⟨n, hn, u, hu, rfl⟩ := mem_keysOf.1 hkey
    exact (hsame n hn u known hu hknown).2.symm

/-- A row of a record with its primary key goes into the cache, and the cache stays coherent. -/
theorem Sound.populate (h : K.Sound once t c) {p : PointQuery.Plan}
    (hp : p.policy = ⟨.fetch, some K.entity⟩) {ρ : Record} (hρ : ρ ∈ t) {row : Row}
    (hrow : row.Mirrors once ρ) (hpairs : ∀ q ∈ row.pairs, q.2 = ρ q.1)
    (hprimary : K.keysOf row ≠ [] → ∃ v, row.Binds K.primary v) :
    ∃ c', p.populateSession row c = .ok c' ∧ K.Sound once t c' := by
  by_cases hnil : K.keysOf row = []
  · have hnone : c.get? (K.keysOf row) = none := by rw [hnil, SessionCache.get?_nil]
    refine ⟨_, PointQuery.Plan.populateSession_of_none K.keyed hp hrow.full hnone, ?_⟩
    rw [show K.entity.rowKeys K.nodes row = [] from hnil]
    exact h
  obtain ⟨v, hv⟩ := hprimary hnil
  obtain ⟨hget, hknown⟩ := h.get?_keysOf hρ hrow hv
  -- whatever goes in mirrors the record, and binds what the old row bound
  have hput : ∀ merged : Row, merged.Mirrors once ρ → (∀ n u, row.Binds n u → merged.Binds n u) →
      (∀ known, c.rows[K.key K.primary v]? = some known → ∀ n ∈ K.nodes, ∀ u,
        known.Binds n u → merged.Binds n u) →
      K.Sound once t (c.put (K.keysOf merged) merged) := by
    intro merged hmirror hbinds habsorb
    refine ⟨h.enabled, h.table, ?_⟩
    simp only [SessionCache.rows_put]
    exact h.coherent.put h.table hρ hmirror (hbinds _ _ hv) (fun σ hσ _ => hσ) habsorb
  cases hlook : c.rows[K.key K.primary v]? with
  | none =>
    -- nothing stands under the primary key, so nothing of the record is known at all
    rw [hlook] at hget
    refine ⟨_, PointQuery.Plan.populateSession_of_none K.keyed hp hrow.full hget,
      hput row hrow (fun _ _ hb => hb) ?_⟩
    intro known hsome
    rw [hlook] at hsome
    exact absurd hsome (by simp)
  | some known =>
    rw [hlook] at hget
    have hmirror := hknown known hlook
    obtain ⟨merged, hmerged, hmirror', hcell⟩ := hmirror.merge hpairs
    refine ⟨_, PointQuery.Plan.populateSession_of_some K.keyed hp hrow.full hget hmerged
      hmirror'.full, hput merged hmirror' ?_ ?_⟩
    · intro n u hu
      rw [Row.Binds, hcell _ (.inr (by rw [hu]; simp)), eq_of_binds hrow hu]
    · intro known' hlook' n _ u hu
      rw [hlook, Option.some.injEq] at hlook'
      subst hlook'
      rw [Row.Binds, hcell _ (.inl (by rw [hu]; simp)), eq_of_binds hmirror hu]

/-- What the database answers to a lookup goes into the cache. -/
theorem Sound.populate_reply (h : K.Sound once t c) {α : Type} {q : Query α}
    (hq : K.FitsLookup once s.prepare q) {st : Statement}
    (hst : q.single.statement s.prepare = .ok st) {answer : ResultSet} {r : Row}
    (hreply : (E.execute st t).1 = .ok answer) (hfirst : answer.first? = some r) :
    ∃ c', (q.single.plan s.prepare).populateSession ((q.single.plan s.prepare).completed r) c =
      .ok c' ∧ K.Sound once t c' := by
  obtain ⟨ρ, hρ, -, hmirror, hpairs, hcolumns⟩ := of_answer hq hst hreply hfirst
  refine h.populate (plan_policy hq.entity hst) hρ hmirror hpairs fun hkeys => ?_
  -- a row with a key was read with the primary one, which every record has
  obtain ⟨key, hkey⟩ := List.exists_mem_of_ne_nil _ hkeys
  obtain ⟨n, hn, u, hu, -⟩ := mem_keysOf.1 hkey
  have hreads := (hcolumns n.column.name).1 (by rw [hu]; simp)
  obtain ⟨v, hv⟩ := h.table.valued ρ hρ
  refine ⟨v, ?_⟩
  rw [Row.Binds, hmirror.cell_eq ((hcolumns _).2 (hq.primary n hn hreads)), hv]

/-- The database can be asked for what the cache does not have, and the row that it has goes
there. -/
theorem SoundIn.miss (hs : s.executor = E.executor) {α : Type} {q : Query α}
    (hq : K.FitsLookup once s.prepare q) {st : Statement}
    (hst : q.single.statement s.prepare = .ok st) (h : K.SoundIn once w) {w₂ : State Table}
    (hcache : w₂.cache = w.cache) :
    s.CanAnswer none (K.SoundIn once) q st w.database w₂ (.miss true) := by
  obtain ⟨-, -, hsame, -⟩ := reply_of_lookup (E := E) (t := w.database) hst
  intro w₃ hw₃
  rw [reply_of_unchanged hs q.options hsame] at hw₃ ⊢
  have hcache₃ : w₃.cache = w.cache := hw₃.cache.trans hcache
  refine ⟨?_, fun _ answer r hanswer hfirst => ?_⟩
  · unfold SoundIn
    rw [hw₃.database, hcache₃]
    exact h
  · obtain ⟨c', hc', hsound⟩ := Sound.populate_reply h hq hst hanswer hfirst
    refine ⟨{ w₃ with cache := c' }, ?_, rfl, ?_⟩
    · simp only [PointQuery.Plan.populate, hcache₃, hc']
    · show K.Sound once w₃.database c'
      rw [hw₃.database]
      exact hsound

/-- The session cache can answer a lookup, or take the answer of the database. In between something
may happen that leaves things sound. -/
theorem SoundIn.resolve (hs : s.executor = E.executor) (hcacheable : K.entity.isCacheable = true)
    {α : Type} {q : Query α} (hq : K.FitsLookup once s.prepare q) {st : Statement}
    (hst : q.single.statement s.prepare = .ok st) (h : K.SoundIn once w)
    (after : State Table → State Table)
    (hafter : ∀ w₂, w.Moved w.database w₂ → (after w₂).database = w.database ∧
      K.SoundIn once (after w₂)) {w₁ : State Table} (hw₁ : w.Moved w.database w₁) :
    ∃ found w₂, (q.single.plan s.prepare).resolve none w₁ = (.ok found, w₂) ∧
      (after w₂).database = w.database ∧
      s.CanAnswer none (K.SoundIn once) q st w.database (after w₂) found := by
  obtain ⟨clauses, hclauses, hsame, -⟩ := reply_of_lookup (E := E) (t := w.database) hst
  have hadmits : (q.single.plan s.prepare).policy.admits w.cache = true := by
    rw [plan_policy hq.entity hst]
    exact CachePolicy.admits_of_isEnabled (Sound.enabled h) hcacheable .fetch
  refine resolve_without_unit after hafter hs hsame hadmits (fun r hget => ?_)
    (fun w₂ hw₂ => ?_) hw₁
  · obtain ⟨key, hkey, hr⟩ := SessionCache.exists_of_get? hget
    rw [plan_keys hq.entity hst] at hkey
    obtain ⟨honly, n, hn, v, hv, rfl⟩ := of_mem_keys hkey
    have hfits := fits_equality hq.filters hclauses hv
    obtain ⟨ρ, hρ, hmirror, -⟩ := h.coherent.held n hn v r hfits hr
    exact ⟨hmirror.full, fun haccepts => reply_of_accepted hst hq.reads hmirror hρ haccepts honly hv
      (K.exact _) hfits (h.table.keys n hn)⟩
  · obtain ⟨hdb, hsound⟩ := hafter w₂ hw₂
    rw [← hdb]
    exact SoundIn.miss hs hq hst hsound rfl

/-- A lookup comes to what the table says, and leaves things sound. -/
theorem lookup_step (hs : s.executor = E.executor) (hcacheable : K.entity.isCacheable = true)
    {α : Type} {q : Query α} (hq : K.FitsLookup once s.prepare q)
    (h : K.SoundIn once w) :
    Call.Follows s (K.SoundIn once) (.lookup q) w (q.single.run s none w) :=
  lookup_follows (ignoresCounts_soundIn K once) h fun _ hst _ hw₁ =>
    SoundIn.resolve hs hcacheable hq hst h id
      (fun w₂ hw₂ => ⟨hw₂.database, ignoresCounts_soundIn K once w w₂ hw₂ h⟩) hw₁

end Keyring

/-! ## Updates and deletes -/

namespace Keyring

variable {K : Keyring} {once : List String} {E : Engine} {s : Session Table} {w : State Table}
  {t : Table} {c : SessionCache}

/-- The clauses of a write that restrict nothing but the primary key, and this at most once. -/
def RestrictsPrimary (K : Keyring) (clauses : List Clause) : Prop :=
  clauses.length ≤ 1 ∧
    ∀ clause ∈ clauses, Identifier.read clause.column = K.primary.column.name

/-- A write whose filters bind a key names one record by its primary key. -/
theorem of_keys_ne_nil {prepare : ValuePreparer} {conditions : Conditions}
    {clauses : List Clause} (hfits : conditions.Fit K.Fits prepare)
    (hclauses : conditions.filterClauses prepare = .ok clauses)
    (hrestricts : K.RestrictsPrimary clauses) {use : CacheUse}
    (hkeys : conditions.keys ⟨use, some K.entity⟩ prepare ≠ []) :
    ∃ (n : Node) (v : Value), clauses = [⟨n.column.cql, .eq, [v]⟩] ∧
      n.column.name = K.primary.column.name ∧ K.Fits K.primary.column.name v ∧
      (∀ m u, (m, u) ∈ conditions.equalities prepare →
        m.column.name = K.primary.column.name ∧ u = v) ∧
      (∃ m, m.column.name = K.primary.column.name ∧ (m, v) ∈ conditions.equalities prepare) ∧
      ∀ key, key ∈ conditions.keys ⟨use, some K.entity⟩ prepare ↔ key = K.key K.primary v := by
  -- the clause restricts the primary key only, so every equality is this one clause
  have hone : ∀ m u, (m, u) ∈ conditions.equalities prepare →
      clauses = [⟨m.column.cql, .eq, [u]⟩] ∧ m.column.name = K.primary.column.name := by
    intro m u hu
    have hmem := Conditions.exists_clause hclauses hu
    have hname := hrestricts.2 _ hmem
    rw [Identifier.read_cql] at hname
    refine ⟨?_, hname⟩
    match clauses, hrestricts.1, hmem with
    | [clause], _, hmem => rw [List.mem_singleton.1 hmem]
  obtain ⟨key, hkey⟩ := List.exists_mem_of_ne_nil _ hkeys
  obtain ⟨-, n, -, v, hv, hkv⟩ := of_mem_keys hkey
  obtain ⟨hclause, hname⟩ := hone n v hv
  have hall : ∀ m u, (m, u) ∈ conditions.equalities prepare →
      m.column.name = K.primary.column.name ∧ u = v := by
    intro m u hu
    obtain ⟨hclause', hname'⟩ := hone m u hu
    rw [hclause] at hclause'
    simp only [List.cons.injEq, Clause.mk.injEq, and_true, true_and] at hclause'
    exact ⟨hname', hclause'.2.symm⟩
  have hsame : ∀ m : Node, m.column.name = K.primary.column.name →
      K.key m v = K.key K.primary v := by
    intro m hm
    simp only [Keyring.key, Entity.keyOf, hm]
  have hfitsv := fits_equality hfits hclauses hv
  rw [hname] at hfitsv
  refine ⟨n, v, hclause, hname, hfitsv, hall, ⟨n, hname, hv⟩, fun key' => ?_⟩
  constructor
  · intro hmem
    obtain ⟨-, m, -, u, hu, rfl⟩ := of_mem_keys hmem
    obtain ⟨hm, rfl⟩ := hall m u hu
    exact hsame m hm
  · rintro rfl
    rw [← hsame n hname, hkv]
    exact hkey

/-- Keys that are all the same are asked for like the one. -/
theorem get?_of_forall {keys : List String} {key : String} (h : ∀ k, k ∈ keys ↔ k = key) :
    c.get? keys = c.rows[key]? := by
  cases hget : c.get? keys with
  | none => exact (SessionCache.get?_eq_none.1 hget key ((h key).2 rfl)).symm
  | some r =>
    obtain ⟨k, hk, hr⟩ := SessionCache.exists_of_get? hget
    rw [← (h k).1 hk, hr]

/-- To evict no keys is to drop the table. -/
theorem evict_nil (use : CacheUse) (c : SessionCache) :
    (⟨use, some K.entity⟩ : CachePolicy).evict c [] =
      .ok (c.invalidateSchema K.entity.table.name) := rfl

/-- Whatever becomes of the table, the cache is coherent with it once the entity was evicted. -/
theorem Sound.evicted (h : K.Sound once t c) {t' : Table} (ht' : K.IsTable t') :
    K.Sound once t' (c.invalidateSchema K.entity.table.name) where
  enabled := h.enabled
  table := ht'
  coherent := coherent_of_none (fun n v => rows_invalidateSchema c n v) t'

/-- An UPDATE whose values fit, and which makes no column unknown that may be cached twice. -/
structure FitsUpdate (K : Keyring) (once : List String) (prepare : ValuePreparer)
    (u : RowUpdate) : Prop where
  entity : ∀ p ∈ u.changes, p.1.entity = K.entity
  filters : u.conditions.Fit K.Fits prepare
  once : ∀ c ∈ u.unknown, c ∈ once

/-- The table after an accepted UPDATE that assigns no key column. -/
theorem isTable_update (ht : K.IsTable t) (hkey : E.key = K.primary.column.name)
    {u : RowUpdate} {prepare : ValuePreparer} {clauses : List Clause} {table : String}
    {using_ : Using} {conditional : Conditional}
    (hfits : u.conditions.Fit K.Fits prepare)
    (hclauses : u.conditions.filterClauses prepare = .ok clauses)
    (hassigned : ∀ p ∈ u.changes, ∀ n ∈ K.nodes, p.1.column.name ≠ n.column.name) {t' : Table}
    (hchange : E.change (.update ⟨table, using_,
      u.changes.map fun (n, x) => x.assignment n prepare, clauses, conditional⟩) t = .ok t') :
    K.IsTable t' := by
  have hassign : ∀ ρ : Record, ∀ n ∈ K.nodes,
      u.changed prepare ρ n.column.name = ρ n.column.name := fun ρ n hn =>
    RowUpdate.changed_of_forall_ne (fun p hp => hassigned p hp n hn) prepare ρ
  cases hnamed : E.named? clauses with
  | some vs =>
    simp only [Engine.change, hnamed, Except.ok.injEq] at hchange
    subst hchange
    obtain ⟨clause, rfl, hcolumn, rfl⟩ := Engine.of_named? hnamed
    have hvs : ∀ v ∈ clause.values, K.Fits K.primary.column.name v := by
      intro v hv
      rw [← hkey, ← hcolumn]
      exact hfits _ hclauses clause (List.mem_singleton_self _) v hv
    clear hnamed
    rw [hkey]
    -- the records of the keys are written one after the other
    generalize clause.values = vs at hvs
    induction vs generalizing t with
    | nil => exact ht
    | cons v vs ih =>
      refine ih ?_ fun x hx => hvs x (List.mem_cons_of_mem _ hx)
      exact ht.upsert (hvs v (List.mem_cons_self ..)) fun ρ _ n hn => hassign ρ n hn
  | none =>
    simp only [Engine.change, hnamed, Except.ok.injEq] at hchange
    subst hchange
    refine ht.map fun ρ n hn => ?_
    split
    · exact hassign ρ n hn
    · rfl

/-- What an accepted UPDATE that asks for one value of the key makes of a table: the record of the
key may have changed, and all others stay. -/
theorem record_of_update (ht : K.IsTable t) (hkey : E.key = K.primary.column.name)
    {u : RowUpdate} {prepare : ValuePreparer} {clauses : List Clause} {table : String}
    {using_ : Using} {conditional : Conditional} (hfits : u.conditions.Fit K.Fits prepare)
    (hclauses : u.conditions.filterClauses prepare = .ok clauses)
    (hassigned : ∀ p ∈ u.changes, p.1.column.name ≠ K.primary.column.name) {v : Value}
    (hv : (K.primary, v) ∈ u.conditions.equalities prepare) {t' : Table}
    (hchange : E.change (.update ⟨table, using_,
      u.changes.map fun (n, x) => x.assignment n prepare, clauses, conditional⟩) t = .ok t') :
    (∀ ρ ∈ t', ρ K.primary.column.name = some v →
      ρ = u.changed prepare (t.recordAt K.primary.column.name v) ∨
        ρ = t.recordAt K.primary.column.name v) ∧
    ∀ ρ ∈ t, ρ K.primary.column.name ≠ some v → ρ ∈ t' := by
  have hfitsv := fits_equality hfits hclauses hv
  have hkeep : ∀ ρ : Record,
      u.changed prepare ρ K.primary.column.name = ρ K.primary.column.name :=
    RowUpdate.changed_of_forall_ne hassigned prepare
  cases hnamed : E.named? clauses with
  | some vs =>
    -- the one filter is the equality on the key
    obtain ⟨clause, rfl, -, rfl⟩ := Engine.of_named? hnamed
    have hclause := List.mem_singleton.1 (Conditions.exists_clause hclauses hv)
    subst hclause
    simp only [Engine.change, hnamed, hkey, List.foldl_cons, List.foldl_nil,
      Except.ok.injEq] at hchange
    subst hchange
    have hmem : ∀ ρ, ρ ∈ t.upsert K.primary.column.name v (u.changed prepare) ↔ _ := fun ρ =>
      Table.mem_upsert (K.exact _) (ht.keys _ K.primary_mem) hfitsv
    exact ⟨fun ρ hρ hat => .inl (((hmem ρ).1 hρ).resolve_right fun hother => hother.2 hat),
      fun ρ hρ hne => (hmem ρ).2 (.inr ⟨hρ, hne⟩)⟩
  | none =>
    simp only [Engine.change, hnamed, Except.ok.injEq] at hchange
    subst hchange
    constructor
    · intro ρ hρ hat
      obtain ⟨σ, hσ, rfl⟩ := List.mem_map.1 hρ
      have hσv : σ K.primary.column.name = some v := by
        rw [← hat]
        split
        next => exact (hkeep σ).symm
        next => rfl
      rw [Table.recordAt_of_mem (K.exact _) (ht.keys _ K.primary_mem) hσ hσv]
      split
      next => exact .inl rfl
      next => exact .inr rfl
    · intro ρ hρ hne
      refine List.mem_map.2 ⟨ρ, hρ, if_neg fun hselected => hne ?_⟩
      exact value_of_selects K.exact hfits hclauses hselected hv

/-- What the cache shows under the primary key of a value mirrors the record of that value, and
so does an empty row. -/
theorem Sound.mirrors_recordAt (h : K.Sound once t c) {v : Value}
    (hv : K.Fits K.primary.column.name v) :
    ((c.rows[K.key K.primary v]?).getD .empty).Mirrors once
      (t.recordAt K.primary.column.name v) := by
  cases hlook : c.rows[K.key K.primary v]? with
  | none => exact Row.mirrors_empty ..
  | some r =>
    obtain ⟨ρ, hρ, hmirror, hb, -⟩ := h.coherent.held _ K.primary_mem v r hv hlook
    rw [Table.recordAt_of_mem (K.exact _) (h.table.keys _ K.primary_mem) hρ
      (eq_of_binds hmirror hb)]
    exact hmirror

/-- A record was written, and its row goes under all its keys in place of the old one. -/
theorem Sound.replaced (h : K.Sound once t c) {v : Value} {f : Record → Record}
    (hv : K.Fits K.primary.column.name v)
    (ht' : K.IsTable (t.upsert K.primary.column.name v f)) {r : Row}
    (hr : r.Mirrors once (f (t.recordAt K.primary.column.name v)))
    (hb : r.Binds K.primary v)
    (habsorb : ∀ n ∈ K.nodes, ∀ u,
      ((c.rows[K.key K.primary v]?).getD .empty).Binds n u → r.Binds n u) {rows : SessionCache}
    (henabled : rows.isEnabled = true)
    (hrows : ∀ key, rows.rows[key]? = if key ∈ K.keysOf r then some r else c.rows[key]?) :
    K.Sound once (t.upsert K.primary.column.name v f) rows where
  enabled := henabled
  table := ht'
  coherent := by
    have hmem : ∀ σ, σ ∈ t.upsert K.primary.column.name v f ↔
        σ = f (t.recordAt K.primary.column.name v) ∨
          (σ ∈ t ∧ σ K.primary.column.name ≠ some v) := fun σ =>
      Table.mem_upsert (K.exact _) (h.table.keys _ K.primary_mem) hv
    have hput := h.coherent.put ht' ((hmem _).2 (.inl rfl)) hr hb
      (fun σ hσ hne => (hmem σ).2 (.inr ⟨hσ, hne⟩))
      (fun r₀ hr₀ n hn u hu => habsorb n hn u (by
        have hlook : c.rows[K.key K.primary v]? = some r₀ := hr₀
        rw [hlook]
        exact hu))
    have hsame : (rows.rows[·]?) =
        fun key => if key ∈ K.keysOf r then some r else c.rows[key]? := funext hrows
    rw [hsame]
    exact hput

/-- A column that is not changed stays known. -/
theorem not_mem_unknown {u : RowUpdate} {column : String}
    (h : ∀ p ∈ u.changes, p.1.column.name ≠ column) : column ∉ u.unknown := by
  intro hunknown
  obtain ⟨⟨n, x⟩, hmem, hx⟩ := List.mem_filterMap.1 hunknown
  refine h (n, x) hmem ?_
  cases x with
  | set _ => exact absurd hx (by simp)
  | _ => exact Option.some.inj hx

/-- How a merge goes whose steps all go well. -/
theorem merge_of_ok {p : CachePolicy} {c' : SessionCache} {keys unknown previous : List String}
    {known after : Row} {b : Bool} (hkeys : keys ≠ [])
    (hprevious : p.keysOfRow ((c.get? keys).getD .empty) = .ok previous)
    (hafter : (do (← ((c.get? keys).getD .empty).merge known).removeAll unknown) = .ok after)
    (hupdate : p.update (c.invalidate previous) after = .ok (b, c')) :
    p.merge c keys known unknown = (.ok (), c') := by
  obtain ⟨merged, hmerged, hremoved⟩ := bind_eq_ok.1 hafter
  unfold CachePolicy.merge
  rw [if_neg (by simpa using hkeys)]
  simp only [bind, Except.bind, hprevious, hmerged, hremoved, pure, Except.pure, hupdate]

/-- The cached row of a record follows an UPDATE of it. -/
theorem Sound.merge_update (h : K.Sound once t c) {u : RowUpdate} {prepare : ValuePreparer}
    (hu : K.FitsUpdate once prepare u) {clauses : List Clause}
    (hclauses : u.conditions.filterClauses prepare = .ok clauses)
    (hrestricts : K.RestrictsPrimary clauses)
    (hassigned : ∀ p ∈ u.changes, ∀ n ∈ K.nodes, p.1.column.name ≠ n.column.name)
    {use : CacheUse} (hkeys : u.conditions.keys ⟨use, some K.entity⟩ prepare ≠ []) :
    ∃ v known c', Row.empty.setAll (u.known prepare) = .ok known ∧
      (⟨use, some K.entity⟩ : CachePolicy).merge c
        (u.conditions.keys ⟨use, some K.entity⟩ prepare) known u.unknown = (.ok (), c') ∧
      (∃ n : Node, clauses = [⟨n.column.cql, .eq, [v]⟩] ∧
        n.column.name = K.primary.column.name) ∧
      (K.IsTable (t.upsert K.primary.column.name v (u.changed prepare)) →
        K.Sound once (t.upsert K.primary.column.name v (u.changed prepare)) c') := by
  obtain ⟨n, v, hclause, hname, hv, hequalities, ⟨m, hm, hmv⟩, hall⟩ :=
    of_keys_ne_nil hu.filters hclauses hrestricts hkeys
  have hassign : ∀ n ∈ K.nodes, ∀ ρ : Record,
      u.changed prepare ρ n.column.name = ρ n.column.name := fun n hn ρ =>
    RowUpdate.changed_of_forall_ne (fun p hp => hassigned p hp n hn) prepare ρ
  have hkept : ∀ n ∈ K.nodes, n.column.name ∉ u.unknown := fun n hn =>
    not_mem_unknown fun p hp => hassigned p hp n hn
  have hbefore := h.mirrors_recordAt hv
  have hget : c.get? (u.conditions.keys ⟨use, some K.entity⟩ prepare) =
      c.rows[K.key K.primary v]? := get?_of_forall hall
  generalize hb : (c.rows[K.key K.primary v]?).getD .empty = before at hbefore
  have hkey := Table.recordAt_key (K.exact _) hv K.primary.column.name t
  generalize hρ : t.recordAt K.primary.column.name v = ρ at hbefore hkey
  obtain ⟨known, after, hknown, hafter, hmirror, hfiltered, hheld⟩ :=
    hbefore.updated prepare u hu.once fun m x hx => by
      obtain ⟨hm, rfl⟩ := hequalities m x hx
      rw [hm, hassign _ K.primary_mem, hkey]
  -- the row keeps the keys it had, and has the primary one from the filter
  have hbinds : ∀ n ∈ K.nodes, ∀ x, before.Binds n x → after.Binds n x := by
    intro n hn x hx
    rw [Row.Binds, hheld _ (by rw [hx]; simp) (hkept n hn), hassign n hn, eq_of_binds hbefore hx]
  have hprimary : after.Binds K.primary v := by
    have hb := hfiltered m v hmv (by rw [hm]; exact hkept _ K.primary_mem)
    rwa [Row.Binds, hm] at hb
  have hsubset : ∀ key, key ∈ K.keysOf before → key ∈ K.keysOf after := by
    intro key hmem
    obtain ⟨n, hn, x, hx, rfl⟩ := mem_keysOf.1 hmem
    exact mem_keysOf.2 ⟨n, hn, x, hbinds n hn x hx, rfl⟩
  obtain ⟨b, hupdate⟩ := K.update_eq use (c.invalidate (K.keysOf before)) hmirror.full
  refine ⟨v, known, (c.invalidate (K.keysOf before)).put (K.keysOf after) after, hknown, ?_,
    ⟨n, hclause, hname⟩, fun ht' => ?_⟩
  · have hshown : (c.get? (u.conditions.keys ⟨use, some K.entity⟩ prepare)).getD .empty =
        before := by rw [hget, hb]
    exact merge_of_ok hkeys (by rw [hshown]; exact keysOfRow_eq use hbefore.full)
      (by rw [hshown]; exact hafter) hupdate
  · refine h.replaced hv ht' (by rw [hρ]; exact hmirror) hprimary
      (by rw [hb]; exact hbinds) h.enabled fun key => ?_
    rw [SessionCache.rows_put, SessionCache.rows_invalidate]
    by_cases hin : key ∈ K.keysOf after
    · rw [if_pos hin, if_pos hin]
    · rw [if_neg hin, if_neg hin, if_neg fun hmem => hin (hsubset key hmem)]

/-- An update comes to what the table says, and leaves things sound. -/
theorem update_step (hs : s.executor = E.executor) (hkey : E.key = K.primary.column.name)
    (hcacheable : K.entity.isCacheable = true) {u : RowUpdate}
    (hu : K.FitsUpdate once s.prepare u)
    (haccepted : ∀ st t, u.statement s.prepare = .ok st → E.verdict st t = .accept →
      st.RestrictsOnly E.key ∧ ∀ p ∈ u.changes, ∀ n ∈ K.nodes, p.1.column.name ≠ n.column.name)
    (h : K.SoundIn once w) :
    Call.Follows s (K.SoundIn once) (.update u) w (u.run s none w) := by
  refine update_follows (ignoresCounts_soundIn K once) h fun st hst => ?_
  obtain ⟨e, clauses, conditional, he, -, hclauses, hchanges, hstatement⟩ :=
    RowUpdate.of_statement hst
  refine canWrite_of_accepted (ignoresCounts_soundIn K once) h hs (by rw [hstatement]; simp)
    fun hverdict w₁ hw₁ hchange => ?_
  obtain ⟨hrestricts, hassigned⟩ := haccepted st w.database hst hverdict
  have hentity := RowUpdate.entity_eq_of_changes he hchanges hu.entity
  subst hentity
  rw [hstatement] at hchange
  have htable := isTable_update (Sound.table h) hkey hu.filters hclauses hassigned hchange
  rw [hstatement] at hrestricts
  have hrestricts' : K.RestrictsPrimary clauses := by
    rw [RestrictsPrimary, ← hkey]
    exact ⟨hrestricts.1, hrestricts.2.1⟩
  have hadmits : (⟨.update, some K.entity⟩ : CachePolicy).admits w₁.cache = true := by
    rw [hw₁.cache]
    exact CachePolicy.admits_of_isEnabled (Sound.enabled h) hcacheable .update
  by_cases hkeys : u.conditions.keys ⟨.update, some K.entity⟩ s.prepare = []
  · -- without keys the entity is evicted, which is right whatever the update has done
    refine ⟨_, RowUpdate.writeThrough_of_no_keys_outside he hadmits hkeys, rfl, ?_⟩
    rw [hw₁.cache]
    exact Sound.evicted h htable
  · obtain ⟨v, known, c', hknown, hmerge, ⟨n, hclause, hname⟩, hsound⟩ :=
      Sound.merge_update h hu hclauses hrestricts' hassigned hkeys
    have hnamed : E.named? clauses = some [v] := by
      rw [hclause]
      simp [Engine.named?, Identifier.read_cql, hname, hkey]
    rw [← hw₁.cache] at hmerge
    refine ⟨_, RowUpdate.writeThrough_of_admitted he hadmits hknown hmerge, rfl, ?_⟩
    have hafter : w₁.database =
        w.database.upsert K.primary.column.name v (u.changed s.prepare) := by
      simp only [Engine.change, hnamed, Except.ok.injEq] at hchange
      rw [← hchange, hkey]
      rfl
    show K.Sound once w₁.database c'
    rw [hafter] at htable ⊢
    exact hsound htable

/-! ## Deletes -/

/-- Evicting a record by its primary key drops all its entries. -/
theorem Sound.evict (h : K.Sound once t c) {v : Value} (hv : K.Fits K.primary.column.name v)
    {keys : List String} (hkeys : ∀ key, key ∈ keys ↔ key = K.key K.primary v) {t' : Table}
    (ht' : K.IsTable t') (hstay : ∀ σ ∈ t, σ K.primary.column.name ≠ some v → σ ∈ t')
    (use : CacheUse) :
    ∃ c', (⟨use, some K.entity⟩ : CachePolicy).evict c keys = .ok c' ∧ K.Sound once t' c' := by
  have hsome : keys.isEmpty = false := by
    cases keys with
    | nil => exact absurd ((hkeys _).2 rfl) (by simp)
    | cons _ _ => rfl
  unfold CachePolicy.evict
  rw [hsome, if_neg (by simp), get?_of_forall hkeys]
  cases hlook : c.rows[K.key K.primary v]? with
  | none =>
    refine ⟨_, rfl, h.enabled, ht', ?_⟩
    simp only [SessionCache.rows_invalidate]
    refine h.coherent.erase h.table hv hstay fun key => ?_
    rw [hkeys, hlook]
    simp
  | some r =>
    obtain ⟨ρ, -, hmirror, -⟩ := h.coherent.held _ K.primary_mem v r hv hlook
    refine ⟨c.invalidate (keys ++ K.keysOf r), ?_, h.enabled, ht', ?_⟩
    · simp only [keysOfRow_eq use hmirror.full]
      rfl
    · simp only [SessionCache.rows_invalidate]
      refine h.coherent.erase h.table hv hstay fun key => ?_
      rw [List.mem_append, hkeys, hlook]
      simp

/-- A delete comes to what the table says, and leaves things sound. -/
theorem delete_step (hs : s.executor = E.executor) (hkey : E.key = K.primary.column.name)
    {d : RowDelete} (hentity : d.entity = K.entity) (hfilters : d.conditions.Fit K.Fits s.prepare)
    (haccepted : ∀ st t, d.statement s.prepare = .ok st → E.verdict st t = .accept →
      st.RestrictsOnly E.key)
    (h : K.SoundIn once w) :
    Call.Follows s (K.SoundIn once) (.delete d) w (d.run s none w) := by
  refine delete_follows (ignoresCounts_soundIn K once) h fun st hst => ?_
  obtain ⟨-, ⟨htruncate, hstatement⟩ | ⟨clauses, conditional, hrows, hclauses, hstatement⟩⟩ :=
    RowDelete.of_statement hst
  all_goals
    refine canWrite_of_accepted (ignoresCounts_soundIn K once) h hs (by rw [hstatement]; simp)
      fun hverdict w₁ hw₁ hchange => ?_
  · rw [hstatement] at hchange
    have hafter : w₁.database = [] := (Except.ok.inj hchange).symm
    refine ⟨_, RowDelete.writeThrough_outside
      (c := w.cache.invalidateSchema K.entity.table.name) ?_, rfl, ?_⟩
    · rw [if_pos htruncate, hentity, hw₁.cache, evict_nil]
    · show K.Sound once w₁.database _
      rw [hafter]
      exact Sound.evicted h isTable_nil
  · have hrestricts := haccepted st w.database hst hverdict
    rw [hstatement] at hchange
    rw [hstatement] at hrestricts
    have hrestricts' : K.RestrictsPrimary clauses := by
      rw [RestrictsPrimary, ← hkey]
      exact hrestricts
    have hafter : w₁.database = w.database.filter fun ρ => !E.selects clauses ρ :=
      (Except.ok.inj hchange).symm
    have htable : K.IsTable w₁.database := by
      rw [hafter]
      exact (Sound.table h).filter _
    obtain ⟨c', hevict, hsound⟩ : ∃ c', (⟨.delete, some K.entity⟩ : CachePolicy).evict w.cache
        (d.conditions.keys ⟨.delete, some K.entity⟩ s.prepare) = .ok c' ∧
        K.Sound once w₁.database c' := by
      -- without keys the table is dropped; else only the record under the key has gone
      by_cases hkeys : d.conditions.keys ⟨.delete, some K.entity⟩ s.prepare = []
      · rw [hkeys, evict_nil]
        exact ⟨_, rfl, Sound.evicted h htable⟩
      · obtain ⟨n, v, -, -, hv, -, ⟨m, hm, hmv⟩, hall⟩ :=
          of_keys_ne_nil hfilters hclauses hrestricts' hkeys
        have hstay : ∀ σ ∈ w.database, σ K.primary.column.name ≠ some v → σ ∈ w₁.database := by
          intro σ hσ hne
          rw [hafter]
          rw [← hm] at hne
          exact mem_filter_of_ne K.exact hfilters hclauses hmv hσ hne
        exact Sound.evict h hv hall htable hstay .delete
    refine ⟨_, RowDelete.writeThrough_outside (c := c') ?_, rfl, hsound⟩
    rw [hrows, if_neg Bool.false_ne_true, hentity, hw₁.cache, hevict]

/-! ## Inserts -/

/-- An INSERT whose key fits. -/
structure FitsInsert (K : Keyring) (prepare : ValuePreparer) (i : RowInsert) : Prop where
  entity : ∀ p ∈ i.values, p.1.entity = K.entity
  key : ∀ p ∈ prepare.cells i.values, p.1.column.name = K.primary.column.name →
    ∀ v, p.2 = some v → K.Fits K.primary.column.name v

/-- An INSERT that the table takes has a key, names every column once, and writes the record of
its key. -/
theorem change_insert {i : RowInsert} {prepare : ValuePreparer} {table : String} {using_ : Using}
    {ifNotExists : Bool} {t' : Table}
    (hchange : E.change (.insert ⟨table,
      (prepare.cells i.values).map fun (n, c) => (n.column.cql, c), using_, ifNotExists⟩) t =
        .ok t') :
    ∃ v, (i.row prepare).cell? E.key = some (some v) ∧
      (i.row prepare).pairs.reverse.lookup E.key = some (some v) ∧
      t' = t.upsert E.key v (i.written prepare) := by
  have hvalues := Row.read_values prepare i
  generalize hbound : ((prepare.cells i.values).map fun (n, c) => (n.column.cql, c)) = bound at *
  have hzip : (bound.map fun p => Identifier.read p.1).zip (bound.map Prod.snd) =
      (i.row prepare).pairs := by
    rw [List.zip_map', hvalues]
  have hcolumns : (bound.map fun p => Identifier.read p.1) = (i.row prepare).columns := by
    have hfst := congrArg (List.map Prod.fst) hvalues
    rw [List.map_map, Row.pairs,
      List.map_fst_zip (Nat.le_of_eq (Row.isFull_row_insert prepare i).symm)] at hfst
    exact hfst
  rw [hcolumns] at hzip
  simp only [Engine.change, hcolumns, hzip] at hchange
  have hfull := Row.isFull_row_insert prepare i
  cases hcell : (i.row prepare).pairs.lookup E.key with
  | none => simp [hcell] at hchange
  | some x =>
    cases x with
    | none => simp [hcell] at hchange
    | some v =>
      by_cases hnodup : (i.row prepare).columns.Nodup
      · simp only [hcell, if_pos hnodup, Except.ok.injEq] at hchange
        refine ⟨v, hcell, ?_, ?_⟩
        · rw [Row.lookup_reverse_of_hasOnce hfull (List.nodup_iff_count.1 hnodup)]
          exact hcell
        · rw [← hchange, ← hbound]
          rfl
      · simp [hcell, if_neg hnodup] at hchange

/-- Where the primary key is the only key, a row that binds it has that key and no other. -/
theorem keysOf_of_binds (honly : K.nodes = [K.primary]) {r : Row} {v : Value}
    (h : r.Binds K.primary v) : K.keysOf r = [K.key K.primary v] := by
  unfold Row.Binds at h
  simp [keysOf, Entity.rowKeys, honly, Entity.boundKeys, h, Keyring.key]

/-- Where the primary key is the only key, a row that does not bind it has no key. -/
theorem keysOf_of_unbound (honly : K.nodes = [K.primary]) {r : Row}
    (h : ¬ ∃ v, r.Binds K.primary v) : K.keysOf r = [] := by
  refine List.eq_nil_iff_forall_not_mem.2 fun key hmem => ?_
  obtain ⟨n, hn, v, hv, -⟩ := mem_keysOf.1 hmem
  rw [honly, List.mem_singleton] at hn
  rw [hn] at hv
  exact h ⟨v, hv⟩

/-- How an INSERT changes a table in which the primary key is the only key: it writes the record
of a value that it binds for the key. -/
structure Inserts (K : Keyring) (prepare : ValuePreparer) (i : RowInsert) (t t' : Table)
    (v : Value) : Prop where
  entity : i.entity = .ok K.entity
  fits : K.Fits K.primary.column.name v
  after : t' = t.upsert K.primary.column.name v (i.written prepare)
  written : ∀ ρ, i.written prepare ρ K.primary.column.name = some v
  bound : (i.row prepare).pairs.reverse.lookup K.primary.column.name = some (some v)
  keys : K.keysOf (i.row prepare) = [K.key K.primary v]

/-- An insert that the table takes writes the record under a value of the primary key. -/
theorem inserts_of_change (hkey : E.key = K.primary.column.name) (honly : K.nodes = [K.primary])
    {i : RowInsert} {prepare : ValuePreparer} (hi : K.FitsInsert prepare i) {st : Statement}
    (hst : i.statement prepare = .ok st) {t' : Table} (hchange : E.change st t = .ok t') :
    ∃ v, K.Inserts prepare i t t' v := by
  obtain ⟨e, he, rfl⟩ := RowInsert.of_statement hst
  obtain ⟨v, hcell, hlast, hafter⟩ := change_insert hchange
  rw [hkey] at hcell hlast hafter
  obtain ⟨n, hn, hnv⟩ : ∃ n, (n, some v) ∈ prepare.cells i.values ∧
      n.column.name = K.primary.column.name := by
    have hmem := Row.mem_of_lookup hcell
    rw [RowInsert.row, Row.ofNodes, Row.pairs_ofPairs] at hmem
    obtain ⟨⟨n, x⟩, hn, he⟩ := List.mem_map.1 hmem
    rw [Prod.mk.injEq] at he
    rw [he.2] at hn
    exact ⟨n, hn, he.1⟩
  refine ⟨v, ?_, hi.key (n, some v) hn hnv v rfl, hafter, fun ρ => ?_, hlast,
    keysOf_of_binds honly hcell⟩
  · obtain ⟨⟨m, x⟩, hm, he'⟩ := List.mem_map.1 hn
    rw [he, ← RowInsert.entity_of_value he hm, hi.entity _ hm]
  · rw [RowInsert.written, Record.write_eq, Row.read_values, hlast]
    rfl

/-- It leaves a table, as the record has the value that it is under. -/
theorem Inserts.isTable (honly : K.nodes = [K.primary]) {i : RowInsert} {prepare : ValuePreparer}
    {v : Value} {t' : Table} (h : K.Inserts prepare i t t' v) (ht : K.IsTable t) :
    K.IsTable t' := by
  rw [h.after]
  refine ht.upsert h.fits fun ρ hρ m hm => ?_
  rw [honly, List.mem_singleton] at hm
  rw [hm, h.written, hρ]

/-- Where the primary key is the only key, an insert comes to what the table says, and leaves
things sound. -/
theorem insert_step (hs : s.executor = E.executor) (hkey : E.key = K.primary.column.name)
    (hcacheable : K.entity.isCacheable = true) (honly : K.nodes = [K.primary]) {i : RowInsert}
    (hi : K.FitsInsert s.prepare i) (h : K.SoundIn once w) :
    Call.Follows s (K.SoundIn once) (.insert i) w (i.run s none w) := by
  refine insert_follows (ignoresCounts_soundIn K once) h fun st hst => ?_
  refine canWrite_of_accepted (ignoresCounts_soundIn K once) h hs (RowInsert.ne_select hst)
    fun _ w₁ hw₁ hchange => ?_
  obtain ⟨v, hinserts⟩ := inserts_of_change hkey honly hi hst hchange
  have hbefore := Sound.mirrors_recordAt h hinserts.fits
  obtain ⟨after, hmerged, hmirror, hcell⟩ := hbefore.inserted s.prepare i
  have hb : after.Binds K.primary v := by
    rw [Row.Binds, hcell, hinserts.bound]
    rfl
  obtain ⟨b, hupdate⟩ := K.update_eq .update w.cache hmirror.full
  refine ⟨{ w₁ with cache := w.cache.put (K.keysOf after) after }, ?_, rfl, ?_⟩
  · have hkeys := keysOfRow_eq (K := K) .update (Row.isFull_row_insert s.prepare i)
    rw [hinserts.keys] at hkeys
    have hadmits := CachePolicy.admits_of_isEnabled (Sound.enabled h) hcacheable .update
    unfold RowInsert.writeThrough RowInsert.followInSession
    simp only [hinserts.entity, hkeys, List.isEmpty_cons, Bool.false_eq_true, if_false,
      hw₁.cache, hadmits, if_true, SessionCache.get?_singleton, bind,
      Except.bind, hmerged, hupdate]
    rfl
  · show K.Sound once w₁.database _
    have henabled : w.cache.isEnabled = true := Sound.enabled h
    have htable := hinserts.isTable honly (Sound.table h)
    rw [hinserts.after] at htable ⊢
    refine Sound.replaced h hinserts.fits htable hmirror hb (fun m hm x hx => ?_) henabled
      fun key => SessionCache.rows_put ..
    rw [honly, List.mem_singleton] at hm
    subst hm
    have hrecord := Table.recordAt_key (K.exact _) hinserts.fits K.primary.column.name w.database
    rw [eq_of_binds hbefore hx, Option.some.injEq] at hrecord
    rw [hrecord]
    exact hb

end Keyring

end WideRow
