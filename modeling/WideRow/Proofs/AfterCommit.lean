import WideRow.Proofs.Preparation

/-!
# Reading after a commit

A unit of work runs, is committed, and is gone; what it leaves is the session cache, from which
later lookups are answered. The commit of a unit that is prepared makes all rows of the session
cache right (`Keyring.Settled`), and lookups, which bring in rows of the table only, keep them so.

The first operation that strands a record leaves the session cache behind: after the commit it has a
row of this record that contradicts the table (`Keyring.IsStranded.commit`), and every lookup by the
key that accepts the row is answered with it (`Session.Serves`). So nothing less can be asked of a
run:

> `reads_after_commit`: after a run in a unit that strands no record, and the commit of the unit,
> whatever is read is what the table holds; after one whose last operation is the first to strand a
> record, the session cache serves a row that contradicts the table.
-/

namespace WideRow

/-- An operation that writes nothing. -/
def Call.IsRead : Call → Prop
  | lookup _ | read _ | count _ => True
  | insert _ | update _ | delete _ => False

namespace Keyring

variable {K : Keyring} {once : List String} {i : Nat} {w w₁ : State Table} {v : Value} {r : Row}

/-! ## Session caches that are right -/

/-- The session cache is on, and its rows are right. -/
structure Settled (K : Keyring) (w : State Table) : Prop where
  enabled : w.cache.isEnabled = true
  table : K.IsTable w.database
  shows : K.Shows [] w.cache w.database

theorem ignoresCounts_settled (K : Keyring) : State.IgnoresCounts K.Settled := by
  intro w w' hmoved h
  have hcache := hmoved.cache
  have hdb := hmoved.database
  refine ⟨by rw [hcache]; exact h.enabled, by rw [hdb]; exact h.table, ?_⟩
  rw [hcache, hdb]
  exact h.shows

/-- The commit of a unit that is prepared settles the session cache. -/
theorem Prepared.commit (h : K.Prepared once i w) {w' : State Table}
    (hcommit : w.commit i = (.ok (), w')) : K.Settled w' ∧ w'.database = w.database := by
  obtain ⟨u, hu, hparent, hready⟩ := h.unit
  obtain ⟨hcache, hdb⟩ := State.of_commit hu hparent hcommit
  refine ⟨⟨?_, by rw [hdb]; exact h.table, fun v r hv hr => ?_⟩, hdb⟩
  · rw [hcache, (UnitOfWork.sameSettings_publish ..).isEnabled]
    exact h.enabled
  · rw [hcache, UnitOfWork.rows_publish h.enabled] at hr
    obtain ⟨ρ, hρ, hat, hmirror⟩ := hready.published v r hv hr
    rw [hdb]
    exact ⟨ρ, hρ, hat, hmirror.full, hmirror.cell, by simp⟩

/-- A row of a record that was read goes into the session cache. -/
theorem Settled.populate (honly : K.nodes = [K.primary]) (h : K.Settled w) {p : PointQuery.Plan}
    (hpolicy : p.policy = ⟨.fetch, some K.entity⟩) {ρ : Record} (hρ : ρ ∈ w.database)
    (hr : r.Mirrors [] ρ) (hpairs : ∀ q ∈ r.pairs, q.2 = ρ q.1) :
    ∃ c', p.populateSession r w.cache = .ok c' ∧ K.Settled { w with cache := c' } := by
  obtain ⟨v, hb⟩ | hunbound := Classical.em (∃ v, r.Binds K.primary v)
  · have hv := fits_of_binds h.table hρ hr K.primary_mem hb
    have hat := eq_of_binds hr hb
    have hkeys : K.entity.rowKeys K.nodes r = [K.key K.primary v] := keysOf_of_binds honly hb
    have hput : ∀ merged : Row, merged.Mirrors [] ρ →
        K.Settled { w with cache := w.cache.put [K.key K.primary v] merged } := by
      refine fun merged hmirror => ⟨h.enabled, h.table, fun x r' hx hr' => ?_⟩
      rw [SessionCache.rows_put] at hr'
      split at hr'
      next hin =>
        rw [eq_of_key hx hv (List.mem_singleton.1 hin), ← Option.some.inj hr']
        exact ⟨ρ, hρ, hat, hmirror⟩
      next => exact h.shows x r' hx hr'
    have hget : w.cache.get? (K.entity.rowKeys K.nodes r) = w.cache.rows[K.key K.primary v]? := by
      rw [hkeys, SessionCache.get?_singleton]
    cases hlook : w.cache.rows[K.key K.primary v]? with
    | none =>
      rw [hlook] at hget
      refine ⟨_, PointQuery.Plan.populateSession_of_none K.keyed hpolicy hr.full hget, ?_⟩
      rw [hkeys]
      exact hput r hr
    | some known =>
      -- the row that is there already is of the same record
      rw [hlook] at hget
      have hmirrored : K.Mirrored [] w.database v known := h.shows v known hv hlook
      have hknown := hmirrored.mirrors h.table
      rw [Table.recordAt_of_mem (K.exact _) (h.table.keys _ K.primary_mem) hρ hat] at hknown
      obtain ⟨merged, hmerged, hmirror, hcell⟩ := hknown.merge hpairs
      have hmb : merged.Binds K.primary v := by
        rw [Row.Binds, hcell _ (.inr (by rw [hb]; simp)), hat]
      have hmkeys : K.entity.rowKeys K.nodes merged = [K.key K.primary v] :=
        keysOf_of_binds honly hmb
      refine ⟨_, PointQuery.Plan.populateSession_of_some K.keyed hpolicy hr.full hget hmerged
        hmirror.full, ?_⟩
      rw [hmkeys]
      exact hput merged hmirror
  · have hnil : K.entity.rowKeys K.nodes r = [] := keysOf_of_unbound honly hunbound
    refine ⟨_, PointQuery.Plan.populateSession_of_none K.keyed hpolicy hr.full ?_, ?_⟩
    · rw [hnil, SessionCache.get?_nil]
    · rw [hnil]
      exact h

section

variable {E : Engine} {s : Session Table}

/-- Outside all units, a lookup comes to what the table says, and leaves the session cache
settled. -/
theorem lookup_settled (honly : K.nodes = [K.primary]) (hcacheable : K.entity.isCacheable = true)
    (hs : s.executor = E.executor) {α : Type} {q : Query α} (hq : K.FitsLookup [] s.prepare q)
    (h : K.Settled w) : Call.Follows s K.Settled (.lookup q) w (q.single.run s none w) := by
  have hignores := ignoresCounts_settled K
  refine lookup_follows hignores h fun st hst w₁ hw₁ => ?_
  obtain ⟨clauses, hclauses, hsame, -⟩ := reply_of_lookup (E := E) (t := w.database) hst
  have hpolicy := plan_policy hq.entity hst
  have hadmits : (q.single.plan s.prepare).policy.admits w.cache = true := by
    rw [hpolicy]
    exact CachePolicy.admits_of_isEnabled h.enabled hcacheable .fetch
  refine resolve_without_unit id (fun w₂ hw₂ => ⟨hw₂.database, hignores w w₂ hw₂ h⟩) hs hsame
    hadmits (fun r hget => ?_) (fun w₂ hw₂ w₃ hw₃ => ?_) hw₁
  · rw [plan_keys hq.entity hst] at hget
    obtain hnil | ⟨v, heq, hv, hkeys⟩ := keys_cases honly q.conditions s.prepare .fetch
    · rw [hnil, SessionCache.get?_nil] at hget
      exact absurd hget (by simp)
    rw [hkeys, SessionCache.get?_singleton] at hget
    have hfits := fits_equality hq.filters hclauses hv
    obtain ⟨ρ, hρ, -, hmirror⟩ := h.shows v r hfits hget
    exact ⟨hmirror.full, fun haccepts => reply_of_accepted hst hq.reads hmirror hρ haccepts heq hv
      (K.exact _) hfits (h.table.keys _ K.primary_mem)⟩
  · -- the row that the database answers with goes into the session cache
    have hreply := reply_of_unchanged hs q.options hsame
    rw [hreply] at hw₃
    have hmoved := hw₂.trans hw₃
    have hsettled := hignores w w₃ hmoved h
    refine ⟨hsettled, fun _ answer r hr hfirst => ?_⟩
    rw [hreply, ← show w₃.database = w.database from hmoved.database] at hr
    obtain ⟨ρ, hρ, -, hmirror, hpairs, -⟩ := of_answer hq hst hr hfirst
    obtain ⟨c', hc', hafter⟩ := hsettled.populate honly hpolicy hρ hmirror hpairs
    exact ⟨{ w₃ with cache := c' }, by simp only [PointQuery.Plan.populate, hc'], rfl, hafter⟩

/-- Operations that write nothing read what the table holds. -/
theorem Settled.runAll (honly : K.nodes = [K.primary]) (hcacheable : K.entity.isCacheable = true)
    (hs : s.executor = E.executor) (h : K.Settled w) {calls : List Call}
    (hcalls : ∀ c ∈ calls, c.IsRead ∧ c.IsFit K.entity K.Fits s.prepare) :
    (s.runAll none calls w).1 = (s.directAll calls w.database).1 := by
  refine (runAll_follows none calls (Q := K.Settled) (fun c hc w hw => ?_) h).1
  obtain ⟨hread, hfit⟩ := hcalls c hc
  cases c with
  | lookup q =>
    exact lookup_settled honly hcacheable hs (fitsLookup_of_isFit honly hfit (by simp)) hw
  | read q => exact read_keeps (ignoresCounts_settled K) hs hw
  | count x => exact count_keeps (ignoresCounts_settled K) hs hw
  | insert x | update x | delete x => exact hread.elim

/-! ## Records that are stranded -/

/-- If the unit were committed, the session cache would have a row for a key that contradicts the
table. -/
def IsStranded (K : Keyring) (i : Nat) (v : Value) (w : State Table) : Prop :=
  w.cache.isEnabled = true ∧ ∃ u r, w.units.get? i = some u ∧ u.parent = none ∧
    UnitEntry.published (w.cache.rows[K.key K.primary v]?) (u.entries[K.key K.primary v]?) =
      some r ∧ w.database.Contradicts K.primary.column.name v r.cell?

theorem ignoresCounts_isStranded (K : Keyring) (i : Nat) (v : Value) :
    State.IgnoresCounts (K.IsStranded i v) := by
  rintro w w' hmoved ⟨henabled, u, r, hu, hparent, hr, hcontra⟩
  obtain ⟨u', hu', hparent', hentries⟩ := hmoved.exists_unit hu
  refine ⟨by rw [hmoved.cache]; exact henabled, u', r, hu', hparent'.trans hparent, ?_, ?_⟩
  · rw [hmoved.cache, hentries]
    exact hr
  · rw [hmoved.database]
    exact hcontra

/-- A record that is stranded is behind after the commit. -/
theorem IsStranded.commit (h : K.IsStranded i v w) {w' : State Table}
    (hcommit : w.commit i = (.ok (), w')) :
    w'.cache.isEnabled = true ∧ w'.cache.IsBehind K.entity K.primary v w'.database := by
  obtain ⟨henabled, u, r, hu, hparent, hr, hcontra⟩ := h
  obtain ⟨hcache, hdb⟩ := State.of_commit hu hparent hcommit
  rw [hcache, hdb]
  refine ⟨by rw [(UnitOfWork.sameSettings_publish ..).isEnabled]; exact henabled, r, ?_, hcontra⟩
  rw [UnitOfWork.rows_publish henabled]
  exact hr

/-- A change of a prepared unit strands a record if a commit publishes a row afterwards that
contradicts the table. -/
theorem Prepared.isStranded_modify (h : K.Prepared once i w) {db : Table} (hw₁ : w.Moved db w₁)
    (f : UnitOfWork → UnitOfWork) (hparent : ∀ u, (f u).parent = u.parent)
    (hr : ∀ u, UnitEntry.published (w.cache.rows[K.key K.primary v]?)
      ((f u).entries[K.key K.primary v]?) = some r)
    (hcontra : db.Contradicts K.primary.column.name v r.cell?) :
    K.IsStranded i v (w₁.modifyUnit i f) := by
  obtain ⟨u, hu, hroot, -⟩ := h.unit
  obtain ⟨u', hu', hparent', -⟩ := hw₁.exists_unit hu
  refine ⟨?_, f u', r, Units.get?_modify hu' _, (hparent u').trans (hparent'.trans hroot), ?_, ?_⟩
  · show w₁.cache.isEnabled = true
    rw [hw₁.cache]
    exact h.enabled
  · show UnitEntry.published (w₁.cache.rows[K.key K.primary v]?) _ = _
    rw [hw₁.cache]
    exact hr u'
  · show Table.Contradicts w₁.database _ _ _
    rw [hw₁.database]
    exact hcontra

/-- A lookup that takes a row from the session cache strands the record if the row is behind. -/
theorem isStranded_lookup (honly : K.nodes = [K.primary]) (hs : s.executor = E.executor)
    {α : Type} {q : Query α} (hq : K.FitsLookup once s.prepare q)
    (hv : K.Fits K.primary.column.name v) (h : K.Prepared once i w)
    (hstrands : (Call.lookup q).Strands K.entity K.primary s i w v) :
    K.IsStranded i v (q.single.run s (some i) w).2 := by
  obtain ⟨st, hst, htakes, hkey, r₀, hr₀, hcontra⟩ := hstrands
  obtain ⟨_, -, hsame, -⟩ := reply_of_lookup (E := E) (t := w.database) hst
  have hreply : (s.reply q.options st w.database).2 = w.database :=
    congrArg Prod.snd (reply_of_unchanged hs q.options hsame)
  obtain ⟨r, w₁, hr, hmoved, hwithin⟩ := PointQuery.Plan.withinUnit_of_takesFromSession
    (w := { w with events := w.events ++ q.single.query.warnings st }) htakes
  obtain ⟨x, hx, hkeys, hlook, hrkeys⟩ :=
    of_fromSession honly hq hst (fun v r hv hr => (h.shaped v r hv hr).1) hr
  rw [hkeys, List.mem_singleton] at hkey
  obtain rfl := eq_of_key hv hx hkey
  have hrow : r₀ = r := Option.some.inj (hr₀.symm.trans hlook)
  subst hrow
  rw [plan_policy hq.entity hst, keysOfRow_eq .fetch (h.shaped v r₀ hv hlook).1, hrkeys] at hwithin
  have hhit : (q.single.plan s.prepare).resolve (some i)
      { w with events := w.events ++ q.single.query.warnings st } =
        (.ok (.hit r₀), w₁.modifyUnit i (·.put [K.key K.primary v] (.row r₀ false))) := hwithin
  refine ignoresCounts_isStranded K i v _ _ (single_run_of_hit hst hhit).2 ?_
  -- the row of the session cache becomes the unit's own, and a commit does not publish it
  refine h.isStranded_modify ((w.moved_events _).trans hmoved) _ (fun _ => rfl) (r := r₀)
    (fun u => ?_) ?_
  · rw [UnitOfWork.entries_put, if_pos (List.mem_singleton_self _)]
    exact hlook
  · show Table.Contradicts w.database _ _ _
    rw [← hreply]
    exact hcontra

/-- A delete without keys drops what the unit knows, and a row of the session cache that is behind
stays. -/
theorem isStranded_delete {d : RowDelete} (hentity : d.entity = K.entity)
    (h : K.Prepared once i w) (hstrands : (Call.delete d).Strands K.entity K.primary s i w v) :
    K.IsStranded i v (d.run s (some i) w).2 := by
  obtain ⟨st, hst, happlied, hrows, hnil, r, hr, hcontra⟩ := hstrands
  refine delete_leaves_of_applied (ignoresCounts_isStranded K i v) hst
    (Session.isApplied_eq_true.1 happlied) fun w₁ hw₁ => ?_
  rw [RowDelete.writeThrough_of_no_keys hrows (by rw [hentity, hnil]), hentity]
  -- the unit has nothing to publish, and the session cache stays as it is
  refine h.isStranded_modify hw₁ _ (fun _ => rfl) (fun u => ?_) hcontra
  rw [UnitOfWork.entries_evictSchema, if_pos]
  · exact hr
  · exact String.startsWith_string_iff.2 (by simp [Keyring.key, Entity.keyOf])

/-- An update whose filters and changes tell what the record contradicts strands it. -/
theorem isStranded_update (honly : K.nodes = [K.primary])
    (hcacheable : K.entity.isCacheable = true) (hs : s.executor = E.executor)
    (hkey : E.key = K.primary.column.name) (hspares : E.SparesKey) {u : RowUpdate}
    (hu : K.FitsUpdate once s.prepare u) (hv : K.Fits K.primary.column.name v)
    (h : K.Prepared once i w)
    (hstrands : (Call.update u).Strands K.entity K.primary s i w v) :
    K.IsStranded i v (u.run s (some i) w).2 := by
  obtain ⟨st, hst, happlied, hkeymem, hcontra⟩ := hstrands
  have hst' : u.statement s.prepare = .ok st := hst
  have hdone := Session.isApplied_eq_true.1 happlied
  refine update_leaves_of_applied (ignoresCounts_isStranded K i v) hst' hdone fun w₁ hw₁ => ?_
  rw [reply_of_engine hs] at hdone
  have hassigned := hspares.ne hst' (Engine.of_applied (RowUpdate.ne_select hst') hdone).1
  rw [hkey] at hassigned
  obtain ⟨e, clauses, _, he, -, hclauses, hchanges, -⟩ := RowUpdate.of_statement hst'
  have hentity := RowUpdate.entity_eq_of_changes he hchanges hu.entity
  subst hentity
  obtain hnil | ⟨x, -, hx, hkeys⟩ := keys_cases honly u.conditions s.prepare .update
  · rw [hnil] at hkeymem
    exact absurd hkeymem (by simp)
  have hfits := fits_equality hu.filters hclauses hx
  rw [hkeys, List.mem_singleton] at hkeymem
  obtain rfl := eq_of_key hv hfits hkeymem
  have hrecord := Table.recordAt_key (K.exact _) hv K.primary.column.name w.database
  obtain ⟨after, hthrough, -, -, hcell⟩ := writeThrough_of_values honly he hkeys hx hassigned
    hu.once hrecord rfl (h.mirrors_before hw₁ hv ⟨.update, some K.entity⟩)
  rw [hcacheable] at hthrough
  rw [hthrough]
  refine h.isStranded_modify hw₁ _ (fun _ => rfl) (r := after) (fun unit => ?_) fun ρ hρ hat => ?_
  · rw [UnitOfWork.entries_put, if_pos (List.mem_cons_self ..)]
    rfl
  · -- what the update tells, the row has
    obtain ⟨y, z, hyz, hne⟩ := hcontra ρ hρ hat
    refine ⟨y, z, ?_, hne⟩
    rw [RowUpdate.told] at hyz
    split at hyz
    next => exact absurd hyz (by simp)
    next hknown => rw [hcell, if_neg hknown, hyz, Option.some_or]

/-- An operation that strands a record of a prepared unit leaves the record stranded. -/
theorem isStranded_of_strands (c : Call) (honly : K.nodes = [K.primary])
    (hcacheable : K.entity.isCacheable = true) (hs : s.executor = E.executor)
    (hkey : E.key = K.primary.column.name) (hspares : E.SparesKey)
    (hfit : c.IsFit K.entity K.Fits s.prepare) (hmutated : ∀ x ∈ c.mutated, x ∈ once)
    (honce : ∀ x ∈ once, c.projected.count x ≤ 1) (hv : K.Fits K.primary.column.name v)
    (h : K.Prepared once i w) (hstrands : c.Strands K.entity K.primary s i w v) :
    K.IsStranded i v (c.run s (some i) w).2 := by
  cases c with
  | lookup q =>
    exact isStranded_lookup honly hs (fitsLookup_of_isFit honly hfit honce) hv h hstrands
  | update u =>
    exact isStranded_update honly hcacheable hs hkey hspares ⟨hfit.1, hfit.2, hmutated⟩ hv h
      hstrands
  | delete d => exact isStranded_delete hfit.1 h hstrands
  | read _ | count _ | insert _ =>
    obtain ⟨_, -, hnone⟩ := hstrands
    exact hnone.elim

end

end Keyring

/-! ## Runs that are committed -/

section

variable {e : Entity} {k : Node} {E : Engine} {s : Session Table} {w : State Table} {i : Nat}

/-- Outside all units, lookups by a key are answered with a row, if they accept it. -/
def Session.Serves (s : Session Table) (w : State Table) (e : Entity) (k : Node) (v : Value)
    (r : Row) : Prop :=
  ∀ {α : Type} (q : Query α) (st : Statement), q.single.statement s.prepare = .ok st →
    (∀ n ∈ q.projection, n.entity = e) → q.options.usesCache = true →
    e.keyOf k v ∈ q.conditions.keys ⟨.fetch, some e⟩ s.prepare →
    (q.single.plan s.prepare).accepts r = .ok true →
      (q.single.run s none w).1 = (q.mapper r).map some

/-- Where one key column is all there is, the row that the session cache has for a key is served. -/
theorem Keyring.serves_of_cached {K : Keyring} (honly : K.nodes = [K.primary])
    (hcacheable : K.entity.isCacheable = true) (henabled : w.cache.isEnabled = true) {v : Value}
    {r : Row} (hr : w.cache.rows[K.key K.primary v]? = some r) :
    s.Serves w K.entity K.primary v r := by
  intro α q st hst hentity huses hkeymem haccepts
  refine (run_of_accepted hcacheable henabled hentity ⟨huses, List.ne_nil_of_mem hkeymem⟩ hst ?_
    haccepts).1
  obtain hnil | ⟨x, -, -, hkeys⟩ := keys_cases honly q.conditions s.prepare .fetch
  · rw [hnil] at hkeymem
    exact absurd hkeymem (by simp)
  · rw [hkeys, List.mem_singleton] at hkeymem
    rw [hkeys, SessionCache.get?_singleton, ← hkeymem]
    exact hr

/-- After a run in a unit that strands no record, and the commit of the unit, whatever is read
outside all units is what the table holds. Where the last operation of the run is the first one to
strand a record, the session cache has a row for this record that contradicts the table, and
answers with it. -/
theorem reads_after_commit (Fits : String → Value → Prop) (hprimary : e.primaryKey = [k])
    (hunique : e.uniques = []) (hcacheable : e.isCacheable = true)
    (hkind : ∀ c, ∃ kind : ValueKind, ∀ v, Fits c v → kind.holds v = true)
    (htells : TextTells (Fits k.column.name)) (hkey : E.key = k.column.name)
    (hspares : E.SparesKey) (hs : s.executor = E.executor) (henabled : w.cache.isEnabled = true)
    (htable : w.database.IsKey (Fits k.column.name) k.column.name)
    (hvalued : ∀ ρ ∈ w.database, ∃ v, ρ k.column.name = some v) {calls : List Call}
    (hcached : ∀ v r, Fits k.column.name v → w.cache.rows[e.keyOf k v]? = some r →
      ∃ ρ ∈ w.database, ρ k.column.name = some v ∧ r.Mirrors (calls.flatMap Call.mutated) ρ)
    {u : UnitOfWork} (hunit : w.units.get? i = some u) (hparent : u.parent = none)
    (hentries : u.entries = ∅) (hfit : ∀ c ∈ calls, c.IsFit e Fits s.prepare)
    (honce : ∀ x ∈ calls.flatMap Call.mutated, ∀ c ∈ calls, c.projected.count x ≤ 1)
    {w' : State Table} (hcommit : (s.runAll (some i) calls w).2.commit i = (.ok (), w')) :
    (s.Along (some i) (fun c w => ∀ v, Fits k.column.name v → ¬ c.Strands e k s i w v) calls w →
      w'.database = (s.directAll calls w.database).2 ∧
      ∀ reads : List Call, (∀ c ∈ reads, c.IsRead ∧ c.IsFit e Fits s.prepare) →
        (s.runAll none reads w').1 = (s.directAll reads w'.database).1) ∧
    ∀ before c v, calls = before ++ [c] → Fits k.column.name v →
      s.Along (some i) (fun c w => ∀ v, Fits k.column.name v → ¬ c.Strands e k s i w v) before w →
      c.Strands e k s i (s.runAll (some i) before w).2 v →
      ∃ r, w'.cache.rows[e.keyOf k v]? = some r ∧
        w'.database.Contradicts k.column.name v r.cell? ∧ s.Serves w' e k v r := by
  have hexact : ∀ c, ExactOn (Fits c) := by
    intro c
    obtain ⟨kind, hholds⟩ := hkind c
    exact kind.exactOn.mono hholds
  let K := Keyring.ofPrimary Fits hprimary hunique hexact htells
  have honly : K.nodes = [K.primary] := rfl
  have hkeyed : K.IsTable w.database := by
    refine ⟨fun n hn => ?_, hvalued⟩
    rw [List.mem_singleton.1 hn]
    exact htable
  have hmutated : ∀ c ∈ calls, ∀ x ∈ c.mutated, x ∈ calls.flatMap Call.mutated :=
    fun c hc x hx => List.mem_flatMap.2 ⟨c, hc, hx⟩
  -- a unit without entries is prepared, and calls that strand nothing leave it so
  have hopened : K.Prepared (calls.flatMap Call.mutated) i w :=
    Keyring.prepared_of_opened henabled hkeyed hcached hunit hparent hentries
  have hstep : ∀ c ∈ calls, ∀ w : State Table, K.Prepared (calls.flatMap Call.mutated) i w →
      (∀ v, Fits k.column.name v → ¬ c.Strands e k s i w v) →
      (c.run s (some i) w).2.database = (c.direct s w.database).2 ∧
        K.Prepared (calls.flatMap Call.mutated) i (c.run s (some i) w).2 :=
    fun c hc w hw hnot => Keyring.step_prepared c honly hcacheable hs hkey hspares (hfit c hc)
      (hmutated c hc) (fun x hx => honce x hx c hc) hnot hw
  refine ⟨fun hspared => ?_, fun before c v hcalls hv hspared hstrands => ?_⟩
  · obtain ⟨hdatabase, hprepared⟩ := Session.Along.of_step s hstep hspared hopened
    obtain ⟨hsettled, hdb⟩ := hprepared.commit hcommit
    exact ⟨hdb.trans (runAll_database hdatabase), fun reads hreads =>
      hsettled.runAll honly hcacheable hs hreads⟩
  · -- up to the last call the unit was prepared; that call leaves a record stranded
    have hc : c ∈ calls := by simp [hcalls]
    have hprepared := (Session.Along.of_step s
      (fun d hd => hstep d (by rw [hcalls]; exact List.mem_append_left _ hd)) hspared hopened).2
    have hstranded : K.IsStranded i v (c.run s (some i) (s.runAll (some i) before w).2).2 :=
      Keyring.isStranded_of_strands c honly hcacheable hs hkey hspares (hfit c hc) (hmutated c hc)
        (fun x hx => honce x hx c hc) hv hprepared hstrands
    rw [hcalls, Session.runAll_concat] at hcommit
    obtain ⟨henabled', r, hr, hcontra⟩ := hstranded.commit hcommit
    exact ⟨r, hr, hcontra, Keyring.serves_of_cached (K := K) honly hcacheable henabled' hr⟩

end

/-! ## Users who are removed -/

namespace User

/-- What the columns of the table hold. -/
abbrev Fits (column : String) (v : Value) : Prop := (kind column).holds v = true

/-- Removes several users. -/
def removeAll (ids : List Int32) : RowDelete :=
  Restricted.where_ (RowDelete.of entity) (Filter.isIn (t := .int) ⟨entity, "id"⟩ ids)

/-- Another user is removed, and then this one is renamed and read. -/
def removedFirst : List Call :=
  [.delete (removeAll [6]), .update (rename 5 "Bea"), .lookup (nameOf 5)]

/-- This user is renamed, and then another one is removed. -/
def removedLast : List Call := [.update (rename 5 "Bea"), .delete (removeAll [6])]

theorem isFit_nameOf : (Call.lookup (nameOf 5)).IsFit entity Fits .identity := by
  have hclauses : (nameOf 5).conditions.filterClauses .identity =
      .ok [⟨"id", .eq, [.int 5]⟩] := rfl
  exact ⟨Query.readsProjection_ofProperty _, by decide,
    Conditions.fit_of_clauses hclauses (by decide)⟩

theorem isFit_rename : (Call.update (rename 5 "Bea")).IsFit entity Fits .identity := by
  have hclauses : (rename 5 "Bea").conditions.filterClauses .identity =
      .ok [⟨"id", .eq, [.int 5]⟩] := rfl
  exact ⟨by decide, Conditions.fit_of_clauses hclauses (by decide)⟩

theorem isFit_removeAll : (Call.delete (removeAll [6])).IsFit entity Fits .identity := by
  have hclauses : (removeAll [6]).conditions.filterClauses .identity =
      .ok [⟨"id", .isIn, [.int 6]⟩] := rfl
  exact ⟨rfl, Conditions.fit_of_clauses hclauses (by decide)⟩

/-- The key of the table. -/
def keyring : Keyring :=
  .ofPrimary (e := entity) (k := idNode) Fits (by decide) (by decide) (fun c => (kind c).exactOn)
    (ValueKind.textTells (by decide))

theorem isTable_ann : keyring.IsTable [ann] where
  keys n hn := by
    rw [List.mem_singleton.1 hn]
    exact Table.isKey_singleton fun v hv => by rw [← Option.some.inj hv]; rfl
  valued ρ hρ := ⟨.int 5, by rw [List.mem_singleton.1 hρ]; rfl⟩

/-- The update names its record. -/
theorem not_strands_rename {w : State Table} (ht : keyring.IsTable w.database) {v : Value}
    (hv : Fits "id" v) :
    ¬ (Call.update (rename 5 "Bea")).Strands entity idNode session 0 w v := by
  have hfits : keyring.FitsUpdate [] .identity (rename 5 "Bea") :=
    ⟨isFit_rename.1, isFit_rename.2, by decide⟩
  exact Keyring.not_strands_of_names (K := keyring) rfl rfl rfl
    (Engine.isStrict_plain "id" fun _ _ => false).sparesKey hfits ⟨_, rfl, rfl, rfl⟩ ht hv

/-- If the other user is removed first, no record is stranded: the session cache is right about the
user who stays, the update names its record, and the lookup takes nothing from the session cache. -/
theorem spared_removedFirst :
    session.Along (some 0) (fun c w => ∀ v, Fits "id" v → ¬ c.Strands entity idNode session 0 w v)
      removedFirst opened := by
  have hafter : ((Call.delete (removeAll [6])).run session (some 0) opened).2.database = [ann] := by
    with_unfolding_all rfl
  refine ⟨?_, ?_, ?_, trivial⟩
  · rintro v hv ⟨st, hst, -, -, -, r, hr, hcontra⟩
    obtain ⟨rfl, rfl⟩ := rows_opened hv hr
    cases hst
    obtain ⟨c, x, hx, hne⟩ :=
      hcontra ann (by with_unfolding_all exact List.mem_singleton_self _) rfl
    have hmirror : (ann.row ["id", "override_name"]).Mirrors [] ann :=
      Row.mirrors_row (by simp) ann
    exact hne (hmirror.cell c x hx)
  · intro v hv
    refine not_strands_rename ?_ hv
    rw [hafter]
    exact isTable_ann
  · rintro v hv ⟨_, -, htakes, -⟩
    exact absurd htakes (by decide +kernel)

/-- If the other user is removed afterwards, the unit forgets the new name of the one who stays,
and the session cache has the old one. -/
theorem strands_removedLast :
    (Call.delete (removeAll [6])).Strands entity idNode session 0
      (session.runAll (some 0) [.update (rename 5 "Bea")] opened).2 (.int 5) := by
  refine ⟨_, rfl, by decide +kernel, rfl, by decide +kernel, ann.row ["id", "override_name"],
    ?_, ?_⟩
  · have hcache : (session.runAll (some 0) [.update (rename 5 "Bea")] opened).2.cache =
        opened.cache := by with_unfolding_all rfl
    rw [hcache]
    exact Std.ExtTreeMap.getElem?_insert_self
  · -- the one user that is left has the new name
    intro ρ hρ _
    refine ⟨"override_name", some (.text "Ann"), rfl, ?_⟩
    have hone : ρ ∈ [ann.assign [.set "override_name" (some (.text "Bea"))]] := by
      with_unfolding_all exact hρ
    have hname : ρ "override_name" = some (.text "Bea") := by
      rw [List.mem_singleton.1 hone]
      with_unfolding_all rfl
    rw [hname]
    simp

/-- A commit that reports success has a state to go on with. -/
theorem exists_of_commit {w : State Table} (h : (w.commit 0).1.isOk = true) :
    ∃ w', w.commit 0 = (.ok (), w') := by
  generalize w.commit 0 = outcome at h
  obtain ⟨done, w'⟩ := outcome
  cases done with
  | error e => exact absurd h (by simp [Except.isOk, Except.toBool])
  | ok _ => exact ⟨w', rfl⟩

/-- If the other user is removed first, this one is read by the new name. If the other one is
removed afterwards, the session cache is left with the old name, and answers with it. -/
theorem reads_renamed :
    (∃ w', (session.runAll (some 0) removedFirst opened).2.commit 0 = (.ok (), w') ∧
      (session.runAll none [.lookup (nameOf 5)] w').1 =
        (session.directAll [.lookup (nameOf 5)] w'.database).1) ∧
    ∃ w', (session.runAll (some 0) removedLast opened).2.commit 0 = (.ok (), w') ∧
      ∃ r, w'.cache.rows[entity.keyOf idNode (.int 5)]? = some r ∧
        w'.database.Contradicts "id" (.int 5) r.cell? ∧
        session.Serves w' entity idNode (.int 5) r := by
  have hmain := fun (calls : List Call) (hmutated : calls.flatMap Call.mutated = [])
      (hfit : ∀ c ∈ calls, c.IsFit entity Fits .identity) (w' : State Table)
      (hcommit : (session.runAll (some 0) calls opened).2.commit 0 = (.ok (), w')) =>
    reads_after_commit (e := entity) (k := idNode) (E := Engine.plain "id" fun _ _ => false)
      (u := { label := "rename", parent := none }) Fits (by decide) (by decide) (by decide)
      (fun c => ⟨kind c, fun _ h => h⟩) (ValueKind.textTells (by decide)) rfl
      (Engine.isStrict_plain _ _).sparesKey rfl rfl
      (Table.isKey_singleton fun v hv => by rw [← Option.some.inj hv]; rfl)
      (fun ρ hρ => ⟨.int 5, by rw [List.mem_singleton.1 hρ]; rfl⟩)
      (fun v r hv hr => by
        obtain ⟨rfl, rfl⟩ := rows_opened hv hr
        exact ⟨ann, List.mem_singleton_self _, rfl, Row.mirrors_row (by simp [hmutated]) ann⟩)
      rfl rfl rfl hfit (by simp [hmutated]) hcommit
  constructor
  · obtain ⟨w', hcommit⟩ : ∃ w', (session.runAll (some 0) removedFirst opened).2.commit 0 =
        (.ok (), w') := exists_of_commit (by decide +kernel)
    refine ⟨w', hcommit, ((hmain removedFirst rfl ?_ w' hcommit).1 spared_removedFirst).2 _ ?_⟩
    · simp only [removedFirst, List.forall_mem_cons]
      exact ⟨isFit_removeAll, isFit_rename, isFit_nameOf, by simp⟩
    · simp only [List.forall_mem_singleton]
      exact ⟨trivial, isFit_nameOf⟩
  · obtain ⟨w', hcommit⟩ : ∃ w', (session.runAll (some 0) removedLast opened).2.commit 0 =
        (.ok (), w') := exists_of_commit (by decide +kernel)
    refine ⟨w', hcommit, (hmain removedLast rfl ?_ w' hcommit).2 [.update (rename 5 "Bea")]
      (.delete (removeAll [6])) (.int 5) rfl rfl
      ⟨fun v hv => not_strands_rename isTable_ann hv, trivial⟩ strands_removedLast⟩
    simp only [removedLast, List.forall_mem_cons]
    exact ⟨isFit_rename, isFit_removeAll, by simp⟩

end User

end WideRow
