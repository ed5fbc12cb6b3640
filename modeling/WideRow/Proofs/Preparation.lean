import WideRow.Proofs.Isolation

/-!
# A unit that gets the session cache ready

What a unit of work does to the session cache shows after its commit only. So what is followed here,
in a unit without a parent and with nobody else writing, is what a commit would make of the session
cache right now: `UnitEntry.published` of the row that the session cache has for a key and of the
entry that the unit has. As long as all these rows are right about the table, the unit is prepared
(`Keyring.Prepared`). The entities have one key column.

Three operations can leave a record behind (`Call.Strands`).

- A lookup takes a row of the session cache that the table has overtaken, and puts it over the
  unit's own.
- An UPDATE that names a key and asks for more puts down what its filters ask for, be it so or not.
- A DELETE whose filters bind no key makes the unit forget the table, with all that the unit would
  have published of it. The session cache keeps its rows; an UPDATE without keys, or a TRUNCATE,
  makes it forget them as well.

Everything else keeps the unit prepared, and changes the table as the database alone does:
`step_prepared`.
-/

namespace WideRow

/-- No record of a key agrees with some cells. -/
def Table.Contradicts (t : Table) (key : String) (v : Value) (cells : String → Option Cell) :
    Prop :=
  ∀ ρ ∈ t, ρ key = some v → ∃ c x, cells c = some x ∧ x ≠ ρ c

/-- A table that does not contradict some cells has a record with them. -/
theorem Table.exists_of_not_contradicts {t : Table} {key : String} {v : Value}
    {cells : String → Option Cell} (h : ¬ t.Contradicts key v cells) :
    ∃ ρ ∈ t, ρ key = some v ∧ ∀ c x, cells c = some x → x = ρ c := by
  simpa [Contradicts] using h

/-- The session cache has a row for a key that contradicts the table. -/
def SessionCache.IsBehind (c : SessionCache) (e : Entity) (k : Node) (v : Value) (t : Table) :
    Prop :=
  ∃ r, c.rows[e.keyOf k v]? = some r ∧ t.Contradicts k.column.name v r.cell?

/-- A call in a unit strands the record of a key: after the commit, the session cache would have a
row that contradicts the table. -/
def Call.Strands (e : Entity) (k : Node) (s : Session Table) (i : Nat) (w : State Table) (v : Value)
    (c : Call) : Prop :=
  ∃ st, c.statement s.prepare = .ok st ∧
    let t := (s.reply c.options st w.database).2
    match c with
    | lookup q => (q.single.plan s.prepare).TakesFromSession i w ∧
        e.keyOf k v ∈ q.conditions.keys ⟨.fetch, some e⟩ s.prepare ∧ w.cache.IsBehind e k v t
    | update u => s.isApplied u.options st w.database = true ∧
        e.keyOf k v ∈ u.conditions.keys ⟨.update, some e⟩ s.prepare ∧
        t.Contradicts k.column.name v (u.told s.prepare)
    | delete d => s.isApplied d.options st w.database = true ∧ d.isTruncate = false ∧
        d.conditions.keys ⟨.delete, some e⟩ s.prepare = [] ∧ w.cache.IsBehind e k v t
    | read _ | count _ | insert _ => False

/-- A write that the engine accepts is applied. -/
theorem isApplied_of_accepted {E : Engine} {s : Session Table} (hs : s.executor = E.executor)
    {o : StatementOptions} {st : Statement} {t t' : Table} (hst : ∀ s, st ≠ .select s)
    (hverdict : E.verdict st t = .accept) (hchange : E.change st t = .ok t') :
    s.isApplied o st t = true ∧ (s.reply o st t).2 = t' := by
  rw [Session.isApplied_eq_true, reply_of_engine hs]
  exact Engine.execute_of_accepted hst hverdict hchange

namespace Keyring

/-! ## Rows that a commit would publish -/

/-- The rows of a unit are right, and so would be those of the session cache if the unit were
committed. -/
structure Readies (K : Keyring) (once : List String) (t : Table) (c : SessionCache)
    (entries : String → Option UnitEntry) : Prop where
  told : ∀ v r b, K.Fits K.primary.column.name v →
    entries (K.key K.primary v) = some (.row r b) → K.Mirrored once t v r
  published : ∀ v r, K.Fits K.primary.column.name v →
    UnitEntry.published (c.rows[K.key K.primary v]?) (entries (K.key K.primary v)) = some r →
      K.Mirrored once t v r

/-- What the operations of a unit rely on and keep, those apart that strand a record. Of the rows
that the session cache has now it is only known what they look like. -/
structure Prepared (K : Keyring) (once : List String) (i : Nat) (w : State Table) : Prop where
  enabled : w.cache.isEnabled = true
  table : K.IsTable w.database
  shaped : ∀ v r, K.Fits K.primary.column.name v → w.cache.rows[K.key K.primary v]? = some r →
    r.IsFull ∧ ∀ x ∈ once, r.HasOnce x
  unit : ∃ u, w.units.get? i = some u ∧ u.parent = none ∧
    K.Readies once w.database w.cache (u.entries[·]?)

variable {K : Keyring} {once : List String} {i : Nat} {t t' : Table} {c : SessionCache}
  {w w₁ : State Table} {v : Value} {r : Row} {entries : String → Option UnitEntry}

/-- A unit that was just opened over a session cache whose rows are right is prepared. -/
theorem prepared_of_opened (henabled : w.cache.isEnabled = true) (htable : K.IsTable w.database)
    (hcached : K.Shows once w.cache w.database) {u : UnitOfWork}
    (hunit : w.units.get? i = some u) (hparent : u.parent = none) (hentries : u.entries = ∅) :
    K.Prepared once i w := by
  refine ⟨henabled, htable, fun v r hv hr => ?_, u, hunit, hparent, fun v r b _ hr => ?_,
    fun v r hv hr => ?_⟩
  · obtain ⟨ρ, -, -, hmirror⟩ := hcached v r hv hr
    exact ⟨hmirror.full, hmirror.once⟩
  · rw [hentries, Std.ExtTreeMap.getElem?_empty] at hr
    exact absurd hr (by simp)
  · rw [hentries, Std.ExtTreeMap.getElem?_empty] at hr
    exact hcached v r hv hr

/-- A row that does not contradict the table mirrors a record. -/
theorem mirrored_of_not_contradicts (hr : r.IsFull) (honce : ∀ x ∈ once, r.HasOnce x)
    (h : ¬ t.Contradicts K.primary.column.name v r.cell?) : K.Mirrored once t v r :=
  let ⟨ρ, hρ, hv, hagrees⟩ := Table.exists_of_not_contradicts h
  ⟨ρ, hρ, hv, hr, hagrees, honce⟩

theorem ignoresCounts_prepared (K : Keyring) (once : List String) (i : Nat) :
    State.IgnoresCounts (K.Prepared once i) := by
  intro w w' hmoved h
  obtain ⟨u, hu, hparent, hready⟩ := h.unit
  obtain ⟨u', hu', hparent', hentries⟩ := hmoved.exists_unit hu
  have hcache := hmoved.cache
  have hdb := hmoved.database
  refine ⟨by rw [hcache]; exact h.enabled, by rw [hdb]; exact h.table, ?_,
    u', hu', hparent'.trans hparent, ?_⟩
  · rw [hcache]
    exact h.shaped
  · rw [hdb, hcache, hentries]
    exact hready

/-- Some keys of a unit get an entry. The records of all other keys are as they were. -/
theorem Readies.put (h : K.Readies once t c entries) {keys : List String} {entry : UnitEntry}
    (hstay : ∀ v, K.Fits K.primary.column.name v → K.key K.primary v ∉ keys →
      ∀ ρ ∈ t, ρ K.primary.column.name = some v → ρ ∈ t')
    (hentry : ∀ v r, K.Fits K.primary.column.name v → K.key K.primary v ∈ keys →
      ((∃ b, entry = .row r b) ∨
        UnitEntry.published (c.rows[K.key K.primary v]?) (some entry) = some r) →
      K.Mirrored once t' v r) :
    K.Readies once t' c fun key => if key ∈ keys then some entry else entries key := by
  have hother : ∀ v r, K.Fits K.primary.column.name v → K.key K.primary v ∉ keys →
      K.Mirrored once t v r → K.Mirrored once t' v r := by
    rintro v r hv hnot ⟨ρ, hρ, hkey, hmirror⟩
    exact ⟨ρ, hstay v hv hnot ρ hρ hkey, hkey, hmirror⟩
  constructor
  · intro v r b hv hr
    by_cases hin : K.key K.primary v ∈ keys
    · rw [if_pos hin, Option.some.injEq] at hr
      exact hentry v r hv hin (.inl ⟨b, hr⟩)
    · rw [if_neg hin] at hr
      exact hother v r hv hin (h.told v r b hv hr)
  · intro v r hv hr
    by_cases hin : K.key K.primary v ∈ keys
    · rw [if_pos hin] at hr
      exact hentry v r hv hin (.inr hr)
    · rw [if_neg hin] at hr
      exact hother v r hv hin (h.published v r hv hr)

/-- The state after some keys of the unit got an entry. -/
theorem Prepared.put (h : K.Prepared once i w) (hw₁ : w.Moved w₁.database w₁)
    (htable : K.IsTable w₁.database) {keys : List String} {entry : UnitEntry}
    (hstay : ∀ v, K.Fits K.primary.column.name v → K.key K.primary v ∉ keys →
      ∀ ρ ∈ w.database, ρ K.primary.column.name = some v → ρ ∈ w₁.database)
    (hentry : ∀ v r, K.Fits K.primary.column.name v → K.key K.primary v ∈ keys →
      ((∃ b, entry = .row r b) ∨
        UnitEntry.published (w.cache.rows[K.key K.primary v]?) (some entry) = some r) →
      K.Mirrored once w₁.database v r) :
    K.Prepared once i { w₁ with units := w₁.units.modify i (·.put keys entry) } := by
  obtain ⟨u, hu, hparent, hready⟩ := h.unit
  obtain ⟨u', hu', hparent', hentries⟩ := hw₁.exists_unit hu
  have hcache := hw₁.cache
  refine ⟨by rw [hcache]; exact h.enabled, htable, by rw [hcache]; exact h.shaped,
    u'.put keys entry, Units.get?_modify hu' _, hparent'.trans hparent, ?_⟩
  have hlook : ((u'.put keys entry).entries[·]?) =
      fun key => if key ∈ keys then some entry else u.entries[key]? := by
    funext key
    rw [UnitOfWork.entries_put, hentries]
  rw [hlook, hcache]
  exact hready.put hstay hentry

/-- The state after one key got a row that a commit publishes. -/
theorem Prepared.put_row (h : K.Prepared once i w) (hw₁ : w.Moved w₁.database w₁)
    (htable : K.IsTable w₁.database) (hv : K.Fits K.primary.column.name v)
    (hstay : ∀ ρ ∈ w.database, ρ K.primary.column.name ≠ some v → ρ ∈ w₁.database)
    (hr : K.Mirrored once w₁.database v r) {keys : List String}
    (hkeys : ∀ key, key ∈ keys ↔ key = K.key K.primary v) :
    K.Prepared once i { w₁ with units := w₁.units.modify i (·.put keys (.row r true)) } := by
  have hsame : ∀ x, K.Fits K.primary.column.name x → K.key K.primary x ∈ keys → x = v :=
    fun _ hx hin => eq_of_key hx hv ((hkeys _).1 hin)
  refine h.put hw₁ htable (fun x _ hnot ρ hρ hkey => hstay ρ hρ ?_) fun x r' hx hin hr' => ?_
  · intro he
    rw [hkey, Option.some.injEq] at he
    exact hnot ((hkeys _).2 (by rw [he]))
  · rw [hsame x hx hin]
    have heq : r' = r := by
      obtain ⟨b, hb⟩ | hp := hr'
      · exact (UnitEntry.row.inj hb).1.symm
      · exact (Option.some.inj hp).symm
    rw [heq]
    exact hr

/-- The state after the unit has forgotten the table. -/
theorem Prepared.evicted (h : K.Prepared once i w) (hw₁ : w.Moved w₁.database w₁)
    (htable : K.IsTable w₁.database) (henabled : c.isEnabled = true)
    (hrows : ∀ v r, K.Fits K.primary.column.name v → c.rows[K.key K.primary v]? = some r →
      K.Mirrored once w₁.database v r) :
    K.Prepared once i
      { w₁.modifyUnit i (·.evictSchema K.entity.table.name) with cache := c } := by
  obtain ⟨u, hu, hparent, -⟩ := h.unit
  obtain ⟨u', hu', hparent', -⟩ := hw₁.exists_unit hu
  have hnone : ∀ v, (u'.evictSchema K.entity.table.name).entries[K.key K.primary v]? = none := by
    intro v
    rw [UnitOfWork.entries_evictSchema, if_pos]
    exact String.startsWith_string_iff.2 (by simp [Keyring.key, Entity.keyOf])
  refine ⟨henabled, htable, fun v r hv hr => ?_, u'.evictSchema K.entity.table.name,
    Units.get?_modify hu' _, hparent'.trans hparent, fun v r b hv hr => ?_, fun v r hv hr => ?_⟩
  · obtain ⟨ρ, -, -, hmirror⟩ := hrows v r hv hr
    exact ⟨hmirror.full, hmirror.once⟩
  · rw [hnone] at hr
    exact absurd hr (by simp)
  · rw [hnone] at hr
    exact hrows v r hv hr

/-- The state after the unit has forgotten the table, where no row that the session cache keeps
contradicts the table. -/
theorem Prepared.forgotten (h : K.Prepared once i w) (hw₁ : w.Moved w₁.database w₁)
    (htable : K.IsTable w₁.database)
    (hagrees : ∀ v r, K.Fits K.primary.column.name v → w.cache.rows[K.key K.primary v]? = some r →
      ¬ w₁.database.Contradicts K.primary.column.name v r.cell?) :
    K.Prepared once i
      { w₁.modifyUnit i (·.evictSchema K.entity.table.name) with cache := w₁.cache } := by
  have hcache := hw₁.cache
  refine h.evicted hw₁ htable (by rw [hcache]; exact h.enabled) fun v r hv hr => ?_
  rw [hcache] at hr
  obtain ⟨hfull, honce⟩ := h.shaped v r hv hr
  exact mirrored_of_not_contradicts hfull honce (hagrees v r hv hr)

/-- The state after both caches have forgotten the table. -/
theorem Prepared.invalidated (h : K.Prepared once i w) (hw₁ : w.Moved w₁.database w₁)
    (htable : K.IsTable w₁.database) :
    K.Prepared once i { w₁.modifyUnit i (·.evictSchema K.entity.table.name) with
      cache := w₁.cache.invalidateSchema K.entity.table.name } := by
  refine h.evicted hw₁ htable ?_ fun v r _ hr => ?_
  · show w₁.cache.isEnabled = true
    rw [hw₁.cache]
    exact h.enabled
  · rw [rows_invalidateSchema] at hr
    exact absurd hr (by simp)

/-! ## What a prepared unit shows -/

/-- In a prepared unit, what is found and what a commit would publish show the record. -/
theorem Prepared.find? (h : K.Prepared once i w) {db : Table} (hw₁ : w.Moved db w₁)
    (hv : K.Fits K.primary.column.name v) :
    (∀ r b, w₁.units.find? i [K.key K.primary v] = some (.row r b) →
      K.Mirrored once w.database v r) ∧
    ∀ r, UnitEntry.published (w₁.cache.rows[K.key K.primary v]?)
      (w₁.units.find? i [K.key K.primary v]) = some r → K.Mirrored once w.database v r := by
  obtain ⟨u, hu, hparent, hready⟩ := h.unit
  obtain ⟨u', hu', hparent', hentries⟩ := hw₁.exists_unit hu
  rw [Units.find?_of_parent hu' (hparent'.trans hparent), UnitOfWork.find?_singleton, hentries,
    hw₁.cache]
  exact ⟨fun r b => hready.told v r b hv, fun r => hready.published v r hv⟩

/-- What a lookup in the unit is shown mirrors the record. -/
theorem Prepared.mirrors_shown (h : K.Prepared once i w) {db : Table} (hw₁ : w.Moved db w₁)
    (hv : K.Fits K.primary.column.name v) :
    (w₁.units.lookup i [K.key K.primary v]).shown.Mirrors once
      (w.database.recordAt K.primary.column.name v) :=
  Keyring.mirrors_shown h.table (h.find? hw₁ hv).1

/-- What an update starts from mirrors the record. -/
theorem Prepared.mirrors_before (h : K.Prepared once i w) {db : Table} (hw₁ : w.Moved db w₁)
    (hv : K.Fits K.primary.column.name v) (policy : CachePolicy) :
    (RowUpdate.before policy [K.key K.primary v] i w₁.units w₁.cache).Mirrors once
      (w.database.recordAt K.primary.column.name v) := by
  obtain ⟨htold, hpublished⟩ := h.find? hw₁ hv
  refine Keyring.mirrors_before h.table htold (fun hnone r hr => hpublished r ?_) policy
  -- a commit would leave the row of the session cache as it is
  rw [hnone]
  exact hr

/-- A row that is known when a record is deleted is a full one. -/
theorem Prepared.isFull_known (h : K.Prepared once i w) {db : Table} (hw₁ : w.Moved db w₁)
    (hv : K.Fits K.primary.column.name v)
    (hr : RowDelete.known? [K.key K.primary v] i w₁.units w₁.cache = some r) : r.IsFull := by
  obtain ⟨b, hfind⟩ | hlook := RowDelete.of_known? hr
  · obtain ⟨ρ, -, -, hmirror⟩ := (h.find? hw₁ hv).1 r b hfind
    exact hmirror.full
  · rw [hw₁.cache] at hlook
    exact (h.shaped v r hv hlook).1

/-- The keys under which a unit marks a record as deleted: that of the record, and those of the row
that is known of it. -/
theorem Prepared.deletedKeys (h : K.Prepared once i w) {db : Table} (hw₁ : w.Moved db w₁)
    (hv : K.Fits K.primary.column.name v) (use : CacheUse) :
    ∃ all, RowDelete.deletedKeys ⟨use, some K.entity⟩ [K.key K.primary v] i w₁.units w₁.cache =
      .ok all ∧ K.key K.primary v ∈ all := by
  rw [RowDelete.deletedKeys_eq]
  cases hknown : RowDelete.known? [K.key K.primary v] i w₁.units w₁.cache with
  | none => exact ⟨_, rfl, List.mem_singleton_self _⟩
  | some r =>
    rw [Option.elim_some, keysOfRow_eq use (h.isFull_known hw₁ hv hknown)]
    exact ⟨_, rfl, by simp⟩

/-! ## Writes -/

section

variable {E : Engine} {s : Session Table}

/-- An insert comes to what the table says, and keeps the unit prepared. -/
theorem insert_prepared (honly : K.nodes = [K.primary]) (hcacheable : K.entity.isCacheable = true)
    (hs : s.executor = E.executor) (hkey : E.key = K.primary.column.name) {x : RowInsert}
    (hx : K.FitsInsert s.prepare x) (h : K.Prepared once i w) :
    Call.Follows s (K.Prepared once i) (.insert x) w (x.run s (some i) w) := by
  have hignores := ignoresCounts_prepared K once i
  refine insert_follows hignores h fun st hst => ?_
  refine canWrite_of_accepted hignores h hs (RowInsert.ne_select hst) fun _ w₁ hw₁ hchange => ?_
  obtain ⟨v, hinserts⟩ := inserts_of_change hkey honly hx hst hchange
  obtain ⟨after, hthrough, hmirror⟩ :=
    hinserts.writeThrough honly (h.mirrors_shown hw₁ hinserts.fits)
  have hwritten := hinserts.written (w.database.recordAt K.primary.column.name v)
  rw [hcacheable] at hthrough
  refine ⟨_, hthrough, rfl, h.put_row hw₁ (hinserts.isTable honly h.table) hinserts.fits
    (fun ρ hρ hne => ?_) ?_ fun key => List.mem_singleton⟩
  · rw [hinserts.after]
    exact (mem_upsert_iff h.table hinserts.fits hwritten hne).1 hρ
  · rw [hinserts.after]
    exact tells_upsert h.table hinserts.fits hwritten hmirror true

/-- What an UPDATE tells, laid over a row of the record, mirrors the record that the table has
then, unless the table contradicts it. -/
theorem mirrored_of_told {u : RowUpdate} {prepare : ValuePreparer} {ρ : Record} {before after : Row}
    (hbefore : before.Mirrors once ρ) (hfull : after.IsFull) (honce : ∀ x ∈ once, after.HasOnce x)
    (hcell : ∀ x, after.cell? x = if x ∈ u.unknown then none
      else ((u.known prepare).reverse.lookup x).or (before.cell? x))
    (hrecord : ∀ σ ∈ t', σ K.primary.column.name = some v → σ = u.changed prepare ρ ∨ σ = ρ)
    (htold : ¬ t'.Contradicts K.primary.column.name v (u.told prepare)) :
    K.Mirrored once t' v after :=
  let ⟨σ, hσ, hat, hagrees⟩ := Table.exists_of_not_contradicts htold
  ⟨σ, hσ, hat, hbefore.of_told hfull honce hcell (hrecord σ hσ hat) hagrees⟩

/-- An update comes to what the table says, and keeps the unit prepared unless it strands a
record. -/
theorem update_prepared (honly : K.nodes = [K.primary]) (hcacheable : K.entity.isCacheable = true)
    (hs : s.executor = E.executor) (hkey : E.key = K.primary.column.name) (hspares : E.SparesKey)
    {u : RowUpdate} (hu : K.FitsUpdate once s.prepare u)
    (hstrands : ∀ v, K.Fits K.primary.column.name v →
      ¬ (Call.update u).Strands K.entity K.primary s i w v)
    (h : K.Prepared once i w) :
    Call.Follows s (K.Prepared once i) (.update u) w (u.run s (some i) w) := by
  have hignores := ignoresCounts_prepared K once i
  refine update_follows hignores h fun st hst => ?_
  have hselect := RowUpdate.ne_select hst
  refine canWrite_of_accepted hignores h hs hselect fun hverdict w₁ hw₁ hchange => ?_
  obtain ⟨happlied, hdb⟩ := isApplied_of_accepted (o := u.options) hs hselect hverdict hchange
  have hassigned := hspares.ne hst hverdict
  rw [hkey] at hassigned
  obtain ⟨e, clauses, conditional, he, -, hclauses, hchanges, hstatement⟩ :=
    RowUpdate.of_statement hst
  have hentity := RowUpdate.entity_eq_of_changes he hchanges hu.entity
  subst hentity
  rw [hstatement] at hchange
  have htable : K.IsTable w₁.database := by
    refine isTable_update h.table hkey hu.filters hclauses (fun p hp n hn => ?_) hchange
    rw [honly, List.mem_singleton] at hn
    rw [hn]
    exact hassigned p hp
  obtain hnil | ⟨v, -, hv, hkeys⟩ := keys_cases honly u.conditions s.prepare .update
  · -- without keys, unit and session cache forget the table
    exact ⟨_, RowUpdate.writeThrough_of_no_keys he hnil, rfl, h.invalidated hw₁ htable⟩
  · have hfits := fits_equality hu.filters hclauses hv
    have hrecord := Table.recordAt_key (K.exact _) hfits K.primary.column.name w.database
    have hbefore := h.mirrors_before hw₁ hfits ⟨.update, some K.entity⟩
    obtain ⟨after, hthrough, hfull, honce, hcell⟩ :=
      writeThrough_of_values honly he hkeys hv hassigned hu.once hrecord rfl hbefore
    obtain ⟨hrecords, hstay⟩ :=
      record_of_update h.table hkey hu.filters hclauses hassigned hv hchange
    -- what the update told of the record came true, else it would have stranded it
    have hagrees : ¬ w₁.database.Contradicts K.primary.column.name v (u.told s.prepare) := by
      refine fun hcontra => hstrands v hfits ⟨st, hst, happlied, ?_, ?_⟩
      · rw [hkeys]
        exact List.mem_singleton_self _
      · show Table.Contradicts (s.reply u.options st w.database).2 _ _ _
        rw [hdb]
        exact hcontra
    have hmirrored := mirrored_of_told hbefore hfull honce hcell hrecords hagrees
    rw [hcacheable] at hthrough
    refine ⟨_, hthrough, rfl, h.put_row hw₁ htable hfits hstay hmirrored fun key => ?_⟩
    obtain ⟨ρ, -, hat, hmirror⟩ := hmirrored
    rw [List.mem_cons]
    exact or_iff_left_of_imp (mem_keysOf_of_mirrors honly hmirror hat)

/-- An update that names its record by the key strands none. -/
theorem not_strands_of_names (honly : K.nodes = [K.primary]) (hs : s.executor = E.executor)
    (hkey : E.key = K.primary.column.name) (hspares : E.SparesKey) {u : RowUpdate}
    (hu : K.FitsUpdate once s.prepare u) (hnames : u.conditions.Names K.primary)
    (ht : K.IsTable w.database) (hv : K.Fits K.primary.column.name v) :
    ¬ (Call.update u).Strands K.entity K.primary s i w v := by
  rintro ⟨st, hst, happlied, hkeymem, hcontra⟩
  have hst' : u.statement s.prepare = .ok st := hst
  rw [Session.isApplied_eq_true, reply_of_engine hs] at happlied
  obtain ⟨hverdict, hchange⟩ := Engine.of_applied (RowUpdate.ne_select hst') happlied
  have hassigned := hspares.ne hst' hverdict
  rw [hkey] at hassigned
  obtain ⟨x, hupdates⟩ := updates_of_change honly hkey hu hnames hst' hchange
  rw [hupdates.keys, List.mem_singleton] at hkeymem
  obtain rfl := eq_of_key hv hupdates.fits hkeymem
  have hrecord := Table.recordAt_key (K.exact _) hv K.primary.column.name w.database
  have hwritten := (RowUpdate.changed_of_forall_ne hassigned s.prepare
    (w.database.recordAt K.primary.column.name v)).trans hrecord
  have hmem : u.changed s.prepare (w.database.recordAt K.primary.column.name v) ∈
      (s.reply u.options st w.database).2 := by
    rw [reply_of_engine hs, hupdates.after]
    exact (Table.mem_upsert (K.exact _) (ht.keys _ K.primary_mem) hv).2 (.inl rfl)
  obtain ⟨y, z, hyz, hne⟩ := hcontra _ hmem hwritten
  refine hne (Row.eq_changed_of_told (fun n x hx => ?_) hyz)
  rw [hupdates.values, List.mem_singleton, Prod.mk.injEq] at hx
  rw [hx.1, hx.2, hwritten]

/-- A delete comes to what the table says, and keeps the unit prepared unless it strands a
record. -/
theorem delete_prepared (honly : K.nodes = [K.primary]) (hs : s.executor = E.executor)
    {d : RowDelete} (hentity : d.entity = K.entity)
    (hfilters : d.conditions.Fit K.Fits s.prepare)
    (hstrands : ∀ v, K.Fits K.primary.column.name v →
      ¬ (Call.delete d).Strands K.entity K.primary s i w v)
    (h : K.Prepared once i w) :
    Call.Follows s (K.Prepared once i) (.delete d) w (d.run s (some i) w) := by
  have hignores := ignoresCounts_prepared K once i
  refine delete_follows hignores h fun st hst => ?_
  have hselect := RowDelete.ne_select hst
  refine canWrite_of_accepted hignores h hs hselect fun hverdict w₁ hw₁ hchange => ?_
  obtain ⟨happlied, hdb⟩ := isApplied_of_accepted (o := d.options) hs hselect hverdict hchange
  obtain ⟨-, ⟨htruncate, hstatement⟩ | ⟨clauses, conditional, hrows, hclauses, hstatement⟩⟩ :=
    RowDelete.of_statement hst
  · -- the table is emptied, and unit and session cache forget it
    rw [hstatement] at hchange
    have hafter : w₁.database = [] := (Except.ok.inj hchange).symm
    have htable : K.IsTable w₁.database := by
      rw [hafter]
      exact isTable_nil
    refine ⟨_, RowDelete.writeThrough_of_truncate htruncate, rfl, ?_⟩
    rw [hentity]
    exact h.invalidated hw₁ htable
  rw [hstatement] at hchange
  have hafter : w₁.database = w.database.filter fun ρ => !E.selects clauses ρ :=
    (Except.ok.inj hchange).symm
  have htable : K.IsTable w₁.database := by
    rw [hafter]
    exact h.table.filter _
  obtain hnil | ⟨v, -, hv, hkeys⟩ := keys_cases honly d.conditions s.prepare .delete
  · -- the unit forgets the table, and the session cache keeps its rows
    refine ⟨{ w₁.modifyUnit i (·.evictSchema K.entity.table.name) with cache := w₁.cache }, ?_, rfl,
      h.forgotten hw₁ htable fun v r hv hr hcontra => ?_⟩
    · rw [RowDelete.writeThrough_of_no_keys hrows (by rw [hentity, hnil]), hentity]
      rfl
    · refine hstrands v hv ⟨st, hst, happlied, hrows, hnil, r, hr, ?_⟩
      show Table.Contradicts (s.reply d.options st w.database).2 _ _ _
      rw [hdb]
      exact hcontra
  · obtain ⟨all, hall, hmem⟩ := h.deletedKeys hw₁ (fits_equality hfilters hclauses hv) .delete
    refine ⟨{ w₁ with units := w₁.units.modify i (·.put all .deleted) }, ?_, rfl,
      h.put hw₁ htable (fun x hx hnot ρ hρ hat => ?_) fun x r _ _ hr => ?_⟩
    · rw [RowDelete.writeThrough_of_keys hrows (by rw [hentity, hkeys]; simp), hentity, hkeys, hall]
      rfl
    · rw [hafter]
      refine mem_filter_of_ne K.exact hfilters hclauses hv hρ fun hat' => ?_
      rw [hat, Option.some.injEq] at hat'
      exact hnot (by rw [hat']; exact hmem)
    · -- a key that is marked as deleted has no row
      obtain ⟨b, hb⟩ | hp := hr
      · exact absurd hb (by simp)
      · exact absurd hp (by simp [UnitEntry.published])

/-! ## Lookups -/

/-- A row of a record that was read goes into the unit, if it has the key. -/
theorem Prepared.populate (honly : K.nodes = [K.primary]) (hcacheable : K.entity.isCacheable = true)
    (h : K.Prepared once i w) (hw₁ : w.Moved w.database w₁) {p : PointQuery.Plan}
    (hpolicy : p.policy = ⟨.fetch, some K.entity⟩) {ρ : Record} (hρ : ρ ∈ w.database)
    (hr : r.Mirrors once ρ) (hpairs : ∀ q ∈ r.pairs, q.2 = ρ q.1) {units : Units}
    (hunits : p.populateUnit r i w₁.units = .ok units) :
    K.Prepared once i { w₁ with units } := by
  obtain ⟨v, hb⟩ | hunbound := Classical.em (∃ v, r.Binds K.primary v)
  · have hv := fits_of_binds h.table hρ hr K.primary_mem hb
    have hat := eq_of_binds hr hb
    obtain ⟨merged, hmerged, hmirror⟩ :=
      exists_merged h.table (h.find? hw₁ hv).1 hρ hat hr hpairs
    rw [populateUnit_of_binds honly hpolicy hr.full hb hmerged, hcacheable,
      Except.ok.injEq] at hunits
    have hdb := hw₁.database
    rw [← hdb] at hw₁ hρ
    rw [← hunits]
    exact h.put_row hw₁ (by rw [hdb]; exact h.table) hv (fun ρ hρ _ => by rw [hdb]; exact hρ)
      ⟨ρ, hρ, hat, hmirror⟩ fun key => List.mem_singleton
  · obtain ⟨facets, hfacets, hkeys⟩ := exists_facets (K := K) .fetch hr.full
    rw [PointQuery.Plan.populateUnit_eq, hpolicy] at hunits
    simp only [bind, Except.bind, hfacets, hkeys, keysOf_of_unbound honly hunbound,
      List.isEmpty_nil, if_true, pure, Except.pure, Except.ok.injEq] at hunits
    rw [← hunits]
    exact ignoresCounts_prepared K once i w w₁ hw₁ h

/-- The row that the session cache has for a lookup stands under the one key of its filters, and
binds it. -/
theorem of_fromSession (honly : K.nodes = [K.primary]) {α : Type} {q : Query α}
    (hq : K.FitsLookup once s.prepare q) {st : Statement}
    (hst : q.single.statement s.prepare = .ok st)
    (hfull : ∀ v r, K.Fits K.primary.column.name v → c.rows[K.key K.primary v]? = some r → r.IsFull)
    (hr : (q.single.plan s.prepare).fromSession? c = .ok (some r)) :
    ∃ v, K.Fits K.primary.column.name v ∧
      q.conditions.keys ⟨.fetch, some K.entity⟩ s.prepare = [K.key K.primary v] ∧
      c.rows[K.key K.primary v]? = some r ∧ K.keysOf r = [K.key K.primary v] := by
  obtain ⟨hget, haccepts⟩ := PointQuery.Plan.of_fromSession? hr
  rw [plan_keys hq.entity hst] at hget
  obtain ⟨_, clauses, -, -, hclauses, -⟩ := Query.of_statement (q := q.single.query) hst
  obtain hnil | ⟨v, -, hv, hkeys⟩ := keys_cases honly q.conditions s.prepare .fetch
  · rw [hnil, SessionCache.get?_nil] at hget
    exact absurd hget (by simp)
  · have hfits := fits_equality hq.filters hclauses hv
    rw [hkeys, SessionCache.get?_singleton] at hget
    obtain ⟨b, hb, hspec⟩ := (q.single.plan s.prepare).accepts_spec (hfull v r hfits hget)
    rw [haccepts, Except.ok.injEq] at hb
    obtain ⟨x, hx, hagrees⟩ := (hspec.1 hb.symm).2 K.primary v hv
    have hbinds : r.Binds K.primary v := by
      rw [Row.Binds, hx, (K.exact _).exact hfits hagrees]
    exact ⟨v, hfits, hkeys, hget, keysOf_of_binds honly hbinds⟩

/-- A lookup keeps the unit prepared unless it strands a record, and leaves the table as it is. -/
theorem lookup_prepared (honly : K.nodes = [K.primary]) (hcacheable : K.entity.isCacheable = true)
    (hs : s.executor = E.executor) {α : Type} {q : Query α} (hq : K.FitsLookup once s.prepare q)
    (hstrands : ∀ v, K.Fits K.primary.column.name v →
      ¬ (Call.lookup q).Strands K.entity K.primary s i w v)
    (h : K.Prepared once i w) :
    K.Prepared once i (q.single.run s (some i) w).2 ∧
      (q.single.run s (some i) w).2.database = w.database := by
  have hignores := ignoresCounts_prepared K once i
  refine lookup_leaves (Q := fun w' => K.Prepared once i w' ∧ w'.database = w.database)
    (fun w₁ w₂ hmoved hw₁ => ⟨hignores w₁ w₂ hmoved hw₁.1, hmoved.database.trans hw₁.2⟩)
    (fun _ _ => ⟨h, rfl⟩) fun st hst => ?_
  obtain ⟨_, -, hsame, -⟩ := reply_of_lookup (E := E) (t := w.database) hst
  have hreply := reply_of_unchanged hs q.options hsame
  constructor
  · exact fun w₁ hw₁ => ⟨hignores w w₁ hw₁ h, hw₁.database⟩
  · intro w₁ hw₁
    rw [hreply] at hw₁
    exact ⟨hignores w w₁ hw₁ h, hw₁.database⟩
  · intro htakes r keys hr hkeys w₁ hw₁
    obtain ⟨v, hv, hqkeys, hlook, hrkeys⟩ :=
      of_fromSession honly hq hst (fun v r hv hr => (h.shaped v r hv hr).1) hr
    obtain ⟨hfull, honce⟩ := h.shaped v r hv hlook
    rw [plan_policy hq.entity hst, keysOfRow_eq .fetch hfull, hrkeys, Except.ok.injEq] at hkeys
    subst hkeys
    have hmirrored : K.Mirrored once w.database v r := by
      refine mirrored_of_not_contradicts hfull honce fun hcontra => ?_
      refine hstrands v hv ⟨st, hst, htakes, by rw [hqkeys]; exact List.mem_singleton_self _,
        r, hlook, ?_⟩
      show Table.Contradicts (s.reply q.options st w.database).2 _ _ _
      rw [hreply]
      exact hcontra
    have hdb := hw₁.database
    rw [← hdb] at hw₁ hmirrored
    -- a commit leaves the row of the session cache, which is the same one
    refine ⟨h.put hw₁ (by rw [hdb]; exact h.table) (fun _ _ _ ρ hρ _ => by rw [hdb]; exact hρ)
      fun x r' hx hin hr' => ?_, hdb⟩
    obtain rfl := eq_of_key hx hv (List.mem_singleton.1 hin)
    have heq : r' = r := by
      obtain ⟨b, hb⟩ | hp := hr'
      · exact (UnitEntry.row.inj hb).1.symm
      · exact Option.some.inj (hp.symm.trans hlook)
    rw [heq]
    exact hmirrored
  · intro _ answer r hr hfirst w₁ units hw₁ hunits
    rw [hreply] at hr hw₁
    obtain ⟨ρ, hρ, -, hmirror, hpairs, -⟩ := of_answer hq hst hr hfirst
    exact ⟨h.populate honly hcacheable hw₁ (plan_policy hq.entity hst) hρ hmirror hpairs hunits,
      hw₁.database⟩

/-! ## Every operation -/

/-- A lookup of a call that fits can be followed. -/
theorem fitsLookup_of_isFit (honly : K.nodes = [K.primary]) {α : Type} {q : Query α}
    (h : (Call.lookup q).IsFit K.entity K.Fits s.prepare)
    (honce : ∀ x ∈ once, (Call.lookup q).projected.count x ≤ 1) :
    K.FitsLookup once s.prepare q := by
  obtain ⟨hreads, hentity, hfilters⟩ := h
  refine ⟨hreads, hentity, hfilters, honce, fun n hn hread => ?_⟩
  rw [honly, List.mem_singleton] at hn
  rwa [hn] at hread

/-- An operation that strands no record keeps the unit prepared, and leaves the table as the
database alone leaves it. -/
theorem step_prepared (c : Call) (honly : K.nodes = [K.primary])
    (hcacheable : K.entity.isCacheable = true) (hs : s.executor = E.executor)
    (hkey : E.key = K.primary.column.name) (hspares : E.SparesKey)
    (hfit : c.IsFit K.entity K.Fits s.prepare) (hmutated : ∀ x ∈ c.mutated, x ∈ once)
    (honce : ∀ x ∈ once, c.projected.count x ≤ 1)
    (hstrands : ∀ v, K.Fits K.primary.column.name v → ¬ c.Strands K.entity K.primary s i w v)
    (h : K.Prepared once i w) :
    (c.run s (some i) w).2.database = (c.direct s w.database).2 ∧
      K.Prepared once i (c.run s (some i) w).2 := by
  have hignores := ignoresCounts_prepared K once i
  have hfollows : ∀ {c : Call}, c.Follows s (K.Prepared once i) w (c.run s (some i) w) →
      (c.run s (some i) w).2.database = (c.direct s w.database).2 ∧
        K.Prepared once i (c.run s (some i) w).2 := fun h => ⟨h.database, h.kept⟩
  cases c with
  | lookup q =>
    obtain ⟨hkept, hdb⟩ := lookup_prepared honly hcacheable hs
      (fitsLookup_of_isFit honly hfit honce) hstrands h
    refine ⟨hdb.trans ?_, hkept⟩
    cases hst : q.single.statement s.prepare with
    | error e => rw [direct_of_error (c := .lookup q) hst]
    | ok st =>
      obtain ⟨_, -, hsame, -⟩ := reply_of_lookup (E := E) (t := w.database) hst
      rw [direct_of_ok (c := .lookup q) hst]
      exact (congrArg Prod.snd (reply_of_unchanged hs q.options hsame)).symm
  | read q => exact hfollows (read_keeps hignores hs h)
  | count x => exact hfollows (count_keeps hignores hs h)
  | insert x =>
    refine hfollows (insert_prepared honly hcacheable hs hkey ⟨hfit.1, fun p hp hname v hv => ?_⟩ h)
    rw [← hname]
    exact hfit.2 p hp v hv
  | update u =>
    exact hfollows (update_prepared honly hcacheable hs hkey hspares ⟨hfit.1, hfit.2, hmutated⟩
      hstrands h)
  | delete d => exact hfollows (delete_prepared honly hs hfit.1 hfit.2 hstrands h)

end

end Keyring

end WideRow
