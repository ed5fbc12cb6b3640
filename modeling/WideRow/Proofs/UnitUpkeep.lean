import WideRow.Proofs.UnitRows

/-!
# How a unit of work is kept

Inside a unit of work without a parent, with nobody else writing, the entities have one key
column here. What the unit holds under a key is right as of now (`Keyring.Tells`), and where it
holds nothing the record of the key is the one it was when the unit was opened, so that the
session cache, which is of that time, is still right about it: `Keyring.Tracks`.

For each operation there is one lemma, and all of them say the same: the operation comes to what
the table alone says, and the unit goes on tracking it (`lookup_in_unit`, `insert_in_unit`,
`update_in_unit`, `delete_in_unit`). Only a lookup asks for more. If the unit has a row that does
not answer it, the session cache is asked all the same, and its row may be one that the unit has
overtaken by a write of its own; `result_of_takesFromSession` says what comes of that.
-/

namespace WideRow

/-- A table has the same records of a key as another one. -/
def Table.SameAt (t t' : Table) (key : String) (v : Value) : Prop :=
  ∀ ρ : Record, ρ key = some v → (ρ ∈ t ↔ ρ ∈ t')

namespace Keyring

/-- What an entry of a unit says of a key is so. -/
def Tells (K : Keyring) (once : List String) (t : Table) (v : Value) : UnitEntry → Prop
  | .row r _ => ∃ ρ ∈ t, ρ K.primary.column.name = some v ∧ r.Mirrors once ρ
  | .deleted => ∀ ρ ∈ t, ρ K.primary.column.name ≠ some v

/-- What a unit has under a key is so, and where it has nothing, nothing happened since it was
opened. -/
structure Tracks (K : Keyring) (once : List String) (opening t : Table)
    (entries : String → Option UnitEntry) : Prop where
  told : ∀ v entry, K.Fits K.primary.column.name v →
    entries (K.key K.primary v) = some entry → K.Tells once t v entry
  untouched : ∀ v, K.Fits K.primary.column.name v → entries (K.key K.primary v) = none →
    opening.SameAt t K.primary.column.name v

/-- The rows of a session cache agree with the records of their keys. -/
def Shows (K : Keyring) (once : List String) (c : SessionCache) (t : Table) : Prop :=
  ∀ v r, K.Fits K.primary.column.name v → c.rows[K.key K.primary v]? = some r →
    ∃ ρ ∈ t, ρ K.primary.column.name = some v ∧ r.Mirrors once ρ

/-- What the operations of a unit rely on and keep. -/
structure InUnit (K : Keyring) (once : List String) (i : Nat) (opening : Table)
    (c : SessionCache) (w : State Table) : Prop where
  cache : w.cache = c
  table : K.IsTable w.database
  tracked : ∃ u, w.units.get? i = some u ∧ u.parent = none ∧
    K.Tracks once opening w.database (u.entries[·]?)

variable {K : Keyring} {once : List String} {i : Nat} {opening t t' : Table} {c : SessionCache}
  {w w₁ : State Table} {v : Value} {entries : String → Option UnitEntry}

/-- After the record of one key has changed, a new entry for the key keeps the unit right. -/
theorem Tracks.put (h : K.Tracks once opening t entries) (hv : K.Fits K.primary.column.name v)
    (hstay : ∀ ρ : Record, ρ K.primary.column.name ≠ some v → (ρ ∈ t ↔ ρ ∈ t'))
    {entry : UnitEntry} (hentry : K.Tells once t' v entry) {keys : List String}
    (hkeys : ∀ key, key ∈ keys ↔ key = K.key K.primary v) :
    K.Tracks once opening t' fun key => if key ∈ keys then some entry else entries key := by
  have hother : ∀ x, K.Fits K.primary.column.name x → x ≠ v → K.key K.primary x ∉ keys := by
    intro x hx hne hmem
    exact hne (eq_of_key hx hv ((hkeys _).1 hmem))
  have hcell : ∀ {ρ : Record} {x : Value}, x ≠ v → ρ K.primary.column.name = some x →
      ρ K.primary.column.name ≠ some v := by
    intro ρ x hne hx he
    rw [hx, Option.some.injEq] at he
    exact hne he
  constructor
  -- a key of another value has the entry it had, and its records are as they were
  · intro x entry' hx hentry'
    by_cases hxv : x = v
    · rw [hxv, if_pos ((hkeys _).2 rfl), Option.some.injEq] at hentry'
      rw [hxv, ← hentry']
      exact hentry
    · rw [if_neg (hother x hx hxv)] at hentry'
      have htold := h.told x entry' hx hentry'
      cases entry' with
      | row r b =>
        obtain ⟨ρ, hρ, hρx, hmirror⟩ := htold
        exact ⟨ρ, (hstay ρ (hcell hxv hρx)).1 hρ, hρx, hmirror⟩
      | deleted =>
        intro ρ hρ hρx
        exact htold ρ ((hstay ρ (hcell hxv hρx)).2 hρ) hρx
  · intro x hx hnone
    by_cases hxv : x = v
    · rw [hxv, if_pos ((hkeys _).2 rfl)] at hnone
      exact absurd hnone (by simp)
    · rw [if_neg (hother x hx hxv)] at hnone
      intro ρ hρx
      rw [h.untouched x hx hnone ρ hρx]
      exact hstay ρ (hcell hxv hρx)

theorem ignoresCounts_inUnit (K : Keyring) (once : List String) (i : Nat) (opening : Table)
    (c : SessionCache) : State.IgnoresCounts (K.InUnit once i opening c) := by
  intro w w' hmoved h
  obtain ⟨u, hu, hparent, htracks⟩ := h.tracked
  obtain ⟨u', hu', hparent', hentries⟩ := hmoved.exists_unit hu
  refine ⟨hmoved.cache.trans h.cache, ?_, u', hu', hparent'.trans hparent, ?_⟩
  · rw [hmoved.database]
    exact h.table
  · rw [hmoved.database, hentries]
    exact htracks

/-- The state after the record of one key was written, and the unit got an entry for it. -/
theorem InUnit.put (h : K.InUnit once i opening c w) (hw₁ : w.Moved w₁.database w₁)
    (htable : K.IsTable w₁.database) (hv : K.Fits K.primary.column.name v)
    (hstay : ∀ ρ : Record, ρ K.primary.column.name ≠ some v →
      (ρ ∈ w.database ↔ ρ ∈ w₁.database))
    {entry : UnitEntry} (hentry : K.Tells once w₁.database v entry) {keys : List String}
    (hkeys : ∀ key, key ∈ keys ↔ key = K.key K.primary v) :
    K.InUnit once i opening c { w₁ with units := w₁.units.modify i (·.put keys entry) } := by
  obtain ⟨u, hu, hparent, htracks⟩ := h.tracked
  obtain ⟨u', hu', hparent', hentries⟩ := hw₁.exists_unit hu
  refine ⟨hw₁.cache.trans h.cache, htable, u'.put keys entry, Units.get?_modify hu' _,
    hparent'.trans hparent, ?_⟩
  have hlook : ((u'.put keys entry).entries[·]?) =
      fun key => if key ∈ keys then some entry else u.entries[key]? := by
    funext key
    rw [UnitOfWork.entries_put, hentries]
  rw [hlook]
  exact htracks.put hv hstay hentry hkeys

/-- What a unit answers for a key. -/
theorem InUnit.find? (h : K.InUnit once i opening c w) {db : Table} (hw₁ : w.Moved db w₁)
    (hv : K.Fits K.primary.column.name v) :
    w₁.units.find? i [K.key K.primary v] = w.units.find? i [K.key K.primary v] ∧
      (∀ x, w.units.find? i [K.key K.primary v] = some x → K.Tells once w.database v x) ∧
      (w.units.find? i [K.key K.primary v] = none →
        opening.SameAt w.database K.primary.column.name v) := by
  obtain ⟨u, hu, hparent, htracks⟩ := h.tracked
  obtain ⟨u', hu', hparent', hentries⟩ := hw₁.exists_unit hu
  rw [Units.find?_of_parent hu' (hparent'.trans hparent), Units.find?_of_parent hu hparent,
    UnitOfWork.find?_singleton, UnitOfWork.find?_singleton, hentries]
  exact ⟨rfl, fun x hx => htracks.told v x hv hx, htracks.untouched v hv⟩

/-- What an equality on the primary key selects. -/
theorem selects_primary {E : Engine} (hv : K.Fits K.primary.column.name v) {ρ : Record} :
    E.selects [⟨K.primary.column.cql, .eq, [v]⟩] ρ = true ↔
      ρ K.primary.column.name = some v := by
  have hagrees : ∀ x : Value, x.agrees v = true ↔ x = v := fun x =>
    ⟨(K.exact _).exact hv, fun he => by rw [he]; exact (K.exact _).refl hv⟩
  cases hx : ρ K.primary.column.name with
  | none => simp [Engine.selects, Clause.selects, Identifier.read_cql, hx]
  | some x =>
    simp [Engine.selects, Clause.selects, Identifier.read_cql, hx, Operator.compares, hagrees]

/-- A row that a unit has under a key is of the record of the key. -/
theorem InUnit.mirrored (h : K.InUnit once i opening c w) {db : Table} (hw₁ : w.Moved db w₁)
    (hv : K.Fits K.primary.column.name v) {r : Row} {b : Bool}
    (hr : w₁.units.find? i [K.key K.primary v] = some (.row r b)) :
    K.Mirrored once w.database v r := by
  obtain ⟨hfind, htold, -⟩ := h.find? hw₁ hv
  rw [hfind] at hr
  exact htold _ hr

/-- What a unit shows of the row of a key mirrors its record. -/
theorem InUnit.mirrors_shown (h : K.InUnit once i opening c w) {db : Table}
    (hw₁ : w.Moved db w₁) (hv : K.Fits K.primary.column.name v) :
    (w₁.units.lookup i [K.key K.primary v]).shown.Mirrors once
      (w.database.recordAt K.primary.column.name v) :=
  Keyring.mirrors_shown h.table fun _ _ => h.mirrored hw₁ hv

/-! ## Writes -/

/-- Writing the record of a key leaves the others. -/
theorem mem_upsert_iff (ht : K.IsTable t) (hv : K.Fits K.primary.column.name v)
    {f : Record → Record}
    (hf : f (t.recordAt K.primary.column.name v) K.primary.column.name = some v) {ρ : Record}
    (hρ : ρ K.primary.column.name ≠ some v) :
    ρ ∈ t ↔ ρ ∈ t.upsert K.primary.column.name v f := by
  rw [Table.mem_upsert (K.exact _) (ht.keys _ K.primary_mem) hv]
  constructor
  · exact fun h => .inr ⟨h, hρ⟩
  · rintro (rfl | ⟨h, -⟩)
    · exact absurd hf hρ
    · exact h

/-- The row that was written shows the record that was written. -/
theorem tells_upsert (ht : K.IsTable t) (hv : K.Fits K.primary.column.name v)
    {f : Record → Record}
    (hf : f (t.recordAt K.primary.column.name v) K.primary.column.name = some v) {r : Row}
    (hr : r.Mirrors once (f (t.recordAt K.primary.column.name v))) (b : Bool) :
    K.Tells once (t.upsert K.primary.column.name v f) v (.row r b) :=
  ⟨_, (Table.mem_upsert (K.exact _) (ht.keys _ K.primary_mem) hv).2 (.inl rfl), hf, hr⟩

section

variable {E : Engine} {s : Session Table}

/-- An insert in a unit comes to what the table says, and the unit goes on tracking it. -/
theorem insert_in_unit (honly : K.nodes = [K.primary]) (hs : s.executor = E.executor)
    (hkey : E.key = K.primary.column.name) {x : RowInsert} (hx : K.FitsInsert s.prepare x)
    (h : K.InUnit once i opening c w) :
    Call.Follows s (K.InUnit once i opening c) (.insert x) w (x.run s (some i) w) := by
  have hignores := ignoresCounts_inUnit K once i opening c
  refine insert_follows hignores h fun st hst => ?_
  refine canWrite_of_accepted hignores h hs (RowInsert.ne_select hst) fun _ w₁ hw₁ hchange => ?_
  obtain ⟨v, hinserts⟩ := inserts_of_change hkey honly hx hst hchange
  obtain ⟨after, hrun, hmirror⟩ := hinserts.writeThrough honly (h.mirrors_shown hw₁ hinserts.fits)
  have htable := hinserts.isTable honly h.table
  have hwritten := hinserts.written (w.database.recordAt K.primary.column.name v)
  refine ⟨_, hrun, rfl, h.put hw₁ htable hinserts.fits (fun ρ hρ => ?_) ?_ fun key =>
    List.mem_singleton⟩
  · rw [hinserts.after]
    exact mem_upsert_iff h.table hinserts.fits hwritten hρ
  · rw [hinserts.after]
    exact tells_upsert h.table hinserts.fits hwritten hmirror _

/-- How an UPDATE changes a table that names a record by its key: it writes that record. -/
structure Updates (K : Keyring) (prepare : ValuePreparer) (u : RowUpdate) (t t' : Table)
    (v : Value) : Prop where
  entity : u.entity = .ok K.entity
  fits : K.Fits K.primary.column.name v
  after : t' = t.upsert K.primary.column.name v (u.changed prepare)
  values : u.conditions.equalities prepare = [(K.primary, v)]
  keys : ∀ use, u.conditions.keys ⟨use, some K.entity⟩ prepare = [K.key K.primary v]

/-- An update that names the primary key changes the record under it. -/
theorem updates_of_change (honly : K.nodes = [K.primary]) (hkey : E.key = K.primary.column.name)
    {u : RowUpdate} {prepare : ValuePreparer} (hu : K.FitsUpdate once prepare u)
    (hnames : u.conditions.Names K.primary) {st : Statement} (hst : u.statement prepare = .ok st)
    (hchange : E.change st t = .ok t') : ∃ v, K.Updates prepare u t t' v := by
  obtain ⟨e, clauses, conditional, he, -, hclauses, hchanges, rfl⟩ := RowUpdate.of_statement hst
  obtain ⟨heq, v, hvalues, rfl⟩ := Conditions.of_names hnames hclauses
  have hnamed : E.named? [⟨K.primary.column.cql, .eq, [v]⟩] = some [v] := by
    simp [Engine.named?, Identifier.read_cql, hkey]
  simp only [Engine.change, hnamed, Except.ok.injEq] at hchange
  refine ⟨v, ?_, ?_, ?_, hvalues, keys_of_names honly heq hvalues⟩
  · rw [he, RowUpdate.entity_eq_of_changes he hchanges hu.entity]
  · exact fits_of_equalities hu.filters hclauses hvalues
  · rw [← hchange, hkey]
    rfl

/-- It leaves a table, as it does not change the key. -/
theorem Updates.isTable (honly : K.nodes = [K.primary]) {u : RowUpdate} {prepare : ValuePreparer}
    (h : K.Updates prepare u t t' v)
    (hassigned : ∀ p ∈ u.changes, p.1.column.name ≠ K.primary.column.name) (ht : K.IsTable t) :
    K.IsTable t' := by
  rw [h.after]
  refine ht.upsert h.fits fun ρ _ n hn => ?_
  rw [honly, List.mem_singleton] at hn
  rw [hn, RowUpdate.changed_of_forall_ne hassigned prepare ρ]

/-- What an UPDATE in a unit changes mirrors the record, be it the unit's or that of the session
cache, which is only asked for records that were left alone. -/
theorem InUnit.mirrors_before (h : K.InUnit once i opening c w) (hshows : K.Shows once c opening)
    {db : Table} (hw₁ : w.Moved db w₁) (hv : K.Fits K.primary.column.name v)
    (policy : CachePolicy) :
    (RowUpdate.before policy [K.key K.primary v] i w₁.units w₁.cache).Mirrors once
      (w.database.recordAt K.primary.column.name v) := by
  obtain ⟨hfind, -, huntouched⟩ := h.find? hw₁ hv
  refine Keyring.mirrors_before h.table (fun _ _ => h.mirrored hw₁ hv) ?_ policy
  -- the unit has nothing, so the record is still the one that the session cache is about
  intro hnone r hr
  rw [hw₁.cache, h.cache] at hr
  obtain ⟨ρ, hρ, hkey, hmirror⟩ := hshows v r hv hr
  exact ⟨ρ, (huntouched (hfind ▸ hnone) ρ hkey).1 hρ, hkey, hmirror⟩

/-- An update in a unit comes to what the table says, and the unit goes on tracking it. -/
theorem update_in_unit (honly : K.nodes = [K.primary]) (hs : s.executor = E.executor)
    (hkey : E.key = K.primary.column.name) (hshows : K.Shows once c opening) {u : RowUpdate}
    (hu : K.FitsUpdate once s.prepare u) (hnames : u.conditions.Names K.primary)
    (haccepted : ∀ st t, u.statement s.prepare = .ok st → E.verdict st t = .accept →
      ∀ p ∈ u.changes, p.1.column.name ≠ K.primary.column.name)
    (h : K.InUnit once i opening c w) :
    Call.Follows s (K.InUnit once i opening c) (.update u) w (u.run s (some i) w) := by
  have hignores := ignoresCounts_inUnit K once i opening c
  refine update_follows hignores h fun st hst => ?_
  refine canWrite_of_accepted hignores h hs (RowUpdate.ne_select hst)
    fun hverdict w₁ hw₁ hchange => ?_
  have hassigned := haccepted st w.database hst hverdict
  obtain ⟨v, hupdates⟩ := updates_of_change honly hkey hu hnames hst hchange
  have hrecord := Table.recordAt_key (K.exact _) hupdates.fits K.primary.column.name w.database
  have hwritten := (RowUpdate.changed_of_forall_ne hassigned s.prepare
    (w.database.recordAt K.primary.column.name v)).trans hrecord
  have hbefore := h.mirrors_before hshows hw₁ hupdates.fits ⟨.update, some K.entity⟩
  obtain ⟨after, hrun, hfull, honce, hcell⟩ := writeThrough_of_values (w := w₁) honly
    hupdates.entity (hupdates.keys .update)
    (by rw [hupdates.values]; exact List.mem_singleton_self _) hassigned hu.once hrecord rfl hbefore
  have hmirror : after.Mirrors once
      (u.changed s.prepare (w.database.recordAt K.primary.column.name v)) :=
    hbefore.of_told hfull honce hcell (.inl rfl) fun m x hx =>
      Row.eq_changed_of_told (fun n y hy => by
        rw [hupdates.values, List.mem_singleton, Prod.mk.injEq] at hy
        rw [hy.1, hy.2, hwritten]) hx
  have htable := hupdates.isTable honly hassigned h.table
  refine ⟨_, hrun, rfl, h.put hw₁ htable hupdates.fits (fun ρ hρ => ?_) ?_ fun key => ?_⟩
  · rw [hupdates.after]
    exact mem_upsert_iff h.table hupdates.fits hwritten hρ
  · rw [hupdates.after]
    exact tells_upsert h.table hupdates.fits hwritten hmirror _
  · rw [List.mem_cons]
    exact or_iff_left_of_imp (mem_keysOf_of_mirrors honly hmirror hwritten)

/-- A row that is known when a record is deleted, here or in the session cache, is of the
record. -/
theorem InUnit.mirrors_known (h : K.InUnit once i opening c w) (hshows : K.Shows once c opening)
    {db : Table} (hw₁ : w.Moved db w₁) (hv : K.Fits K.primary.column.name v) {r : Row}
    (hr : RowDelete.known? [K.key K.primary v] i w₁.units w₁.cache = some r) :
    ∃ ρ : Record, ρ K.primary.column.name = some v ∧ r.Mirrors once ρ := by
  obtain ⟨b, hfind⟩ | hlook := RowDelete.of_known? hr
  · obtain ⟨ρ, -, hρ, hmirror⟩ := h.mirrored hw₁ hv hfind
    exact ⟨ρ, hρ, hmirror⟩
  · rw [hw₁.cache, h.cache] at hlook
    obtain ⟨ρ, -, hρ, hmirror⟩ := hshows v r hv hlook
    exact ⟨ρ, hρ, hmirror⟩

/-- The keys under which a unit marks a record as deleted: that of the record. -/
theorem InUnit.deletedKeys (honly : K.nodes = [K.primary]) (h : K.InUnit once i opening c w)
    (hshows : K.Shows once c opening) {db : Table} (hw₁ : w.Moved db w₁)
    (hv : K.Fits K.primary.column.name v) (use : CacheUse) :
    ∃ all, RowDelete.deletedKeys ⟨use, some K.entity⟩ [K.key K.primary v] i w₁.units w₁.cache =
      .ok all ∧ ∀ key, key ∈ all ↔ key = K.key K.primary v := by
  rw [RowDelete.deletedKeys_eq]
  cases hknown : RowDelete.known? [K.key K.primary v] i w₁.units w₁.cache with
  | none => exact ⟨_, rfl, fun key => List.mem_singleton⟩
  | some r =>
    obtain ⟨ρ, hρ, hmirror⟩ := h.mirrors_known hshows hw₁ hv hknown
    rw [Option.elim_some, keysOfRow_eq use hmirror.full]
    refine ⟨_, rfl, fun key => ?_⟩
    rw [List.mem_append, List.mem_singleton]
    exact ⟨fun hmem => hmem.elim id (mem_keysOf_of_mirrors honly hmirror hρ), .inl⟩

/-- A delete in a unit comes to what the table says, and the unit goes on tracking it. -/
theorem delete_in_unit (honly : K.nodes = [K.primary]) (hs : s.executor = E.executor)
    (hshows : K.Shows once c opening) {d : RowDelete} (hentity : d.entity = K.entity)
    (hfilters : d.conditions.Fit K.Fits s.prepare) (hnames : d.conditions.Names K.primary)
    (h : K.InUnit once i opening c w) :
    Call.Follows s (K.InUnit once i opening c) (.delete d) w (d.run s (some i) w) := by
  have hignores := ignoresCounts_inUnit K once i opening c
  refine delete_follows hignores h fun st hst => ?_
  have hrows : d.isTruncate = false := by
    obtain ⟨f, hf, -⟩ := hnames
    simp [RowDelete.isTruncate, hf]
  obtain ⟨-, ⟨htruncate, -⟩ | ⟨clauses, conditional, -, hclauses, hstatement⟩⟩ :=
    RowDelete.of_statement hst
  · rw [hrows] at htruncate
    exact absurd htruncate (by simp)
  obtain ⟨heq, v, hvalues, rfl⟩ := Conditions.of_names hnames hclauses
  have hv : K.Fits K.primary.column.name v := fits_of_equalities hfilters hclauses hvalues
  refine canWrite_of_accepted hignores h hs (by rw [hstatement]; simp) fun _ w₁ hw₁ hchange => ?_
  rw [hstatement] at hchange
  have hafter : w₁.database =
      w.database.filter fun ρ => !E.selects [⟨K.primary.column.cql, .eq, [v]⟩] ρ :=
    (Except.ok.inj hchange).symm
  have hmem : ∀ ρ, ρ ∈ w₁.database ↔ ρ ∈ w.database ∧ ρ K.primary.column.name ≠ some v := by
    intro ρ
    rw [hafter, List.mem_filter, ne_eq, ← selects_primary (E := E) hv]
    simp
  have htable : K.IsTable w₁.database := by
    rw [hafter]
    exact h.table.filter _
  obtain ⟨all, hall, hkeys⟩ := h.deletedKeys honly hshows hw₁ hv .delete
  refine ⟨{ w₁ with units := w₁.units.modify i (·.put all .deleted) }, ?_, rfl, ?_⟩
  · have hbound := keys_of_names honly heq hvalues .delete
    rw [RowDelete.writeThrough_of_keys hrows (by rw [hentity, hbound]; simp), hentity, hbound, hall]
    rfl
  · have hgone : K.Tells once w₁.database v .deleted := fun ρ hρ => ((hmem ρ).1 hρ).2
    refine h.put hw₁ htable hv (fun ρ hρ => ?_) hgone hkeys
    rw [hmem]
    exact ⟨fun hin => ⟨hin, hρ⟩, And.left⟩

end

end Keyring

/-! ## Lookups -/

namespace Keyring

variable {K : Keyring} {once : List String} {i : Nat} {opening : Table} {c : SessionCache}
  {w w₁ : State Table} {v : Value} {E : Engine} {s : Session Table}

/-- A row of a record that was read goes into the unit. -/
theorem InUnit.populate (honly : K.nodes = [K.primary]) (h : K.InUnit once i opening c w)
    {p : PointQuery.Plan} (hpolicy : p.policy = ⟨.fetch, some K.entity⟩)
    (hv : K.Fits K.primary.column.name v) {r : Row} {ρ : Record} (hρ : ρ ∈ w.database)
    (hr : r.Mirrors once ρ) (hpairs : ∀ q ∈ r.pairs, q.2 = ρ q.1) (hb : r.Binds K.primary v) :
    ∃ units, p.populateUnit r i w.units = .ok units ∧
      K.InUnit once i opening c { w with units } := by
  have hkey := eq_of_binds hr hb
  -- whatever the unit knew of the row, the merged row mirrors the record
  obtain ⟨merged, hmerged, hmirror⟩ :=
    exists_merged h.table (fun _ _ => h.mirrored (.refl w) hv) hρ hkey hr hpairs
  have htells : ∀ b, K.Tells once w.database v (.row merged b) := fun _ => ⟨ρ, hρ, hkey, hmirror⟩
  exact ⟨_, populateUnit_of_binds honly hpolicy hr.full hb hmerged, h.put (.refl w) h.table hv
    (fun _ _ => Iff.rfl) (htells _) fun key => List.mem_singleton⟩

/-- Asking the session cache for the row of a key. -/
theorem fromSession_spec (hshows : K.Shows once c opening)
    (hv : K.Fits K.primary.column.name v) {p : PointQuery.Plan}
    (hkeys : p.keys = [K.key K.primary v]) :
    ∃ found, p.fromSession? c = .ok found ∧ ∀ r, found = some r → p.accepts r = .ok true ∧
      ∃ ρ ∈ opening, ρ K.primary.column.name = some v ∧ r.Mirrors once ρ := by
  unfold PointQuery.Plan.fromSession?
  rw [hkeys, SessionCache.get?_singleton]
  cases hlook : c.rows[K.key K.primary v]? with
  | none => exact ⟨none, rfl, by simp⟩
  | some r =>
    obtain ⟨ρ, hρ, hkey, hmirror⟩ := hshows v r hv hlook
    obtain ⟨b, hb, -⟩ := p.accepts_spec hmirror.full
    cases b with
    | false => exact ⟨none, by simp only [hb]; rfl, by simp⟩
    | true =>
      refine ⟨some r, by simp only [hb]; rfl, fun r' hr' => ?_⟩
      rw [Option.some.injEq] at hr'
      rw [← hr']
      exact ⟨hb, ρ, hρ, hkey, hmirror⟩

section

variable {α : Type} {q : Query α} {st : Statement}

/-- What a lookup by primary key comes to in a unit: its keys, and what the table answers. -/
structure Asks (K : Keyring) (E : Engine) (prepare : ValuePreparer) {α : Type} (q : Query α)
    (st : Statement) (v : Value) : Prop where
  built : q.single.statement prepare = .ok st
  fits : K.Fits K.primary.column.name v
  only : q.conditions.onlyEqualities = true
  values : q.conditions.equalities prepare = [(K.primary, v)]
  policy : (q.single.plan prepare).policy = ⟨.fetch, some K.entity⟩
  keys : (q.single.plan prepare).keys = [K.key K.primary v]
  unchanged : ∀ t, (E.execute st t).2 = t
  answer : ∀ t, ∃ answer, (E.execute st t).1 = .ok answer ∧ answer.first? =
    (t.find? fun ρ => E.selects [⟨K.primary.column.cql, .eq, [v]⟩] ρ).map
      (·.row (q.projection.map (·.column.name)))

/-- A lookup that names the primary key asks for one record. -/
theorem asks_of_statement (honly : K.nodes = [K.primary]) (E : Engine)
    (hq : K.FitsLookup once s.prepare q) (hnames : q.conditions.Names K.primary)
    (hst : q.single.statement s.prepare = .ok st) : ∃ v, K.Asks E s.prepare q st v := by
  obtain ⟨clauses, hclauses, -⟩ := reply_of_lookup (E := E) (t := []) hst
  obtain ⟨heq, v, hvalues, rfl⟩ := Conditions.of_names hnames hclauses
  have hpolicy := plan_policy hq.entity hst
  have hreply : ∀ t, (E.execute st t).2 = t ∧ ∃ answer, (E.execute st t).1 = .ok answer ∧
      answer.first? = (t.find? fun ρ => E.selects [⟨K.primary.column.cql, .eq, [v]⟩] ρ).map
        (·.row (q.projection.map (·.column.name))) := by
    intro t
    obtain ⟨clauses', hclauses', hsame, hanswer⟩ := reply_of_lookup (E := E) (t := t) hst
    rw [hclauses, Except.ok.injEq] at hclauses'
    rw [hclauses']
    exact ⟨hsame, hanswer⟩
  refine ⟨v, hst, ?_, heq, hvalues, hpolicy, ?_, fun t => (hreply t).1, fun t => (hreply t).2⟩
  · exact fits_of_equalities hq.filters hclauses hvalues
  · show q.conditions.keys (q.single.plan s.prepare).policy s.prepare = _
    rw [hpolicy]
    exact keys_of_names honly heq hvalues .fetch

/-- A row that is accepted answers as the table does that its record is from. -/
theorem Asks.reply_of_accepted {t : Table} (h : K.Asks E s.prepare q st v)
    (hreads : q.ReadsProjection) (ht : K.IsTable t) {r : Row} {ρ : Record} (hρ : ρ ∈ t)
    (hr : r.Mirrors once ρ) (haccepts : (q.single.plan s.prepare).accepts r = .ok true) :
    (E.execute st t).1.bind q.itemOf = (q.mapper r).map some :=
  WideRow.reply_of_accepted h.built hreads hr hρ haccepts h.only
    (by rw [h.values]; exact List.mem_singleton_self _) (K.exact _) h.fits
    (ht.keys _ K.primary_mem)

/-- A row that is accepted binds the key. -/
theorem Asks.binds_of_accepted (h : K.Asks E s.prepare q st v) {r : Row} (hr : r.IsFull)
    (haccepts : (q.single.plan s.prepare).accepts r = .ok true) : r.Binds K.primary v := by
  obtain ⟨b, hb, hspec⟩ := (q.single.plan s.prepare).accepts_spec hr
  rw [haccepts, Except.ok.injEq] at hb
  have hin : (K.primary, v) ∈ (q.single.plan s.prepare).equalities := by
    show (K.primary, v) ∈ q.conditions.equalities s.prepare
    rw [h.values]
    exact List.mem_singleton_self _
  obtain ⟨x, hx, hagrees⟩ := (hspec.1 hb.symm).2 _ _ hin
  rw [Row.Binds, hx, (K.exact _).exact h.fits hagrees]

/-- What the table answers goes into the unit. -/
theorem Asks.populate (honly : K.nodes = [K.primary]) (h : K.Asks E s.prepare q st v)
    (hq : K.FitsLookup once s.prepare q) (hw : K.InUnit once i opening c w)
    {answer : ResultSet} {r : Row} (hanswer : (E.execute st w.database).1 = .ok answer)
    (hfirst : answer.first? = some r) :
    ∃ w', (q.single.plan s.prepare).populate r (some i) w = (.ok (), w') ∧
      w'.database = w.database ∧ K.InUnit once i opening c w' := by
  obtain ⟨ρ, hρ, hvalues, hmirror, hpairs, hcolumns⟩ := of_answer hq h.built hanswer hfirst
  have hasked : (K.primary, v) ∈ q.conditions.equalities s.prepare := by
    rw [h.values]
    exact List.mem_singleton_self _
  have hb : ((q.single.plan s.prepare).completed r).Binds K.primary v := by
    have hne := (hcolumns K.primary.column.name).2 (.inr ⟨K.primary, v, hasked, rfl⟩)
    rw [Row.Binds, hmirror.cell_eq hne, hvalues _ _ hasked]
  obtain ⟨units, hunits, hin⟩ := hw.populate honly h.policy h.fits hρ hmirror hpairs hb
  refine ⟨{ w with units }, ?_, rfl, hin⟩
  simp only [PointQuery.Plan.populate, hunits]

/-- The database can be asked for what the unit does not have. -/
theorem Asks.miss (honly : K.nodes = [K.primary]) (hs : s.executor = E.executor)
    (h : K.Asks E s.prepare q st v) (hq : K.FitsLookup once s.prepare q)
    (hw : K.InUnit once i opening c w) {t : Table} (hdb : w.database = t) (populate : Bool) :
    s.CanAnswer (some i) (K.InUnit once i opening c) q st t w (.miss populate) := by
  have hreply := reply_of_unchanged hs q.options (h.unchanged t)
  intro w₃ hw₃
  rw [hreply, ← hdb] at hw₃
  have hw₃' := ignoresCounts_inUnit K once i opening c w w₃ hw₃ hw
  refine ⟨hw₃', fun _ answer r hanswer hfirst => ?_⟩
  rw [hreply, ← hdb] at hanswer
  rw [← show w₃.database = w.database from hw₃.database] at hanswer
  exact h.populate honly hq hw₃' hanswer hfirst

/-- A row that mirrors a record of the table can be the answer. -/
theorem Asks.hit (hs : s.executor = E.executor) (h : K.Asks E s.prepare q st v)
    (hreads : q.ReadsProjection) {t : Table} (ht : K.IsTable t) {r : Row} {ρ : Record}
    (hρ : ρ ∈ t) (hr : r.Mirrors once ρ) (haccepts : (q.single.plan s.prepare).accepts r = .ok true)
    (hw : K.InUnit once i opening c w) :
    s.CanAnswer (some i) (K.InUnit once i opening c) q st t w (.hit r) := by
  show _ ∧ _ ∧ _
  rw [reply_of_engine hs]
  exact ⟨h.reply_of_accepted hreads ht hρ hr haccepts, h.unchanged t, hw⟩

/-- A record that the table does not have can be answered to be deleted. -/
theorem Asks.deleted (hs : s.executor = E.executor) (h : K.Asks E s.prepare q st v) {t : Table}
    (ht : K.Tells once t v .deleted) (hw : K.InUnit once i opening c w) :
    s.CanAnswer (some i) (K.InUnit once i opening c) q st t w .deleted := by
  show _ ∧ _ ∧ _
  rw [reply_of_engine hs]
  refine ⟨?_, h.unchanged t, hw⟩
  obtain ⟨answer, hanswer, hfirst⟩ := h.answer t
  have hnone : (t.find? fun ρ => E.selects [⟨K.primary.column.cql, .eq, [v]⟩] ρ) = none := by
    refine List.find?_eq_none.2 fun ρ hρ hselected => ?_
    exact ht ρ hρ ((selects_primary h.fits).1 hselected)
  rw [hnone, Option.map_none] at hfirst
  rw [hanswer]
  show q.itemOf answer = _
  rw [Query.itemOf, hfirst]

/-- Where a unit leaves a lookup open, the session cache may answer if its row is of the record
as it is now. -/
theorem Asks.session (honly : K.nodes = [K.primary]) (hs : s.executor = E.executor)
    (h : K.Asks E s.prepare q st v) (hq : K.FitsLookup once s.prepare q)
    (hshows : K.Shows once c opening) (hw : K.InUnit once i opening c w)
    (hfresh : (q.single.plan s.prepare).policy.admits c = true →
      (∃ r, (q.single.plan s.prepare).fromSession? c = .ok (some r)) →
        opening.SameAt w.database K.primary.column.name v)
    {outcome : Outcome Table PointQuery.Resolution}
    (hbeyond : (q.single.plan s.prepare).Beyond i w outcome) :
    ∃ found w₂, outcome = (.ok found, w₂) ∧ w₂.database = w.database ∧
      s.CanAnswer (some i) (K.InUnit once i opening c) q st w.database w₂ found := by
  have hcache := hw.cache
  obtain ⟨found, hfound, hspec⟩ := fromSession_spec hshows h.fits h.keys
  cases hbeyond with
  | passed _ => exact ⟨.miss true, w, rfl, rfl, h.miss honly hs hq hw rfl true⟩
  | broken _ hr =>
    rw [hcache] at hr
    cases hfound.symm.trans hr
  | missed _ _ =>
    have hmoved := (w.moved_miss .session).trans (State.moved_record _ i (-1) 0)
    have hw₂ := ignoresCounts_inUnit K once i opening c w _ hmoved hw
    exact ⟨.miss true, _, rfl, rfl, h.miss honly hs hq hw₂ rfl true⟩
  | unkeyed hadmits hr hkeys =>
    rw [hcache] at hr
    cases hfound.symm.trans hr
    obtain ⟨-, ρ, -, -, hmirror⟩ := hspec _ rfl
    rw [h.policy, keysOfRow_eq (K := K) .fetch hmirror.full] at hkeys
    cases hkeys
  | taken hadmits hr hkeys =>
    rw [hcache] at hr hadmits
    cases hfound.symm.trans hr
    obtain ⟨haccepts, ρ, hρ, hkey, hmirror⟩ := hspec _ rfl
    rw [h.policy, keysOfRow_eq (K := K) .fetch hmirror.full,
      keysOf_of_binds honly (h.binds_of_accepted hmirror.full haccepts), Except.ok.injEq] at hkeys
    have hmem := (hfresh hadmits ⟨_, hfound⟩ ρ hkey).1 hρ
    have htells : ∀ b, K.Tells once w.database v (.row _ b) := fun _ => ⟨ρ, hmem, hkey, hmirror⟩
    have hmoved := (w.moved_hit .session).trans (State.moved_record _ i 1 0)
    have hhit := ignoresCounts_inUnit K once i opening c w _ hmoved hw
    have hw₂ := hhit.put (.refl _) hhit.table h.fits (fun _ _ => Iff.rfl) (htells false)
      (fun key => List.mem_singleton)
    rw [← hkeys]
    exact ⟨.hit _, _, rfl, rfl, h.hit hs hq.reads hw.table hmem hmirror haccepts hw₂⟩

/-- A lookup in a unit comes to what the table says, and the unit goes on tracking it, unless its
row is one of the session cache and the unit has written the record. -/
theorem lookup_in_unit (honly : K.nodes = [K.primary]) (hs : s.executor = E.executor)
    (hshows : K.Shows once c opening) (hq : K.FitsLookup once s.prepare q)
    (hnames : q.conditions.Names K.primary)
    (hfresh : (q.single.plan s.prepare).TakesFromSession i w →
      ∀ x, (K.primary, x) ∈ q.conditions.equalities s.prepare →
        opening.SameAt w.database K.primary.column.name x)
    (h : K.InUnit once i opening c w) :
    Call.Follows s (K.InUnit once i opening c) (.lookup q) w (q.single.run s (some i) w) := by
  have hignores := ignoresCounts_inUnit K once i opening c
  refine lookup_follows hignores h fun st hst w₁ hw₁ => ?_
  obtain ⟨v, hasks⟩ := asks_of_statement honly E hq hnames hst
  have hin : (K.primary, v) ∈ q.conditions.equalities s.prepare := by
    rw [hasks.values]
    exact List.mem_singleton_self _
  have hw₁' := hignores w w₁ hw₁ h
  obtain ⟨hfind, htold, -⟩ := h.find? hw₁ hasks.fits
  -- counting a hit leaves the unit as it was
  have hhit := (w₁.moved_hit .unitOfWork).trans (State.moved_record _ i 1 0)
  have hinside := (q.single.plan s.prepare).inside_withinUnit i w₁
  rw [PointQuery.Plan.resolve]
  generalize (q.single.plan s.prepare).withinUnit i w₁ = outcome at hinside ⊢
  cases hinside with
  | passed _ =>
    exact ⟨.miss false, w₁, rfl, hw₁.database, hasks.miss honly hs hq hw₁' hw₁.database false⟩
  | keyless _ hnil =>
    rw [hasks.keys] at hnil
    exact absurd hnil (by simp)
  | deleted _ _ hlookup =>
    rw [hasks.keys, Units.lookup_eq_deleted, hfind] at hlookup
    exact ⟨.deleted, _, rfl, hw₁.database,
      hasks.deleted hs (htold _ hlookup) (hignores _ _ hhit hw₁')⟩
  | broken _ _ hlookup haccepts =>
    -- a row that mirrors its record breaks nothing off
    rw [hasks.keys, Units.lookup_eq_found, hfind] at hlookup
    obtain ⟨b, hlookup⟩ := hlookup
    obtain ⟨ρ, -, -, hmirror⟩ := htold _ hlookup
    obtain ⟨accepted, hb, -⟩ := (q.single.plan s.prepare).accepts_spec hmirror.full
    cases hb.symm.trans haccepts
  | hit _ _ hlookup haccepts =>
    rw [hasks.keys, Units.lookup_eq_found, hfind] at hlookup
    obtain ⟨b, hlookup⟩ := hlookup
    obtain ⟨ρ, hρ, -, hmirror⟩ := htold _ hlookup
    exact ⟨.hit _, _, rfl, hw₁.database,
      hasks.hit hs hq.reads h.table hρ hmirror haccepts (hignores _ _ hhit hw₁')⟩
  | beyond huses _ hopen hbeyond =>
    have hmiss := w₁.moved_miss .unitOfWork
    have hsame := hmiss.database.trans hw₁.database
    rw [← hsame]
    refine hasks.session honly hs hq hshows (hignores _ _ hmiss hw₁') (fun hadmits hrow => ?_)
      hbeyond
    rw [hsame]
    rw [hw₁.lookup_eq] at hopen
    exact hfresh ⟨huses, by rw [h.cache]; exact hadmits, hopen, by rw [h.cache]; exact hrow⟩ v hin

/-- A lookup in a unit whose row is one of the session cache returns what the table held when the
unit was opened. -/
theorem result_of_takesFromSession (honly : K.nodes = [K.primary]) (hs : s.executor = E.executor)
    (hopening : K.IsTable opening) (hshows : K.Shows once c opening)
    (hq : K.FitsLookup once s.prepare q) (hnames : q.conditions.Names K.primary)
    (htakes : (q.single.plan s.prepare).TakesFromSession i w)
    (h : K.InUnit once i opening c w) :
    (q.single.run s (some i) w).1 = ((Call.lookup q).direct s opening).1 := by
  cases hst : q.single.statement s.prepare with
  | error e =>
    rw [single_run_of_error hst]
    exact (congrArg Prod.fst (direct_of_error (c := .lookup q) hst opening)).symm
  | ok st =>
    obtain ⟨v, hasks⟩ := asks_of_statement honly E hq hnames hst
    obtain ⟨r, w₁, hrow, -, hwithin⟩ := PointQuery.Plan.withinUnit_of_takesFromSession
      (w := { w with events := w.events ++ q.single.query.warnings st }) htakes
    obtain ⟨found, hfound, hspec⟩ := fromSession_spec hshows hasks.fits hasks.keys
    rw [← h.cache, hrow, Except.ok.injEq] at hfound
    obtain ⟨haccepts, ρ, hρ, -, hmirror⟩ := hspec r hfound.symm
    have hitem := hasks.reply_of_accepted hq.reads hopening hρ hmirror haccepts
    rw [hasks.policy, keysOfRow_eq .fetch hmirror.full] at hwithin
    rw [direct_of_ok (c := .lookup q) hst, reply_of_engine hs]
    have hhit : (q.single.plan s.prepare).resolve (some i)
        { w with events := w.events ++ q.single.query.warnings st } =
          (.ok (.hit r), w₁.modifyUnit i (·.put (K.keysOf r) (.row r false))) := hwithin
    exact (single_run_of_hit hst hhit).1.trans hitem.symm

end

end Keyring

end WideRow
