import WideRow.Proofs.Aftermath
import WideRow.Proofs.HeldRows
import WideRow.Proofs.Merging
import WideRow.Proofs.Tombstones
import WideRow.Proofs.UniqueFacets

/-!
# Rows under their own keys

A cached row should stand under the keys that it binds itself, and under no others: whoever finds a
row by a key may take it that the row has the values of the key. This module follows the rows of the
session cache and of all units through everything that a program can do with a session
(`SessionStep`).

> `filed_under_own_keys`: a row stands under a key that it binds for the entity of the step that put
> it there, in every state that is reached before an UPDATE in a unit misfiles its row; and one that
> does so leaves a row under a key that it does not bind.

An UPDATE in a unit misfiles its row (`RowUpdate.Misfiles`) if the row that it makes lacks a value
that its own filters asked for, because it has changed the column itself. In the unit the row goes
under the keys of the filters as well as under its own; outside of units it goes under its own only.
-/

namespace WideRow

/-- A row binds a key for an entity. -/
def Entity.Files (e : Entity) (r : Row) (key : String) : Prop :=
  ∃ facets, e.facetsOfRow r = .ok facets ∧ key ∈ Facet.keys facets

/-- A row stands under a key, in the session cache or in a unit. -/
def State.Has {σ : Type} (w : State σ) (key : String) (r : Row) : Prop :=
  w.cache.rows[key]? = some r ∨
    ∃ i u b, w.units.get? i = some u ∧ u.entries[key]? = some (.row r b)

/-- All rows in the caches have as many cells as columns. -/
def State.HasFullRows {σ : Type} (w : State σ) : Prop := ∀ key r, w.Has key r → r.IsFull

/-- A row stands in the later state under a key where it did not stand before, only if `N` is so. -/
def State.Gains {σ : Type} (N : String → Row → Prop) (w w' : State σ) : Prop :=
  ∀ key r, w'.Has key r → w.Has key r ∨ N key r

/-- A full row that binds a key for the entity, if there is one. -/
def FiledBy (e? : Option Entity) (key : String) (r : Row) : Prop :=
  r.IsFull ∧ ∃ e, e? = some e ∧ e.Files r key

/-- The entity whose rows a call may put into the caches. -/
def Call.stores? : Call → Option Entity
  | lookup q => q.entity.toOption
  | insert x => x.entity.toOption
  | update u => u.entity.toOption
  | read _ | count _ | delete _ => none

/-- The executor answers with rows of as many cells as columns, and no column twice. -/
def Session.AnswersWellFormed {σ : Type} (s : Session σ) : Prop :=
  ∀ st o db answer, (s.executor.execute st o db).1 = .ok answer → ∀ r ∈ answer.rows, r.IsWellFormed

/-- The keys that a policy gives a row are keys under which its entity files the row. -/
theorem CachePolicy.files_of_keysOfRow {p : CachePolicy} {r : Row} {keys : List String}
    (h : p.keysOfRow r = .ok keys) {key : String} (hkey : key ∈ keys) :
    ∃ e, p.entity = some e ∧ e.Files r key := by
  obtain ⟨facets, hfacets, rfl⟩ := map_eq_ok.1 h
  unfold facetsOfRow at hfacets
  cases he : p.entity with
  | none =>
    rw [he] at hfacets
    rw [← Except.ok.inj hfacets] at hkey
    exact absurd hkey (by simp [Facet.keys, Facet.schemaName?])
  | some e =>
    rw [he] at hfacets
    exact ⟨e, rfl, facets, hfacets, hkey⟩

/-- A full row is filed under the texts of its facets, with its own values in them. -/
theorem Entity.files_iff {e : Entity} {r : Row} (h : r.IsFull) {key : String} :
    e.Files r key ↔ key ∈ e.shapeKeys r.valueAt := by
  unfold Files
  rw [facetsOfRow_of_full h]
  constructor
  · rintro ⟨facets, hfacets, hkey⟩
    rwa [← Except.ok.inj hfacets, keys_shapeFacets] at hkey
  · exact fun hkey => ⟨_, rfl, by rwa [keys_shapeFacets]⟩

/-! ## What a state has -/

section

variable {σ : Type} {w w₁ w₂ : State σ} {db : σ} {N : String → Row → Prop} {i : Nat}
  {key : String} {r : Row}

/-- A state has a row under a key in the session cache, or in the entries of a unit. -/
theorem State.has_iff :
    w.Has key r ↔ w.cache.rows[key]? = some r ∨ ∃ b, w.units.Holds key r b := by
  refine or_congr_right ⟨?_, ?_⟩
  · rintro ⟨i, u, b, hu, hentry⟩
    exact ⟨b, i, u, hu, hentry⟩
  · rintro ⟨b, i, u, hu, hentry⟩
    exact ⟨i, u, b, hu, hentry⟩

/-- To send a statement and to count it moves no rows. -/
theorem State.Moved.has_iff (h : w.Moved db w₁) : w₁.Has key r ↔ w.Has key r := by
  rw [State.has_iff, State.has_iff, h.cache]
  exact or_congr_right (exists_congr fun _ => h.holds_iff)

theorem State.gains_refl (w : State σ) : w.Gains N w := fun _ _ h => .inl h

theorem State.Moved.gains (h : w.Moved db w₁) : w.Gains N w₁ := fun _ _ hr => .inl (h.has_iff.1 hr)

/-- What is gained after a statement was sent is gained from where it was sent. -/
theorem State.Gains.after_moved (h : w₁.Gains N w₂) (hmoved : w.Moved db w₁) : w.Gains N w₂ :=
  fun key r hr => (h key r hr).imp_left hmoved.has_iff.1

/-- Counts do not show in what is gained. -/
theorem ignoresCounts_gains (w : State σ) : State.IgnoresCounts (w.Gains N) :=
  fun _ _ hmoved h key r hr => h key r (hmoved.has_iff.1 hr)

theorem State.HasFullRows.moved (h : w.HasFullRows) (hmoved : w.Moved db w₁) : w₁.HasFullRows :=
  fun key r hr => h key r (hmoved.has_iff.1 hr)

/-- Units are exchanged for others. -/
theorem State.gains_units {units : Units}
    (h : ∀ key r b, units.Holds key r b → w.units.Holds key r b ∨ N key r) :
    w.Gains N { w with units } := by
  intro key r hr
  obtain hr | ⟨b, hr⟩ := State.has_iff.1 hr
  · exact .inl (.inl hr)
  · exact (h key r b hr).imp_left fun hr => State.has_iff.2 (.inr ⟨b, hr⟩)

/-- A row that is put into a unit stands there under the given keys. -/
theorem State.gains_put {keys : List String} {after : Row} {b : Bool}
    (h : ∀ key ∈ keys, N key after) :
    w.Gains N { w with units := w.units.modify i (·.put keys (.row after b)) } := by
  refine State.gains_units fun key r b' hr => ?_
  obtain hr | ⟨hkey, rfl, -⟩ := hr.of_put
  · exact .inl hr
  · exact .inr (h key hkey)

/-- A tombstone is no row. -/
theorem State.gains_put_deleted {keys : List String} :
    w.Gains N { w with units := w.units.modify i (·.put keys .deleted) } :=
  State.gains_units fun _ _ _ hr => .inl hr.of_put_deleted

/-- To forget a table brings nothing. -/
theorem State.gains_evictSchema (schema : String) :
    w.Gains N (w.modifyUnit i (·.evictSchema schema)) :=
  State.gains_units fun _ _ _ hr => .inl hr.of_evictSchema

/-- The session cache is exchanged for another one. -/
theorem State.gains_cache {c : SessionCache}
    (h : ∀ key r, c.rows[key]? = some r → w.Has key r ∨ N key r) :
    w.Gains N { w with cache := c } := by
  rintro key r (hr | hr)
  · exact h key r hr
  · exact .inl (.inr hr)

/-- A row that is put into the session cache stands there under the given keys. -/
theorem State.gains_cache_put {c : SessionCache} {keys : List String} {after : Row}
    (hc : ∀ (key : String) (r : Row), c.rows[key]? = some r → w.cache.rows[key]? = some r)
    (h : ∀ key ∈ keys, N key after) : w.Gains N { w with cache := c.put keys after } := by
  refine State.gains_cache fun key r hr => ?_
  rw [SessionCache.rows_put] at hr
  split at hr
  next hkey =>
    rw [← Option.some.inj hr]
    exact .inr (h key hkey)
  next => exact .inl (.inl (hc key r hr))

/-- What is left after keys were dropped was there before. -/
theorem SessionCache.of_invalidate {c : SessionCache} {keys : List String}
    (h : (c.invalidate keys).rows[key]? = some r) : c.rows[key]? = some r := by
  rw [rows_invalidate] at h
  split at h
  next => exact absurd h (by simp)
  next => exact h

/-- What is left after a table was dropped was there before. -/
theorem SessionCache.of_invalidateSchema {c : SessionCache} {schema : String}
    (h : (c.invalidateSchema schema).rows[key]? = some r) : c.rows[key]? = some r := by
  rw [rows_invalidateSchema_eq] at h
  split at h
  next => exact absurd h (by simp)
  next => exact h

/-- To forget a table in a unit and in the session cache brings nothing either. -/
theorem State.gains_forget (schema : String) :
    w.Gains N { w.modifyUnit i (·.evictSchema schema) with
      cache := w.cache.invalidateSchema schema } := by
  rintro key r (hr | hr)
  · exact .inl (.inl (SessionCache.of_invalidateSchema hr))
  · exact State.gains_evictSchema (N := N) (i := i) schema key r (.inr hr)

/-- What is left after an eviction was there before. -/
theorem CachePolicy.of_evict {p : CachePolicy} {c c' : SessionCache} {keys : List String}
    (h : p.evict c keys = .ok c') (hr : c'.rows[key]? = some r) : c.rows[key]? = some r := by
  unfold evict at h
  split at h
  next =>
    cases hschema : p.schema? with
    | none =>
      rw [hschema] at h
      rwa [← Except.ok.inj h] at hr
    | some schema =>
      rw [hschema] at h
      rw [← Except.ok.inj h] at hr
      exact SessionCache.of_invalidateSchema hr
  next =>
    cases hget : c.get? keys with
    | none =>
      rw [hget] at h
      rw [← Except.ok.inj h] at hr
      exact SessionCache.of_invalidate hr
    | some known =>
      rw [hget] at h
      obtain ⟨bound, -, h⟩ := bind_eq_ok.1 h
      rw [← Except.ok.inj h] at hr
      exact SessionCache.of_invalidate hr

/-- What a policy puts into the session cache goes under the row's own keys. -/
theorem CachePolicy.of_update {p : CachePolicy} {c c' : SessionCache} {after : Row} {b : Bool}
    (h : p.update c after = .ok (b, c')) (hr : c'.rows[key]? = some r) :
    c.rows[key]? = some r ∨ r = after ∧ ∃ e, p.entity = some e ∧ e.Files r key := by
  obtain ⟨facets, hfacets, h⟩ := bind_eq_ok.1 h
  have hkeys : p.keysOfRow after = .ok (Facet.keys facets) := keysOfRow_of_facets hfacets
  split at h
  next =>
    rw [← (Prod.mk.inj (Except.ok.inj h)).2] at hr
    exact .inl hr
  next =>
    rw [← (Prod.mk.inj (Except.ok.inj h)).2, SessionCache.rows_put] at hr
    split at hr
    next hkey =>
      rw [← Option.some.inj hr]
      exact .inr ⟨rfl, files_of_keysOfRow hkeys hkey⟩
    next => exact .inl hr

/-! ## Rows that the caches answer with -/

theorem Units.exists_of_mem_chain {us : Units} {u : UnitOfWork} (h : u ∈ us.chain i) :
    ∃ j, us.get? j = some u := by
  induction i using Nat.strongRecOn with
  | ind i ih =>
    rw [chain] at h
    cases hi : us.get? i with
    | none => simp [hi] at h
    | some v =>
      simp only [hi] at h
      cases hparent : v.parent with
      | none =>
        simp only [hparent, List.mem_singleton] at h
        exact ⟨i, by rw [hi, h]⟩
      | some p =>
        simp only [hparent] at h
        split at h
        next hp =>
          obtain rfl | h := List.mem_cons.1 h
          · exact ⟨i, hi⟩
          · exact ih p hp h
        next => exact ⟨i, by rw [hi, List.mem_singleton.1 h]⟩

/-- A row that a unit finds is one that the state has under one of the keys. -/
theorem State.has_of_lookup {keys : List String} (h : w.units.lookup i keys = .found r) :
    ∃ key ∈ keys, w.Has key r := by
  obtain ⟨b, hfind⟩ := Units.lookup_eq_found.1 h
  obtain ⟨u, hu, hentry⟩ := List.exists_of_findSome?_eq_some hfind
  obtain ⟨key, hkey, hentry⟩ := List.exists_of_findSome?_eq_some hentry
  obtain ⟨j, hj⟩ := Units.exists_of_mem_chain hu
  exact ⟨key, hkey, .inr ⟨j, u, b, hj, hentry⟩⟩

/-- A row that the session cache answers with is full. -/
theorem State.HasFullRows.get? (h : w.HasFullRows) {keys : List String}
    (hr : w.cache.get? keys = some r) : r.IsFull := by
  obtain ⟨key, -, hkey⟩ := SessionCache.exists_of_get? hr
  exact h key r (.inl hkey)

theorem State.HasFullRows.getD (h : w.HasFullRows) (keys : List String) :
    ((w.cache.get? keys).getD .empty).IsFull := by
  cases hget : w.cache.get? keys with
  | none => exact Row.isFull_empty
  | some r => exact h.get? hget

/-- A row that a unit finds is full. -/
theorem State.HasFullRows.lookup (h : w.HasFullRows) {keys : List String}
    (hr : w.units.lookup i keys = .found r) : r.IsFull := by
  obtain ⟨key, -, hkey⟩ := State.has_of_lookup hr
  exact h key r hkey

theorem State.HasFullRows.shown (h : w.HasFullRows) (i : Nat) (keys : List String) :
    (w.units.lookup i keys).shown.IsFull := by
  cases hlookup : w.units.lookup i keys with
  | found r => exact h.lookup hlookup
  | deleted | missing => exact Row.isFull_empty

/-- What an update takes for the old row is full, wherever it comes from. -/
theorem State.HasFullRows.before (h : w.HasFullRows) (p : CachePolicy) (keys : List String)
    (i : Nat) : (RowUpdate.before p keys i w.units w.cache).IsFull := by
  unfold RowUpdate.before
  cases hlookup : w.units.lookup i keys with
  | found r => exact h.lookup hlookup
  | deleted => exact Row.isFull_empty
  | missing =>
    show (if _ then _ else _ : Row).IsFull
    split
    next => exact h.getD keys
    next => exact Row.isFull_empty

/-! ## What the operations bring -/

section

variable {s : Session σ} {unit : Option Nat}

/-- A write brings what the caches get when they follow it. -/
theorem State.gains_leaves {o : StatementOptions} {st : Statement}
    {through : State σ → Outcome σ Unit} (hfull : w.HasFullRows)
    (h : (s.reply o st w.database).1.bind ResultSet.wasApplied = .ok true →
      ∀ w₁, w.Moved (s.reply o st w.database).2 w₁ → w₁.HasFullRows →
        w₁.Gains N (through w₁).2) : s.Leaves (w.Gains N) w o st through where
  unapplied _ _ hw₁ := hw₁.gains
  applied happlied w₁ hw₁ := (h happlied w₁ hw₁ (hfull.moved hw₁)).after_moved hw₁

/-- An insert stores the written row under the keys of that row. -/
theorem RowInsert.gains_writeThrough (x : RowInsert) (prepare : ValuePreparer)
    (hfull : w.HasFullRows) :
    w.Gains (FiledBy x.entity.toOption) (x.writeThrough prepare unit w).2 := by
  cases he : x.entity with
  | error err =>
    have hnothing : x.writeThrough prepare unit w = (.error err, w) := by
      unfold RowInsert.writeThrough
      simp only [he]
    rw [hnothing]
    exact w.gains_refl
  | ok e =>
    have hkeys := Entity.keysOfRow_of_full (e := e) .update (Row.isFull_row_insert prepare x)
    -- a row without keys is stored nowhere
    by_cases hnil : e.shapeKeys (x.row prepare).valueAt = []
    · rw [hnil] at hkeys
      rw [RowInsert.writeThrough_of_no_keys he hkeys]
      exact w.gains_refl
    cases unit with
    | some i =>
      obtain ⟨after, hafter, hafull, -⟩ := Row.merge_spec
        (hfull.shown i (e.shapeKeys (x.row prepare).valueAt)) (x.row prepare)
      obtain ⟨promote, hthrough⟩ := RowInsert.writeThrough_in_unit he rfl hnil hafter hafull
      rw [hthrough]
      exact State.gains_put fun key hkey => ⟨hafull, e, rfl, (Entity.files_iff hafull).2 hkey⟩
    | none =>
      by_cases hadmits : (⟨.update, some e⟩ : CachePolicy).admits w.cache = true
      · obtain ⟨after, hafter, hafull, -⟩ := Row.merge_spec
          (hfull.getD (e.shapeKeys (x.row prepare).valueAt)) (x.row prepare)
        rw [RowInsert.writeThrough_outside he rfl hnil hadmits hafter hafull]
        exact State.gains_cache_put (fun _ _ hr => hr) fun key hkey =>
          ⟨hafull, e, rfl, (Entity.files_iff hafull).2 hkey⟩
      · rw [RowInsert.writeThrough_of_refused he hkeys hadmits]
        exact w.gains_refl

theorem gains_insert (x : RowInsert) (hfull : w.HasFullRows) :
    w.Gains (FiledBy x.entity.toOption) (x.run s unit w).2 :=
  insert_leaves (ignoresCounts_gains w) (fun _ _ => w.gains_refl) fun _ _ =>
    State.gains_leaves hfull fun _ _ _ hfull₁ => x.gains_writeThrough s.prepare hfull₁

/-- A delete puts tombstones and drops entries, and brings no row. -/
theorem RowDelete.gains_writeThrough (d : RowDelete) (prepare : ValuePreparer) :
    w.Gains N (d.writeThrough prepare unit w).2 := by
  unfold RowDelete.writeThrough
  cases unit with
  | none =>
    dsimp only
    split
    next => exact w.gains_refl
    next c hevict =>
      exact State.gains_cache fun key r hr => .inl (.inl (CachePolicy.of_evict hevict hr))
  | some i =>
    dsimp only
    split
    next => exact State.gains_forget _
    next =>
      split
      next => exact State.gains_evictSchema _
      next =>
        split
        next => exact w.gains_refl
        next => exact State.gains_put_deleted

theorem gains_delete (d : RowDelete) (hfull : w.HasFullRows) :
    w.Gains N (d.run s unit w).2 :=
  delete_leaves (ignoresCounts_gains w) (fun _ _ => w.gains_refl) fun _ _ =>
    State.gains_leaves hfull fun _ _ _ _ => d.gains_writeThrough s.prepare

/-! ## Updates -/

/-- An applied UPDATE in a unit leaves its row under a key of its filters that the row does not
bind. -/
def RowUpdate.Misfiles (u : RowUpdate) (s : Session σ) (i : Nat) (w : State σ) : Prop :=
  ∃ st e unit after, u.statement s.prepare = .ok st ∧ u.entity = .ok e ∧
    (s.reply u.options st w.database).1.bind ResultSet.wasApplied = .ok true ∧
    w.units.get? i = some unit ∧
    u.following s.prepare (RowUpdate.before ⟨.update, some e⟩
      (u.conditions.keys ⟨.update, some e⟩ s.prepare) i w.units w.cache) = .ok after ∧
    ∃ key ∈ u.conditions.keys ⟨.update, some e⟩ s.prepare, ¬ e.Files after key

/-- The row that an UPDATE changes is the same before its statement is sent. -/
theorem State.Moved.before_eq (h : w.Moved db w₁) (p : CachePolicy) (keys : List String)
    (i : Nat) : RowUpdate.before p keys i w₁.units w₁.cache =
      RowUpdate.before p keys i w.units w.cache := by
  unfold RowUpdate.before
  rw [h.lookup_eq, h.cache]

/-- Outside of units the row goes under its own keys. -/
theorem RowUpdate.gains_outside {u : RowUpdate} {prepare : ValuePreparer} {e : Entity}
    (he : u.entity = .ok e) (hfull : w.HasFullRows) :
    w.Gains (FiledBy (some e)) (u.writeThrough prepare none w).2 := by
  by_cases hadmits : (⟨.update, some e⟩ : CachePolicy).admits w.cache = true
  · generalize hkeys : u.conditions.keys ⟨.update, some e⟩ prepare = keys
    by_cases hnil : keys = []
    · rw [RowUpdate.writeThrough_of_no_keys_outside he hadmits (hkeys.trans hnil)]
      exact State.gains_cache fun key r hr => .inl (.inl (SessionCache.of_invalidateSchema hr))
    · obtain ⟨after, hafter, hafull, -⟩ := u.exists_following prepare (hfull.getD keys)
      rw [RowUpdate.writeThrough_outside he hkeys hnil hadmits rfl (hfull.getD keys) hafter hafull]
      exact State.gains_cache_put (fun _ _ hr => SessionCache.of_invalidate hr) fun key hkey =>
        ⟨hafull, e, rfl, (Entity.files_iff hafull).2 hkey⟩
  · rw [RowUpdate.writeThrough_of_refused he hadmits]
    exact w.gains_refl

/-- In a unit the row goes under the keys of the filters as well, which it has to bind. -/
theorem RowUpdate.gains_in_unit {u : RowUpdate} {prepare : ValuePreparer} {e : Entity}
    (he : u.entity = .ok e) (hfull : w.HasFullRows)
    (hfiles : ∀ after, u.following prepare (RowUpdate.before ⟨.update, some e⟩
        (u.conditions.keys ⟨.update, some e⟩ prepare) i w.units w.cache) = .ok after →
      (w.units.get? i).isSome → ∀ key ∈ u.conditions.keys ⟨.update, some e⟩ prepare,
        e.Files after key) :
    w.Gains (FiledBy (some e)) (u.writeThrough prepare (some i) w).2 := by
  generalize hkeys : u.conditions.keys ⟨.update, some e⟩ prepare = keys at hfiles
  by_cases hnil : keys = []
  · rw [RowUpdate.writeThrough_of_no_keys he (hkeys.trans hnil)]
    exact State.gains_forget _
  · have hbfull := hfull.before ⟨.update, some e⟩ keys i
    obtain ⟨after, hafter, hafull, -⟩ := u.exists_following prepare hbfull
    obtain ⟨promote, hthrough⟩ := RowUpdate.writeThrough_in_unit he hkeys hnil rfl hbfull hafter
      hafull
    rw [hthrough]
    refine State.gains_units fun key r b hr => ?_
    obtain hr | ⟨unit, hunit, hentry⟩ := hr.of_modify
    · exact .inl hr
    · rw [UnitOfWork.entries_refile] at hentry
      split at hentry
      next hkey =>
        rw [Option.some.injEq, UnitEntry.row.injEq] at hentry
        rw [← hentry.1]
        refine .inr ⟨hafull, e, rfl, ?_⟩
        obtain hkey | hkey := List.mem_append.1 hkey
        · exact hfiles after hafter (by rw [hunit]; rfl) key hkey
        · exact (Entity.files_iff hafull).2 hkey
      next =>
        split at hentry
        next => exact absurd hentry (by simp)
        next => exact .inl ⟨i, unit, hunit, hentry⟩

/-- An update stores the changed row under the keys of the changed row, unless it is one that
misfiles. -/
theorem gains_update {u : RowUpdate} (hfull : w.HasFullRows)
    (hfiles : ∀ i, unit = some i → ¬ u.Misfiles s i w) :
    w.Gains (FiledBy u.entity.toOption) (u.run s unit w).2 := by
  refine update_leaves (ignoresCounts_gains w) (fun _ _ => w.gains_refl) fun st hst =>
    State.gains_leaves hfull fun happlied w₁ hw₁ hfull₁ => ?_
  obtain ⟨e, -, -, he, -⟩ := RowUpdate.of_statement hst
  rw [he]
  cases unit with
  | none => exact RowUpdate.gains_outside he hfull₁
  | some i =>
    refine RowUpdate.gains_in_unit he hfull₁ fun after hafter hunit key hkey => ?_
    obtain ⟨unit₁, hunit₁⟩ := Option.isSome_iff_exists.1 hunit
    obtain ⟨unit₀, hunit₀, -⟩ := hw₁.symm.exists_unit hunit₁
    rw [hw₁.before_eq] at hafter
    exact Classical.byContradiction fun hnot => hfiles i rfl ⟨st, e, unit₀, after, hst, he,
      happlied, hunit₀, hafter, key, hkey, hnot⟩

/-! ## Lookups -/

/-- A row that was read is well-formed when its filters have completed it. -/
theorem PointQuery.Plan.wellFormed_completed (p : Plan) {r : Row} (h : r.IsWellFormed) :
    (p.completed r).IsFull ∧ ∀ c, (p.completed r).HasOnce c := by
  obtain ⟨hfull, -, honce, -⟩ := p.completed_spec (r := r) h.length_eq
  exact ⟨hfull, fun c => honce c (List.nodup_iff_count.1 h.nodup c)⟩

/-- A row without repeated columns, laid over another one, keeps its values. -/
theorem Row.valueAt_merge {known other merged : Row} (hknown : known.IsFull)
    (hmerge : known.merge other = .ok merged) (hfull : other.IsFull)
    (honce : ∀ c, other.HasOnce c) {n : Node} {v : Value} (hv : other.valueAt n = some v) :
    merged.valueAt n = some v := by
  obtain ⟨merged', hmerged', -, hcell, -⟩ := Row.merge_spec hknown other
  obtain rfl : merged' = merged := Except.ok.inj (hmerged'.symm.trans hmerge)
  rw [Row.valueAt, Option.join_eq_some_iff] at hv ⊢
  rw [hcell, Row.lookup_reverse_of_hasOnce hfull honce, hv]
  rfl

/-- A row that was fetched is stored in a unit under its own keys. -/
theorem PointQuery.Plan.gains_populateUnit {p : Plan} {us : Units} (hfull : w.HasFullRows)
    (hr : r.IsFull) (honce : ∀ c, r.HasOnce c) (h : p.populateUnit r i w.units = .ok us) :
    w.Gains (FiledBy p.policy.entity) { w with units := us } := by
  rw [populateUnit_eq] at h
  obtain ⟨facets, hfacets, h⟩ := bind_eq_ok.1 h
  dsimp only at h
  split at h
  next =>
    rw [← Except.ok.inj h]
    exact w.gains_refl
  next =>
    obtain ⟨merged, hmerged, h⟩ := bind_eq_ok.1 h
    rw [← Except.ok.inj h]
    have hkeys : p.policy.keysOfRow r = .ok (Facet.keys facets) :=
      CachePolicy.keysOfRow_of_facets hfacets
    -- the keys are those of the row that was read, whose values the merged row keeps
    have hvalues : merged.IsFull ∧ ∀ n v, r.valueAt n = some v → merged.valueAt n = some v := by
      cases hlookup : w.units.lookup i (Facet.keys facets) with
      | found known =>
        rw [hlookup] at hmerged
        have hknown := hfull.lookup hlookup
        obtain ⟨merged', hmerged', hfull', -⟩ := Row.merge_spec hknown r
        obtain rfl : merged' = merged := Except.ok.inj (hmerged'.symm.trans hmerged)
        exact ⟨hfull', fun n v => Row.valueAt_merge hknown hmerged hr honce⟩
      | deleted | missing =>
        rw [hlookup] at hmerged
        rw [← Except.ok.inj hmerged]
        exact ⟨hr, fun _ _ => id⟩
    refine State.gains_put fun key hkey => ⟨hvalues.1, ?_⟩
    obtain ⟨e, he, hfiles⟩ := CachePolicy.files_of_keysOfRow hkeys hkey
    refine ⟨e, he, (Entity.files_iff hvalues.1).2 ?_⟩
    exact Entity.shapeKeys_mono hvalues.2 ((Entity.files_iff hr).1 hfiles)

/-- A row that was fetched is stored in the session cache under its own keys. -/
theorem PointQuery.Plan.gains_populateSession {p : Plan} {c : SessionCache} (hfull : w.HasFullRows)
    (hr : r.IsFull) (h : p.populateSession r w.cache = .ok c) :
    w.Gains (FiledBy p.policy.entity) { w with cache := c } := by
  rcases of_populateSession h with rfl | ⟨keys, merged, b, -, hmerged, hupdate⟩
  · exact w.gains_refl
  · have hmfull : merged.IsFull := by
      rcases hmerged with rfl | ⟨known, hget, hmerge⟩
      · exact hr
      · obtain ⟨after, hafter, hafull, -⟩ := Row.merge_spec (hfull.get? hget) r
        rw [hafter] at hmerge
        rwa [← Except.ok.inj hmerge]
    refine State.gains_cache fun key r' hr' => ?_
    obtain hr' | ⟨rfl, hfiles⟩ := CachePolicy.of_update hupdate hr'
    · exact .inl (.inl hr')
    · exact .inr ⟨hmfull, hfiles⟩

/-- A lookup in a unit stores what it fetched, or what the session cache had, under its own keys. -/
theorem gains_lookup_in_unit {α : Type} {q : Query α} (hanswers : s.AnswersWellFormed)
    (hfull : w.HasFullRows) :
    w.Gains (FiledBy q.entity.toOption) (q.single.run s (some i) w).2 := by
  refine lookup_leaves (ignoresCounts_gains w) (fun _ _ => w.gains_refl) fun st hst => ?_
  constructor
  · exact fun _ hw₁ => hw₁.gains
  · exact fun _ hw₁ => hw₁.gains
  · intro _ r keys hr hkeys w₁ hw₁
    obtain ⟨hget, -⟩ := PointQuery.Plan.of_fromSession? hr
    refine (State.gains_put fun key hkey => ?_).after_moved hw₁
    exact ⟨hfull.get? hget, CachePolicy.files_of_keysOfRow hkeys hkey⟩
  · intro _ answer r hanswer hfirst w₁ units hw₁ hunits
    obtain ⟨hr, honce⟩ := (q.single.plan s.prepare).wellFormed_completed
      (hanswers _ _ _ answer hanswer r (List.mem_of_mem_head? hfirst))
    exact (PointQuery.Plan.gains_populateUnit (hfull.moved hw₁) hr honce hunits).after_moved hw₁

/-- A lookup outside units stores what it fetched. -/
theorem gains_lookup {α : Type} {q : Query α} (hanswers : s.AnswersWellFormed)
    (hfull : w.HasFullRows) :
    w.Gains (FiledBy q.entity.toOption) (q.single.run s none w).2 := by
  refine lookup_leaves_outside (ignoresCounts_gains w) (fun _ _ => w.gains_refl) fun st hst => ?_
  constructor
  · exact fun _ hw₁ => hw₁.gains
  · exact fun _ hw₁ => hw₁.gains
  · intro _ answer r hanswer hfirst w₁ c hw₁ hc
    obtain ⟨hr, -⟩ := (q.single.plan s.prepare).wellFormed_completed
      (hanswers _ _ _ answer hanswer r (List.mem_of_mem_head? hfirst))
    exact (PointQuery.Plan.gains_populateSession (hfull.moved hw₁) hr hc).after_moved hw₁

/-- Whatever an operation brings is filed by the entity that it stores rows of. -/
theorem gains_call (c : Call) (hanswers : s.AnswersWellFormed) (hfull : w.HasFullRows)
    (hfiles : ∀ u i, c = .update u → unit = some i → ¬ u.Misfiles s i w) :
    w.Gains (FiledBy c.stores?) (c.run s unit w).2 := by
  cases c with
  | lookup q =>
    cases unit with
    | none => exact gains_lookup hanswers hfull
    | some i => exact gains_lookup_in_unit hanswers hfull
  | read q => exact (moved_read q s unit w).gains
  | count x => exact (moved_count x s unit w).gains
  | insert x => exact gains_insert x hfull
  | update u => exact gains_update hfull fun i hi => hfiles u i rfl hi
  | delete d => exact gains_delete d hfull

end

/-! ## Everything else that changes the caches -/

/-- An item that is put into the cache by hand is filed like a row that was read. -/
theorem gains_updateCache {α : Type} (s : Session σ) (m : Mapping α) (item : α) :
    w.Gains (FiledBy (some m.entity)) (s.updateCache m item w).2 := by
  unfold Session.updateCache
  dsimp only
  split
  next =>
    split
    next b c hupdated =>
      obtain ⟨cells, -, hupdate⟩ := bind_eq_ok.1 hupdated
      refine State.gains_cache fun key r hr => ?_
      obtain hr | ⟨rfl, hfiles⟩ := CachePolicy.of_update hupdate hr
      · exact .inl (.inl hr)
      · exact .inr ⟨Row.isFull_ofPairs _, hfiles⟩
    next => exact w.gains_refl
  next => exact w.gains_refl

theorem gains_begin (label : String) (parent : Option Nat) :
    w.Gains N (w.begin label parent).2 :=
  State.gains_units fun _ _ _ hr => .inl hr.of_begin

/-- A commit moves rows from a unit to the one around it or to the session cache, under the keys
that they are filed under. -/
theorem gains_commit : w.Gains N (w.commit i).2 := by
  intro key r hr
  refine .inl (State.has_iff.2 ?_)
  obtain hr | ⟨b, hr⟩ := State.has_iff.1 hr
  · exact (State.cache_commit hr).imp_right fun hheld => ⟨true, hheld.2⟩
  · exact .inr ⟨b, State.holds_commit hr⟩

theorem gains_abort : w.Gains N (w.abort i).2 := by
  intro key r hr
  refine .inl (State.has_iff.2 ?_)
  obtain hr | ⟨b, hr⟩ := State.has_iff.1 hr
  · rw [w.cache_abort] at hr
    exact .inl hr
  · exact .inr ⟨b, State.holds_abort hr⟩

end

/-! ## Runs -/

/-- A step that a program takes with a session. -/
inductive SessionStep where
  /-- Runs an operation, outside of units or in one of them. -/
  | call (unit : Option Nat) (c : Call)
  /-- Puts an item into the session cache. -/
  | keep {α : Type} (m : Mapping α) (item : α)
  | begin (label : String) (parent : Option Nat)
  | commit (i : Nat)
  | abort (i : Nat)

namespace SessionStep

/-- The entity whose rows a step may put into the caches. -/
def stores? : SessionStep → Option Entity
  | call _ c => c.stores?
  | keep m _ => some m.entity
  | begin _ _ | commit _ | abort _ => none

section

variable {σ : Type} (s : Session σ)

/-- Takes a step. -/
def run : SessionStep → State σ → State σ
  | call unit c, w => (c.run s unit w).2
  | keep m item, w => (s.updateCache m item w).2
  | begin label parent, w => (w.begin label parent).2
  | commit i, w => (w.commit i).2
  | abort i, w => (w.abort i).2

/-- The state after steps, the latest first. -/
def stateAfter (w : State σ) : List SessionStep → State σ
  | [] => w
  | x :: past => x.run s (stateAfter w past)

/-- A step misfiles a row. -/
def Misfiles (w : State σ) : SessionStep → Prop
  | call (some i) (.update u) => u.Misfiles s i w
  | _ => False

/-- No step has misfiled a row. -/
def NoneMisfiles (w : State σ) : List SessionStep → Prop
  | [] => True
  | x :: past => ¬ x.Misfiles s (stateAfter s w past) ∧ NoneMisfiles w past

variable {s} {w : State σ}

/-- A step that misfiles no row brings rows under their own keys only. -/
theorem gains_run (x : SessionStep) (hanswers : s.AnswersWellFormed) (hfull : w.HasFullRows)
    (hfiles : ¬ x.Misfiles s w) : w.Gains (FiledBy x.stores?) (x.run s w) := by
  cases x with
  | call unit c =>
    refine gains_call c hanswers hfull fun u i hc hi => ?_
    subst hc hi
    exact hfiles
  | keep m item => exact gains_updateCache s m item
  | begin label parent => exact gains_begin label parent
  | commit i => exact gains_commit
  | abort i => exact gains_abort

/-- Nothing stands in the caches of a session that was just started. -/
theorem not_has_start (db : σ) (key : String) (r : Row) : ¬ (s.start db).Has key r := by
  rintro (hr | ⟨i, u, b, hu, -⟩)
  · have hempty : (∅ : Std.ExtTreeMap String Row compare)[key]? = some r := hr
    rw [Std.ExtTreeMap.getElem?_empty] at hempty
    exact absurd hempty (by simp)
  · exact absurd hu (by simp [Session.start, Units.get?])

/-- Every state that a run reaches has full rows only. -/
theorem hasFullRows_stateAfter (hanswers : s.AnswersWellFormed) (db : σ) {past : List SessionStep}
    (h : NoneMisfiles s (s.start db) past) : (stateAfter s (s.start db) past).HasFullRows := by
  induction past with
  | nil => exact fun key r hr => absurd hr (not_has_start db key r)
  | cons x past ih =>
    intro key r hr
    obtain hold | hnew := gains_run x hanswers (ih h.2) h.1 key r hr
    · exact ih h.2 key r hold
    · exact hnew.1

end

end SessionStep

section

variable {σ : Type} {s : Session σ} {w : State σ} {i : Nat}

/-- An UPDATE that tells its row what its filters ask for, of every column that they name, misfiles
nothing. -/
theorem RowUpdate.not_misfiles {u : RowUpdate} (hfull : w.HasFullRows)
    (htold : ∀ n v, (n, v) ∈ u.conditions.equalities s.prepare →
      u.told s.prepare n.column.name = some (some v)) : ¬ u.Misfiles s i w := by
  rintro ⟨-, e, -, after, -, -, -, -, hafter, key, hkey, hnot⟩
  obtain ⟨after', hafter', hafull, hcell⟩ := u.exists_following s.prepare (hfull.before ⟨.update,
    some e⟩ (u.conditions.keys ⟨.update, some e⟩ s.prepare) i)
  obtain rfl : after' = after := Except.ok.inj (hafter'.symm.trans hafter)
  rw [Entity.keys_of_equalities] at hkey
  split at hkey
  next =>
    refine hnot ((Entity.files_iff hafull).2 (Entity.shapeKeys_mono (fun n v hv => ?_) hkey))
    obtain ⟨⟨m, x⟩, hfind, hx⟩ := Option.map_eq_some_iff.1 hv
    have hm : m = n := by simpa using List.find?_some hfind
    have hxv : x = v := hx
    subst hm hxv
    have hread := htold m x (List.mem_of_find?_eq_some hfind)
    have hknown : m.column.name ∉ u.unknown := fun hin => by
      rw [told, if_pos hin] at hread
      exact absurd hread (by simp)
    rw [Row.valueAt, hcell _ hknown, hread]
    rfl
  next => exact absurd hkey (by simp)

/-- An UPDATE that misfiles its row leaves it in the unit under a key that it does not bind. -/
theorem RowUpdate.Misfiles.left_behind {u : RowUpdate} (h : u.Misfiles s i w)
    (hfull : w.HasFullRows) : ∃ e unit key r b, u.entity = .ok e ∧
      (u.run s (some i) w).2.units.get? i = some unit ∧
      unit.entries[key]? = some (.row r b) ∧ ¬ e.Files r key := by
  obtain ⟨st, e, unit, after, hst, he, happlied, hunit, hafter, key, hkey, hnot⟩ := h
  refine update_leaves_of_applied (Q := fun w' => ∃ e unit key r b, u.entity = .ok e ∧
      w'.units.get? i = some unit ∧ unit.entries[key]? = some (.row r b) ∧ ¬ e.Files r key)
    ?_ hst happlied fun w₁ hw₁ => ?_
  · rintro w₁ w₂ hmoved ⟨e, unit, key, r, b, he, hunit, hentry, hnot⟩
    obtain ⟨unit', hunit', -, hentries⟩ := hmoved.exists_unit hunit
    exact ⟨e, unit', key, r, b, he, hunit', by rw [hentries]; exact hentry, hnot⟩
  obtain ⟨unit₁, hunit₁, -⟩ := hw₁.exists_unit hunit
  have hbefore := (hfull.moved hw₁).before ⟨.update, some e⟩
    (u.conditions.keys ⟨.update, some e⟩ s.prepare) i
  obtain ⟨after', hafter', hafull, -⟩ := u.exists_following s.prepare hbefore
  obtain rfl : after' = after := by
    rw [hw₁.before_eq, hafter] at hafter'
    exact (Except.ok.inj hafter').symm
  obtain ⟨promote, hthrough⟩ := RowUpdate.writeThrough_in_unit he rfl (List.ne_nil_of_mem hkey) rfl
    hbefore hafter' hafull
  rw [hthrough]
  refine ⟨e, _, key, after', promote, he, Units.get?_modify hunit₁ _, ?_, hnot⟩
  rw [UnitOfWork.entries_refile, if_pos (List.mem_append_left _ hkey)]

/-- In every state of a session whose executor answers with well-formed rows, a row stands under a
key that it binds for the entity of the step that put it there, as long as no UPDATE in a unit has
misfiled its row. One that does leaves a row in its unit under a key that it does not bind. -/
theorem filed_under_own_keys (s : Session σ) (hanswers : s.AnswersWellFormed) (db : σ)
    {past : List SessionStep} (hnone : SessionStep.NoneMisfiles s (s.start db) past) :
    let after := SessionStep.stateAfter s (s.start db)
    (∀ key r, (after past).Has key r → ∃ later x earlier, past = later ++ x :: earlier ∧
      ¬ (after earlier).Has key r ∧ (after (x :: earlier)).Has key r ∧
      ∃ e, x.stores? = some e ∧ e.Files r key) ∧
    ∀ u i, u.Misfiles s i (after past) → ∃ e unit key r b, u.entity = .ok e ∧
      (after (.call (some i) (.update u) :: past)).units.get? i = some unit ∧
      unit.entries[key]? = some (.row r b) ∧ ¬ e.Files r key := by
  intro after
  refine ⟨fun key r hr => ?_, fun u i h => ?_⟩
  · induction past with
    | nil => exact absurd hr (SessionStep.not_has_start db key r)
    | cons x past ih =>
      by_cases hold : (after past).Has key r
      · -- it was put there earlier
        obtain ⟨later, y, earlier, rfl, hput⟩ := ih hnone.2 hold
        exact ⟨x :: later, y, earlier, rfl, hput⟩
      · have hfull := SessionStep.hasFullRows_stateAfter hanswers db hnone.2
        have hnew := (SessionStep.gains_run x hanswers hfull hnone.1 key r hr).resolve_left hold
        exact ⟨[], x, past, rfl, hold, hr, hnew.2⟩
  · exact h.left_behind (SessionStep.hasFullRows_stateAfter hanswers db hnone)

end

/-! ## An account that gets another email address -/

namespace Account

/-- A session with a database that carries out every write and has no rows. -/
def compliant : Session Unit where
  executor.execute _ _ _ := (.ok {}, ())

/-- Opens an account. -/
def opening (id : Uuid) (email : String) (balance : Int32) : RowInsert :=
  (RowInsert.value (RowInsert.value (RowInsert.value {} (t := .uuid) ⟨entity, "id"⟩ id)
    (t := .text) ⟨entity, "email"⟩ email) (t := .int) ⟨entity, "balance"⟩ balance)

/-- Gives an account another email address. -/
def readdress (id : Uuid) (email : String) : RowUpdate :=
  Restricted.whereEq (RowUpdate.set {} (t := .text) ⟨entity, "email"⟩ email) (t := .uuid)
    ⟨entity, "id"⟩ id

/-- The same, naming the old address as well. -/
def readdressFrom (id : Uuid) (old email : String) : RowUpdate :=
  Restricted.whereEq (readdress id email) (t := .text) ⟨entity, "email"⟩ old

/-- An account is opened, and a unit is begun, the latest step first. -/
def opened : List SessionStep :=
  [.begin "moving" none, .call none (.insert (opening ⟨7⟩ "a@b" 10))]

/-- The account gets another address in the unit. -/
def readdressed : List SessionStep :=
  .call (some 0) (.update (readdress ⟨7⟩ "c@d")) :: opened

theorem answersWellFormed_compliant : compliant.AnswersWellFormed := by
  intro st o db answer h r hr
  have hanswer : (.ok {} : Except Error ResultSet) = .ok answer := h
  rw [← Except.ok.inj hanswer] at hr
  exact absurd hr (by simp)

theorem noneMisfiles_opened : SessionStep.NoneMisfiles compliant (compliant.start ()) opened :=
  ⟨not_false, not_false, trivial⟩

theorem noneMisfiles_readdressed :
    SessionStep.NoneMisfiles compliant (compliant.start ()) readdressed := by
  refine ⟨RowUpdate.not_misfiles ?_ fun n v hv => ?_, noneMisfiles_opened⟩
  · exact SessionStep.hasFullRows_stateAfter answersWellFormed_compliant () noneMisfiles_opened
  · have hequalities : (readdress ⟨7⟩ "c@d").conditions.equalities compliant.prepare =
        [(idNode, .uuid ⟨7⟩)] := rfl
    rw [hequalities, List.mem_singleton, Prod.mk.injEq] at hv
    rw [hv.1, hv.2]
    rfl

/-- A row that an address change leaves has both keys of the account. -/
theorem shapeKeys_readdressed {after : Row} (hid : after.valueAt idNode = some (.uuid ⟨7⟩))
    (hemail : after.valueAt emailNode = some (.text "c@d")) : entity.shapeKeys after.valueAt =
      [entity.keyOf idNode (.uuid ⟨7⟩), entity.keyOf emailNode (.text "c@d")] := by
  have hkeyed : entity.IsKeyedBy [idNode, emailNode] := by
    rw [Entity.IsKeyedBy]
    decide
  rw [Entity.shapeKeys_eq hkeyed]
  simp only [Entity.boundKeys, List.filterMap_cons, hid, hemail, Option.map_some,
    List.filterMap_nil]

/-- An update that names the old address leaves the row under it. -/
theorem misfiles_readdressFrom : (readdressFrom ⟨7⟩ "a@b" "c@d").Misfiles compliant 0
    (SessionStep.stateAfter compliant (compliant.start ()) opened) := by
  have hfull := SessionStep.hasFullRows_stateAfter answersWellFormed_compliant ()
    noneMisfiles_opened
  obtain ⟨after, hafter, hafull, hcell⟩ := (readdressFrom ⟨7⟩ "a@b" "c@d").exists_following
    compliant.prepare (hfull.before ⟨.update, some entity⟩
      ((readdressFrom ⟨7⟩ "a@b" "c@d").conditions.keys ⟨.update, some entity⟩ compliant.prepare) 0)
  refine ⟨_, entity, _, after, rfl, rfl, rfl, rfl, hafter, entity.keyOf emailNode (.text "a@b"),
    by decide, fun hfiles => ?_⟩
  have hid : after.valueAt idNode = some (.uuid ⟨7⟩) := by
    rw [Row.valueAt, hcell _ (by decide)]
    rfl
  have hemail : after.valueAt emailNode = some (.text "c@d") := by
    rw [Row.valueAt, hcell _ (by decide)]
    rfl
  rw [Entity.files_iff hafull, shapeKeys_readdressed hid hemail] at hfiles
  exact absurd hfiles (by decide)

/-- The row stands in the unit under its new address, which it has. Named with the old address, the
account leaves its row under that one too. -/
theorem filed_readdressed :
    (∃ r, (SessionStep.stateAfter compliant (compliant.start ()) readdressed).Has
        (entity.keyOf emailNode (.text "c@d")) r ∧
      ∃ x ∈ readdressed, ∃ e, x.stores? = some e ∧
        e.Files r (entity.keyOf emailNode (.text "c@d"))) ∧
    ∃ e unit key r b, (readdressFrom ⟨7⟩ "a@b" "c@d").entity = .ok e ∧
      (SessionStep.stateAfter compliant (compliant.start ())
        (.call (some 0) (.update (readdressFrom ⟨7⟩ "a@b" "c@d")) :: opened)).units.get? 0 =
          some unit ∧
      unit.entries[key]? = some (.row r b) ∧ ¬ e.Files r key := by
  constructor
  · have hshown : ((SessionStep.stateAfter compliant (compliant.start ()) readdressed).units.lookup
        0 [entity.keyOf emailNode (.text "c@d")]).shown.columns ≠ [] := by decide +kernel
    cases hlookup : (SessionStep.stateAfter compliant (compliant.start ()) readdressed).units.lookup
        0 [entity.keyOf emailNode (.text "c@d")] with
    | deleted | missing =>
      rw [hlookup] at hshown
      exact absurd rfl hshown
    | found r =>
      obtain ⟨key, hkey, hhas⟩ := State.has_of_lookup hlookup
      rw [List.mem_singleton.1 hkey] at hhas
      obtain ⟨later, x, earlier, hpast, -, -, e, he, hfiles⟩ := (filed_under_own_keys compliant
        answersWellFormed_compliant () noneMisfiles_readdressed).1 _ _ hhas
      exact ⟨r, hhas, x, by rw [hpast]; simp, e, he, hfiles⟩
  · exact (filed_under_own_keys compliant answersWellFormed_compliant () noneMisfiles_opened).2
      (readdressFrom ⟨7⟩ "a@b" "c@d") 0 misfiles_readdressFrom

end Account

end WideRow
