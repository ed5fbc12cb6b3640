import WideRow.Proofs.Filing
import WideRow.Proofs.Hits
import WideRow.Proofs.Merging
import WideRow.Proofs.Retention
import WideRow.Proofs.Tombstones
import WideRow.Proofs.UniqueFacets

/-!
# Changing a unique value

A row that the caches know stands under the value that it has in each unique column. When a write
gives it another value there, lookups by the new value should find it, and lookups by the old one
should not. The keys of the entity may be of any shape.

> `unique_value_changed`: after an applied UPDATE or INSERT a lookup by the new value is answered
> with the merged row. A lookup by the old value is no longer answered with the row after an UPDATE
> outside of units, and finds that it is gone after an UPDATE in a unit. It is answered as before in
> two cases: after an INSERT, which drops no key, and where a unit has the new row under the key
> that is asked first; then the session cache is asked as if there were no unit.

In those two cases the caches may still answer with the row from before the write.

All of this comes from what a write does to the keys (`State.Refiled`): the new row goes under some,
and others are dropped, or marked in a unit as those of a row that is gone.

By the time of the lookup the session cache may have dropped entries by itself (`Evictor`). What
goes while the write is under way might as well have gone before it or after. A lookup is answered
as long as the entry that it asks for first is left, which is so in a unit, and in a cache that has
room for the keys of a row. That the old row is not found does not hang on what is left.
-/

namespace WideRow

/-! ## Writes that change a unique value -/

/-- A full row has a value in a unique column that is not the new one. -/
structure Entity.Replaces (e : Entity) (r : Row) (n : Node) (old new : Value) : Prop where
  cacheable : e.isCacheable = true
  unique : n ∈ e.uniques
  full : r.IsFull
  value : r.valueAt n = some old
  differs : new.agrees old = false

/-- The caches know a row by some keys: the session cache does or, in a unit, the unit or an
ancestor does; of what they know nothing of, the session cache does. -/
def State.Knows {σ : Type} (w : State σ) (unit : Option Nat) (keys : List String) (r : Row) :
    Prop :=
  match unit with
  | none => w.cache.get? keys = some r
  | some i => w.units.lookup i keys = .found r ∨
      w.units.lookup i keys = .missing ∧ w.cache.get? keys = some r

/-- An UPDATE of a row that the caches know by its filters is applied, and sets a column. -/
structure RowUpdate.Gives {σ : Type} (x : RowUpdate) (s : Session σ) (unit : Option Nat)
    (w : State σ) (e : Entity) (r : Row) (n : Node) (new : Value) : Prop where
  entity : x.entity = .ok e
  applied : ∃ st, x.statement s.prepare = .ok st ∧
    (s.reply x.options st w.database).1.bind ResultSet.wasApplied = .ok true
  known : w.Knows unit (x.conditions.keys ⟨.update, some e⟩ s.prepare) r
  told : x.told s.prepare n.column.name = some (some new)

/-- What an INSERT writes to a column, the last of several cells. -/
def RowInsert.told (x : RowInsert) (prepare : ValuePreparer) (c : String) : Option Cell :=
  (x.row prepare).pairs.reverse.lookup c

/-- An INSERT of a row that the caches know by the keys that it binds is applied, and sets a
column. -/
structure RowInsert.Gives {σ : Type} (x : RowInsert) (s : Session σ) (unit : Option Nat)
    (w : State σ) (e : Entity) (r : Row) (n : Node) (new : Value) : Prop where
  entity : x.entity = .ok e
  applied : ∃ st, x.statement s.prepare = .ok st ∧
    (s.reply x.options st w.database).1.bind ResultSet.wasApplied = .ok true
  known : w.Knows unit (e.shapeKeys (x.row s.prepare).valueAt) r
  told : x.told s.prepare n.column.name = some (some new)

/-- The row that an INSERT is laid over. In a unit the session cache is not asked for it. -/
def State.beneath {σ : Type} (w : State σ) (unit : Option Nat) (keys : List String) : Row :=
  match unit with
  | none => (w.cache.get? keys).getD .empty
  | some i => (w.units.lookup i keys).shown

/-- The keys under which an UPDATE puts its row. -/
def RowUpdate.filed (x : RowUpdate) (prepare : ValuePreparer) (unit : Option Nat) (e : Entity)
    (after : Row) : List String :=
  match unit with
  | none => e.shapeKeys after.valueAt
  | some _ => x.conditions.keys ⟨.update, some e⟩ prepare ++ e.shapeKeys after.valueAt

/-! ## Lookups by a unique value -/

/-- A lookup of rows of an entity that may use the caches, and asks for a value of a column. -/
structure Query.AsksFor {α : Type} (q : Query α) (prepare : ValuePreparer) (e : Entity) (n : Node)
    (v : Value) : Prop where
  built : ∃ st, q.single.statement prepare = .ok st
  entity : ∀ m ∈ q.projection, m.entity = e
  usesCache : q.options.usesCache = true
  asks : (n, v) ∈ q.conditions.equalities prepare

/-- The keys of a lookup's filters. -/
def Query.keys {α : Type} (q : Query α) (prepare : ValuePreparer) (e : Entity) : List String :=
  q.conditions.keys ⟨.fetch, some e⟩ prepare

/-- The caches are asked for one of some keys first. -/
def Query.StartsIn {α : Type} (q : Query α) (prepare : ValuePreparer) (e : Entity)
    (keys : List String) : Prop :=
  ∃ key ∈ keys, (q.keys prepare e).head? = some key

/-- A lookup finds nothing, and sends no statement. -/
structure Query.FindsNothing {α : Type} (q : Query α) {σ : Type} (s : Session σ)
    (unit : Option Nat) (w : State σ) : Prop where
  result : (q.single.run s unit w).1 = .ok none
  database : (q.single.run s unit w).2.database = w.database
  requests : (q.single.run s unit w).2.metrics.requests = w.metrics.requests

/-- The keys, of those under which a write put its row, that still have one after the session cache
dropped some. Nothing goes from a unit. -/
def keysLeft (unit : Option Nat) (now : List String) (lost : String → Bool) : List String :=
  now.filter fun key => unit.isSome || !lost key

/-- The caches followed a write that gave a row a new value, and then the session cache lost
entries. Lookups by this value that begin with a key that the new row is left under are answered
with it. Those by the old value pass it over: outside of units they miss, and in a unit they are
answered as outside. -/
structure State.Rekeyed {σ : Type} (w w' : State σ) (s : Session σ) (unit : Option Nat) (e : Entity)
    (n : Node) (old new : Value) (after : Row) (now : List String) (lost : String → Bool) :
    Prop where
  full : after.IsFull
  value : after.valueAt n = some new
  key : e.keyOf n new ∈ now
  found : ∀ {α : Type} (q : Query α), q.AsksFor s.prepare e n new →
    q.StartsIn s.prepare e (keysLeft unit now lost) →
    (q.single.plan s.prepare).accepts after = .ok true → q.IsAnsweredBy s unit w' after
  passed : ∀ {α : Type} (q : Query α), q.AsksFor s.prepare e n old →
    q.StartsIn s.prepare e (keysLeft unit now lost) →
    ∀ y, y.IsFull → ((q.single.plan s.prepare).Hits unit w' y ↔
      unit.isSome = true ∧ (q.single.plan s.prepare).Hits none (w.lose lost) y)

/-- A row has the primary key of another one. -/
def Entity.SameKey (e : Entity) (r x : Row) : Prop := ∀ m ∈ e.primaryKey, x.valueAt m = r.valueAt m

/-- Rows with the primary key of a row stand under keys of this row only. -/
def SessionCache.HasOnly (c : SessionCache) (e : Entity) (r : Row) : Prop :=
  ∀ (key : String) (y : Row), c.rows[key]? = some y → e.SameKey r y → key ∈ e.shapeKeys r.valueAt

/-- Lookups by an old value are no longer answered with the row that had it. -/
structure State.Retires {σ : Type} (w w' : State σ) (s : Session σ) (unit : Option Nat) (e : Entity)
    (n : Node) (old : Value) (r : Row) (now : List String) : Prop where
  outside : unit = none → w.cache.HasOnly e r → ∀ {α : Type} (q : Query α),
    q.AsksFor s.prepare e n old → ∀ y, (q.single.plan s.prepare).Hits none w' y → ¬ e.SameKey r y
  inUnit : unit.isSome = true → ∀ {α : Type} (q : Query α), q.AsksFor s.prepare e n old →
    q.StartsIn s.prepare e ((e.shapeKeys r.valueAt).filter fun key => !now.contains key) →
    q.FindsNothing s unit w'

section

variable {σ : Type} {s : Session σ} {w w' w₁ w₂ : State σ} {db : σ} {unit : Option Nat} {i : Nat}
  {e : Entity} {n : Node} {old new v : Value} {r after : Row} {key : String}
  {keys gone now : List String} {lost : String → Bool}

/-- A unique column with a value has a key of its own. -/
theorem Entity.keyOf_mem_shapeKeys (hn : n ∈ e.uniques) {cellOf : Node → Cell}
    (hv : cellOf n = some v) : e.keyOf n v ∈ e.shapeKeys cellOf := by
  refine mem_shapeKeys.2 ⟨[n], ?_, [(n.column.name, v.display)], ?_, ?_⟩
  · exact List.mem_append_right _ (List.mem_map_of_mem hn)
  · simp [shapePairs?, hv]
  · simp [pairsKey, Facet.key, Facet.pairs, keyOf]

/-! ## What a write does to the keys -/

/-- A row went under some keys, and others are those of no row any more. -/
def State.Refiled (w w' : State σ) (unit : Option Nat) (gone now : List String) (after : Row) :
    Prop :=
  match unit with
  | none => w.cache.SameSettings w'.cache ∧ ∀ key : String, w'.cache.rows[key]? =
      if key ∈ now then some after else if key ∈ gone then none else w.cache.rows[key]?
  | some i => w'.cache = w.cache ∧
      ∃ promote, w'.units = w.units.modify i (·.refile gone now (.row after promote))

namespace State.Refiled

/-- A write changes what is in the cache and not how the cache is set up. -/
theorem sameSettings (h : w.Refiled w' unit gone now after) : w.cache.SameSettings w'.cache := by
  cases unit with
  | none => exact h.1
  | some i =>
    rw [h.1]
    exact SessionCache.SameSettings.refl _

/-- Outside units the changed row is found by a key that it is now filed under, unless the cache has
lost that key. -/
theorem get?_first (h : w.Refiled w' none gone now after) (hhead : keys.head? = some key)
    (hkey : key ∈ keysLeft none now lost) : (w'.cache.evict lost).get? keys = some after := by
  obtain ⟨rest, rfl⟩ := List.head?_eq_some_iff.1 hhead
  obtain ⟨hnow, hleft⟩ := List.mem_filter.1 hkey
  have hkept : lost key = false := by simpa using hleft
  rw [SessionCache.get?_cons, SessionCache.rows_evict, hkept, if_neg Bool.false_ne_true, h.2 key,
    if_pos hnow, Option.some_or]

/-- The entry that a unit has for the first key. -/
theorem find?_first (h : w.Refiled w' (some i) gone now after)
    (hunit : ∃ u, w.units.get? i = some u) (hhead : keys.head? = some key) :
    (key ∈ now → ∃ promote, w'.units.find? i keys = some (.row after promote)) ∧
      (key ∈ gone → key ∉ now → w'.units.find? i keys = some .deleted) := by
  obtain ⟨rest, rfl⟩ := List.head?_eq_some_iff.1 hhead
  obtain ⟨u, hu⟩ := hunit
  obtain ⟨-, promote, hunits⟩ := h
  have hget := Units.get?_modify hu fun unit => unit.refile gone now (.row after promote)
  rw [← hunits] at hget
  refine ⟨fun hkey => ⟨promote, Units.find?_of_get? hget ?_⟩, fun hgone hnot =>
    Units.find?_of_get? hget ?_⟩
  · rw [UnitOfWork.find?_cons, UnitOfWork.entries_refile, if_pos hkey, Option.some_or]
  · rw [UnitOfWork.find?_cons, UnitOfWork.entries_refile, if_neg hnot, if_pos hgone,
      Option.some_or]

/-- In a unit the changed row is found by a key that it is now filed under. A unit loses no keys. -/
theorem lookup_first (h : w.Refiled w' (some i) gone now after)
    (hunit : ∃ u, w.units.get? i = some u) (hhead : keys.head? = some key) (hkey : key ∈ now) :
    w'.units.lookup i keys = .found after := by
  obtain ⟨promote, hfind⟩ := (h.find?_first hunit hhead).1 hkey
  exact Units.lookup_eq_found.2 ⟨promote, hfind⟩

/-- A key of a value that has gone has a tombstone, so that the row below it is not seen. -/
theorem lookup_gone (h : w.Refiled w' (some i) gone now after)
    (hunit : ∃ u, w.units.get? i = some u) (hhead : keys.head? = some key) (hgone : key ∈ gone)
    (hnot : key ∉ now) : w'.units.lookup i keys = .deleted :=
  Units.lookup_eq_deleted.2 ((h.find?_first hunit hhead).2 hgone hnot)

/-- Other keys answer as they did before. -/
theorem get?_other (h : w.Refiled w' none gone now after)
    (hkeys : ∀ key ∈ keys, key ∉ now ∧ key ∉ gone) :
    (w'.cache.evict lost).get? keys = (w.cache.evict lost).get? keys := by
  induction keys with
  | nil => rfl
  | cons key keys ih =>
    obtain ⟨hnow, hgone⟩ := hkeys key List.mem_cons_self
    have hrow : (w'.cache.evict lost).rows[key]? = (w.cache.evict lost).rows[key]? := by
      rw [SessionCache.rows_evict, SessionCache.rows_evict, h.2 key, if_neg hnow, if_neg hgone]
    rw [SessionCache.get?_cons, SessionCache.get?_cons, hrow,
      ih fun key hkey => hkeys key (List.mem_cons_of_mem _ hkey)]

/-- Other keys answer in every unit as they did before. -/
theorem lookup_other (h : w.Refiled w' (some i) gone now after)
    (hkeys : ∀ key ∈ keys, key ∉ now ∧ key ∉ gone) (j : Nat) :
    w'.units.lookup j keys = w.units.lookup j keys := by
  obtain ⟨-, promote, hunits⟩ := h
  have hentries : ∀ u : UnitOfWork,
      (u.refile gone now (.row after promote)).find? keys = u.find? keys := by
    intro u
    induction keys with
    | nil => rfl
    | cons key keys ih =>
      obtain ⟨hnow, hgone⟩ := hkeys key List.mem_cons_self
      rw [UnitOfWork.find?_cons, UnitOfWork.find?_cons, UnitOfWork.entries_refile, if_neg hnow,
        if_neg hgone, ih fun key hkey => hkeys key (List.mem_cons_of_mem _ hkey)]
  have hknown := w.units.map_get?_modify (f := (·.refile gone now (.row after promote)))
    (g := fun u => (u.parent, u.find? keys)) (fun u => congrArg (Prod.mk u.parent) (hentries u)) i
  rw [Units.lookup, Units.lookup, hunits, Units.find?_congr_keys hknown]

end State.Refiled

/-! ## Lookups after the write -/

namespace Query.AsksFor

variable {α : Type} {q : Query α} {p : ValuePreparer}

theorem policy (h : q.AsksFor p e n v) : (q.single.plan p).policy = ⟨.fetch, some e⟩ := by
  obtain ⟨st, hst⟩ := h.built
  exact Keyring.plan_policy h.entity hst

theorem plan_keys (h : q.AsksFor p e n v) : (q.single.plan p).keys = q.keys p e := by
  obtain ⟨st, hst⟩ := h.built
  exact Keyring.plan_keys h.entity hst

/-- A row with another value of the column is not accepted. -/
theorem rejects (h : q.AsksFor p e n old) (hfull : after.IsFull)
    (hvalue : after.valueAt n = some new) (hdiffers : new.agrees old = false) :
    (q.single.plan p).accepts after = .ok false := by
  obtain ⟨b, hb, hiff⟩ := (q.single.plan p).accepts_spec hfull
  cases b with
  | false => exact hb
  | true =>
    obtain ⟨x, hx, hagrees⟩ := (hiff.1 rfl).2 n old h.asks
    rw [Row.valueAt, hx] at hvalue
    rw [Option.some.inj hvalue, hdiffers] at hagrees
    exact absurd hagrees (by simp)

/-- A lookup outside units is a hit if the cache has a row that its filters accept. -/
theorem hits_outside (h : q.AsksFor p e n v) (hadmits : e.isCacheable = true)
    (henabled : w.cache.isEnabled = true) : (q.single.plan p).Hits none w r ↔
      w.cache.get? (q.keys p e) = some r ∧ (q.single.plan p).accepts r = .ok true := by
  have huses : (q.single.plan p).usesCache = true := h.usesCache
  rw [PointQuery.Plan.hits_outside, h.policy, h.plan_keys]
  simp only [huses, CachePolicy.admits_of_isEnabled henabled hadmits .fetch, true_and]

/-- A lookup in a unit is a hit if the unit has such a row, or says nothing and the session cache
has one. -/
theorem hits_in_unit (h : q.AsksFor p e n v) (hadmits : e.isCacheable = true)
    (henabled : w.cache.isEnabled = true) (hfull : r.IsFull) :
    (q.single.plan p).Hits (some i) w r ↔
      w.units.lookup i (q.keys p e) = .found r ∧ (q.single.plan p).accepts r = .ok true ∨
        (q.single.plan p).IsOpenAfter (w.units.lookup i (q.keys p e)) ∧
          (q.single.plan p).Hits none w r := by
  have huses : (q.single.plan p).usesCache = true := h.usesCache
  have hkeys : ∃ keys, (q.single.plan p).policy.keysOfRow r = .ok keys := by
    rw [h.policy]
    exact ⟨_, Entity.keysOfRow_of_full .fetch hfull⟩
  have hpolicy : (q.single.plan p).policy.admits w.cache = true := by
    rw [h.policy]
    exact CachePolicy.admits_of_isEnabled henabled hadmits .fetch
  rw [PointQuery.Plan.hits_in_unit, h.hits_outside hadmits henabled, h.plan_keys]
  simp only [huses, hpolicy, hkeys, and_true, true_and]

/-- A hit is an answer without a statement. -/
theorem isAnsweredBy (h : q.AsksFor s.prepare e n v)
    (hhits : (q.single.plan s.prepare).Hits unit w r) : q.IsAnsweredBy s unit w r := by
  obtain ⟨st, hst⟩ := h.built
  exact isAnsweredBy_of_hits hst hhits

/-- A tombstone is an answer, too: there is no row. -/
theorem findsNothing (h : q.AsksFor s.prepare e n v) (hsome : q.keys s.prepare e ≠ [])
    (hdeleted : w.units.lookup i (q.keys s.prepare e) = .deleted) :
    q.FindsNothing s (some i) w := by
  obtain ⟨st, hst⟩ := h.built
  rw [← h.plan_keys] at hsome hdeleted
  obtain ⟨hresult, hdb, hrequests⟩ := lookup_of_deleted hst h.usesCache hsome hdeleted
  exact ⟨hresult, hdb, hrequests⟩

end Query.AsksFor

/-! ## Writes that refile a row -/

section

variable (h : e.Replaces r n old new) (henabled : w.cache.isEnabled = true)
  (hunit : ∀ i, unit = some i → ∃ u, w.units.get? i = some u)
  (hw₁ : w.Moved db w₁) (hrefiled : w₁.Refiled w₂ unit gone now after)
  (hw' : w₂.Moved w₂.database w') (hfull : after.IsFull) (hvalue : after.valueAt n = some new)

/-- What is counted and logged does not matter to what is lost. -/
theorem State.Moved.lose (h : w.Moved db w') (lost : String → Bool) :
    (w.lose lost).Moved db (w'.lose lost) :=
  ⟨h.database, congrArg (·.evict lost) h.cache, h.units⟩

include henabled hw₁ hrefiled in
theorem State.Refiled.isEnabled (lost : String → Bool) :
    (w₂.lose lost).cache.isEnabled = true := by
  show w₂.cache.isEnabled = true
  rw [hrefiled.sameSettings.isEnabled, hw₁.cache, henabled]

include hw₁ hunit in
theorem exists_unit_of_moved (hi : unit = some i) : ∃ u, w₁.units.get? i = some u := by
  obtain ⟨u, hu⟩ := hunit i hi
  obtain ⟨u₁, hu₁, -⟩ := hw₁.exists_unit hu
  exact ⟨u₁, hu₁⟩

include h henabled hunit hw₁ hrefiled hw' hfull hvalue in
/-- A write that puts a row with the new value under its keys, and under others, rekeys it. -/
theorem State.rekeyed_of_refiled (hnow : ∀ key ∈ e.shapeKeys after.valueAt, key ∈ now)
    (lost : String → Bool) : w.Rekeyed (w'.lose lost) s unit e n old new after now lost where
  full := hfull
  value := hvalue
  key := hnow _ (Entity.keyOf_mem_shapeKeys h.unique hvalue)
  found := by
    intro α q hasks hstarts haccepts
    obtain ⟨key, hkey, hhead⟩ := hstarts
    have henabled₂ := State.Refiled.isEnabled henabled hw₁ hrefiled lost
    refine hasks.isAnsweredBy ((PointQuery.Plan.hits_of_moved (hw'.lose lost)).2 ?_)
    cases unit with
    | none =>
      exact (hasks.hits_outside h.cacheable henabled₂).2 ⟨hrefiled.get?_first hhead hkey, haccepts⟩
    | some i =>
      have hfound := hrefiled.lookup_first (exists_unit_of_moved hunit hw₁ rfl) hhead
        (List.mem_filter.1 hkey).1
      exact (hasks.hits_in_unit h.cacheable henabled₂ hfull).2 (.inl ⟨hfound, haccepts⟩)
  passed := by
    intro α q hasks hstarts y hy
    obtain ⟨key, hkey, hhead⟩ := hstarts
    have henabled₂ := State.Refiled.isEnabled henabled hw₁ hrefiled lost
    have hrejects := hasks.rejects hfull hvalue h.differs
    have hnot : (q.single.plan s.prepare).accepts after ≠ .ok true := by simp [hrejects]
    rw [PointQuery.Plan.hits_of_moved (hw'.lose lost)]
    cases unit with
    | none =>
      rw [hasks.hits_outside h.cacheable henabled₂,
        show (w₂.lose lost).cache.get? _ = _ from hrefiled.get?_first hhead hkey]
      constructor
      · rintro ⟨hrow, haccepts⟩
        rw [← Option.some.inj hrow] at haccepts
        exact absurd haccepts hnot
      · exact fun hhits => absurd hhits.1 (by simp)
    | some i =>
      have hfound : (w₂.lose lost).units.lookup i (q.keys s.prepare e) = .found after :=
        hrefiled.lookup_first (exists_unit_of_moved hunit hw₁ rfl) hhead (List.mem_filter.1 hkey).1
      have hcache : (w₂.lose lost).cache = (w.lose lost).cache :=
        congrArg (·.evict lost) (hrefiled.1.trans hw₁.cache)
      -- the unit's row does not match, so the session cache is asked, which is as it was
      rw [hasks.hits_in_unit h.cacheable henabled₂ hy, hfound,
        hasks.hits_outside h.cacheable henabled₂,
        hasks.hits_outside (w := w.lose lost) h.cacheable henabled, hcache]
      constructor
      · rintro (⟨hrow, haccepts⟩ | ⟨-, hhits⟩)
        · rw [← UnitAnswer.found.inj hrow] at haccepts
          exact absurd haccepts hnot
        · exact ⟨rfl, hhits⟩
      · exact fun hhits => .inr ⟨hrejects, hhits.2⟩

include h henabled hunit hw₁ hrefiled hw' hfull hvalue in
/-- A write that drops the keys that the row had before, or marks them, retires the old value. -/
theorem State.retires_of_refiled (hgone : gone = e.shapeKeys r.valueAt) (lost : String → Bool) :
    w.Retires (w'.lose lost) s unit e n old r now where
  outside := by
    rintro rfl honly α q hasks y hhits hsame
    have henabled₂ := State.Refiled.isEnabled henabled hw₁ hrefiled lost
    rw [PointQuery.Plan.hits_of_moved (hw'.lose lost),
      hasks.hits_outside h.cacheable henabled₂] at hhits
    obtain ⟨hget, haccepts⟩ := hhits
    obtain ⟨key, -, hleft⟩ := SessionCache.exists_of_get? hget
    obtain ⟨-, hrow⟩ := SessionCache.of_rows_evict hleft
    -- a row stands under the key as the new one, which does not match, or as it did before
    rw [hrefiled.2 key] at hrow
    split at hrow
    next =>
      rw [← Option.some.inj hrow, hasks.rejects hfull hvalue h.differs] at haccepts
      exact absurd haccepts (by simp)
    next =>
      split at hrow
      next => exact absurd hrow (by simp)
      next hkey =>
        rw [hw₁.cache] at hrow
        exact hkey (hgone ▸ honly key y hrow hsame)
  inUnit := by
    rintro hsome α q hasks ⟨key, hkey, hhead⟩
    obtain ⟨i, rfl⟩ := Option.isSome_iff_exists.1 hsome
    rw [List.mem_filter, ← hgone] at hkey
    have hnot : key ∉ now := by simpa using hkey.2
    have hdeleted := hrefiled.lookup_gone (exists_unit_of_moved hunit hw₁ rfl) hhead hkey.1 hnot
    rw [← hw'.lookup_eq] at hdeleted
    refine hasks.findsNothing (w := w'.lose lost) (fun hnil => ?_) hdeleted
    rw [hnil] at hhead
    exact absurd hhead (by simp)

include henabled hw₁ hrefiled hw' in
/-- Lookups by other keys are answered as before. -/
theorem State.hits_of_other {α : Type} {q : Query α} (hcacheable : e.isCacheable = true)
    (hasks : q.AsksFor s.prepare e n v)
    (hother : ∀ key ∈ q.keys s.prepare e, key ∉ now ∧ key ∉ gone) (lost : String → Bool) (y : Row) :
    (q.single.plan s.prepare).Hits unit (w'.lose lost) y ↔
      (q.single.plan s.prepare).Hits unit (w.lose lost) y := by
  have henabled₁ : (w₁.lose lost).cache.isEnabled = true := by rw [← henabled, ← hw₁.cache]; rfl
  have henabled₂ := State.Refiled.isEnabled henabled hw₁ hrefiled lost
  rw [PointQuery.Plan.hits_of_moved (hw'.lose lost),
    ← PointQuery.Plan.hits_of_moved (hw₁.lose lost)]
  cases unit with
  | none =>
    rw [hasks.hits_outside hcacheable henabled₂, hasks.hits_outside hcacheable henabled₁,
      show (w₂.lose lost).cache.get? _ = _ from hrefiled.get?_other hother]
    rfl
  | some i =>
    have hlookup : (w₂.lose lost).units.lookup i (q.keys s.prepare e) =
        (w₁.lose lost).units.lookup i (q.keys s.prepare e) := hrefiled.lookup_other hother i
    have hcache : (w₂.lose lost).cache = (w₁.lose lost).cache :=
      congrArg (·.evict lost) hrefiled.1
    rw [PointQuery.Plan.hits_in_unit, PointQuery.Plan.hits_in_unit, hasks.plan_keys, hlookup,
      hcache]

end

/-! ## Running the writes -/

/-- What is known of a row by some keys does not hang on what is counted. -/
theorem State.Knows.moved (h : w.Knows unit keys r) (hmoved : w.Moved db w₁) :
    w₁.Knows unit keys r := by
  cases unit with
  | none =>
    show w₁.cache.get? keys = some r
    rw [hmoved.cache]
    exact h
  | some i =>
    show w₁.units.lookup i keys = _ ∨ w₁.units.lookup i keys = _ ∧ w₁.cache.get? keys = _
    rw [hmoved.lookup_eq, hmoved.cache]
    exact h

/-- What is known is known by some key. -/
theorem State.Knows.keys_ne_nil (h : w.Knows unit keys r) : keys ≠ [] := by
  rintro rfl
  cases unit with
  | none => exact absurd h (by simp [Knows])
  | some i => exact absurd h (by simp [Knows])

/-- An applied write, in a unit or outside: it is answered as the database answers, if the caches
can follow. -/
theorem counted_write_of_applied {k : OperationKind} {o : StatementOptions} {st : Statement}
    {through : State σ → Outcome σ Unit} {run : State σ → Outcome σ ResultSet}
    (hrun : run w = s.write unit k o st through w)
    (happlied : (s.reply o st w.database).1.bind ResultSet.wasApplied = .ok true) :
    ∃ w₁, w.Moved (s.reply o st w.database).2 w₁ ∧ ∀ w₂, through w₁ = (.ok (), w₂) →
      (Session.counted k run w).1 = (s.reply o st w.database).1.bind ResultSet.acknowledged ∧
        w₂.Moved w₂.database (Session.counted k run w).2 := by
  refine ⟨(s.execute unit k o st w).2, moved_execute, fun w₂ hthrough => ?_⟩
  have hwrite : s.write unit k o st through w =
      ((s.execute unit k o st w).1.bind ResultSet.acknowledged, w₂) :=
    write_of_applied (by rw [execute_fst]; exact happlied) hthrough
  have hmoved := moved_counted (w := w) (k := k) run
  rw [counted_fst, hrun, hwrite, execute_fst]
  rw [hrun, hwrite] at hmoved
  exact ⟨rfl, hmoved⟩

/-- An UPDATE in a unit changes the row that the caches know by its filters. -/
theorem State.Knows.before (h : w.Knows (some i) keys r) {p : CachePolicy}
    (hadmits : p.admits w.cache = true) : RowUpdate.before p keys i w.units w.cache = r := by
  unfold RowUpdate.before
  obtain hfound | ⟨hmissing, hget⟩ := h
  · rw [hfound]
  · simp only [hmissing, hadmits, if_true, hget, Option.getD_some]

/-- A session cache with room for the keys of a row has room after the row was refiled. -/
theorem hasRoom_of_refiled (hroom : w.cache.HasRoom e.keyShapes.length) (hw₁ : w.Moved db w₁)
    (hrefiled : w₁.Refiled w₂ unit gone now after)
    (hsize : w₂.cache.size ≤ w₁.cache.size + e.keyShapes.length) (hw' : w₂.Moved w₂.database w') :
    w'.cache.HasRoom := by
  rw [hw'.cache]
  rw [← hw₁.cache] at hroom
  exact hroom.of_size_le hrefiled.sameSettings hsize

/-- An UPDATE moves a row to the keys that it has afterwards. -/
theorem RowUpdate.exists_refiled {x : RowUpdate} {prepare : ValuePreparer}
    (he : x.entity = .ok e) (hcacheable : e.isCacheable = true)
    (henabled : w.cache.isEnabled = true)
    (hknows : w.Knows unit (x.conditions.keys ⟨.update, some e⟩ prepare) r) (hfull : r.IsFull)
    (hafter : x.following prepare r = .ok after) (hafull : after.IsFull) :
    ∃ w₂, x.writeThrough prepare unit w = (.ok (), w₂) ∧
      w.Refiled w₂ unit (e.shapeKeys r.valueAt) (x.filed prepare unit e after) after ∧
      w₂.cache.size ≤ w.cache.size + e.keyShapes.length := by
  have hadmits := CachePolicy.admits_of_isEnabled henabled hcacheable .update
  cases unit with
  | none =>
    have hbefore :
        (w.cache.get? (x.conditions.keys ⟨.update, some e⟩ prepare)).getD .empty = r := by
      rw [show w.cache.get? _ = some r from hknows, Option.getD_some]
    refine ⟨_, RowUpdate.writeThrough_outside he rfl hknows.keys_ne_nil hadmits hbefore hfull
      hafter hafull, ⟨⟨rfl, rfl, rfl⟩, fun key => ?_⟩, ?_⟩
    · rw [SessionCache.rows_put, SessionCache.rows_invalidate]
      rfl
    · exact Nat.le_trans (SessionCache.size_put_le ..)
        (Nat.add_le_add (SessionCache.size_invalidate_le ..) (List.length_filterMap_le ..))
  | some i =>
    obtain ⟨promote, hthrough⟩ := RowUpdate.writeThrough_in_unit he rfl hknows.keys_ne_nil
      (hknows.before hadmits) hfull hafter hafull
    exact ⟨_, hthrough, ⟨rfl, promote, rfl⟩, Nat.le_add_right ..⟩

/-- An INSERT puts a row under its keys, and drops none. -/
theorem RowInsert.exists_refiled {x : RowInsert} {prepare : ValuePreparer}
    (he : x.entity = .ok e) (hcacheable : e.isCacheable = true)
    (henabled : w.cache.isEnabled = true) (hkeys : e.shapeKeys (x.row prepare).valueAt = keys)
    (hsome : keys ≠ []) (hafter : (w.beneath unit keys).merge (x.row prepare) = .ok after)
    (hafull : after.IsFull) :
    ∃ w₂, x.writeThrough prepare unit w = (.ok (), w₂) ∧
      w.Refiled w₂ unit [] (e.shapeKeys after.valueAt) after ∧
      w₂.cache.size ≤ w.cache.size + e.keyShapes.length := by
  cases unit with
  | none =>
    have hadmits := CachePolicy.admits_of_isEnabled henabled hcacheable .update
    refine ⟨_, RowInsert.writeThrough_outside he hkeys hsome hadmits hafter hafull,
      ⟨⟨rfl, rfl, rfl⟩, fun key => ?_⟩, ?_⟩
    · rw [SessionCache.rows_put]
      simp
    · exact Nat.le_trans (SessionCache.size_put_le ..)
        (Nat.add_le_add_left (List.length_filterMap_le ..) _)
  | some i =>
    obtain ⟨promote, hthrough⟩ := RowInsert.writeThrough_in_unit he hkeys hsome hafter hafull
    exact ⟨_, hthrough, ⟨rfl, promote, rfl⟩, Nat.le_add_right ..⟩

/-- To send a statement does not change what is known beneath a write. -/
theorem State.beneath_moved (hmoved : w.Moved db w₁) :
    w₁.beneath unit keys = w.beneath unit keys := by
  cases unit with
  | none => exact congrArg (fun c : SessionCache => (c.get? keys).getD .empty) hmoved.cache
  | some i => exact congrArg UnitAnswer.shown (hmoved.lookup_eq i keys)

/-- What a write starts from is a full row. -/
theorem State.Knows.isFull_beneath (h : w.Knows unit keys r) (hfull : r.IsFull) :
    (w.beneath unit keys).IsFull := by
  cases unit with
  | none =>
    rw [beneath, show w.cache.get? keys = some r from h]
    exact hfull
  | some i =>
    obtain hfound | ⟨hmissing, -⟩ := h
    · rw [beneath, hfound]
      exact hfull
    · rw [beneath, hmissing]
      exact Row.isFull_empty

/-- An UPDATE that gives a known row another value is answered as the database answers, and has
refiled the row. -/
theorem RowUpdate.Gives.exists_refiled {x : RowUpdate} (hx : x.Gives s unit w e r n new)
    (h : e.Replaces r n old new) (henabled : w.cache.isEnabled = true) :
    ∃ after w₁ w₂ db, w.Moved db w₁ ∧
      w₁.Refiled w₂ unit (e.shapeKeys r.valueAt) (x.filed s.prepare unit e after) after ∧
      w₂.cache.size ≤ w₁.cache.size + e.keyShapes.length ∧
      w₂.Moved w₂.database (x.run s unit w).2 ∧
      (x.run s unit w).1 = ((Call.update x).direct s w.database).1 ∧ after.IsFull ∧
      after.valueAt n = some new ∧
      ∀ d, d ∉ x.unknown → after.cell? d = (x.told s.prepare d).or (r.cell? d) := by
  obtain ⟨st, hst, happlied⟩ := hx.applied
  have hrun : x.apply s unit w =
      s.write unit .update x.options st (x.writeThrough s.prepare unit) w := by
    simp only [RowUpdate.apply, RowUpdate.build, hst]
  obtain ⟨w₁, hw₁, hwrite⟩ := counted_write_of_applied hrun happlied
  obtain ⟨after, hafter, hafull, hcell⟩ := x.exists_following s.prepare h.full
  have henabled₁ : w₁.cache.isEnabled = true := by rw [hw₁.cache, henabled]
  obtain ⟨w₂, hthrough, hrefiled, hsize⟩ := RowUpdate.exists_refiled hx.entity h.cacheable
    henabled₁ (hx.known.moved hw₁) h.full hafter hafull
  obtain ⟨hresult, hw'⟩ := hwrite w₂ hthrough
  -- what is told of a column is not told of one whose new content is unknown
  have hvalue : after.valueAt n = some new := by
    have htold := hx.told
    rw [Row.valueAt, hcell n.column.name fun hmem => ?_, htold]
    · rfl
    · rw [RowUpdate.told, if_pos hmem] at htold
      exact absurd htold (by simp)
  exact ⟨after, w₁, w₂, _, hw₁, hrefiled, hsize, hw',
    hresult.trans (congrArg Prod.fst (direct_of_ok (c := .update x) hst _)).symm, hafull, hvalue,
    hcell⟩

/-- An INSERT over a known row is answered as the database answers, and has put the row under the
keys that it has now. -/
theorem RowInsert.Gives.exists_refiled {x : RowInsert} (hx : x.Gives s unit w e r n new)
    (h : e.Replaces r n old new) (henabled : w.cache.isEnabled = true) :
    ∃ after w₁ w₂ db, w.Moved db w₁ ∧
      w₁.Refiled w₂ unit [] (e.shapeKeys after.valueAt) after ∧
      w₂.cache.size ≤ w₁.cache.size + e.keyShapes.length ∧
      w₂.Moved w₂.database (x.run s unit w).2 ∧
      (x.run s unit w).1 = ((Call.insert x).direct s w.database).1 ∧ after.IsFull ∧
      after.valueAt n = some new ∧
      ∀ d, after.cell? d = (x.told s.prepare d).or
        ((w.beneath unit (e.shapeKeys (x.row s.prepare).valueAt)).cell? d) := by
  obtain ⟨st, hst, happlied⟩ := hx.applied
  have hrun : x.apply s unit w =
      s.write unit .insert x.options st (x.writeThrough s.prepare unit) w := by
    simp only [RowInsert.apply, RowInsert.build, hst]
  obtain ⟨w₁, hw₁, hwrite⟩ := counted_write_of_applied hrun happlied
  obtain ⟨after, hafter, hafull, hcell, -⟩ :=
    Row.merge_spec (hx.known.isFull_beneath h.full) (x.row s.prepare)
  have henabled₁ : w₁.cache.isEnabled = true := by rw [hw₁.cache, henabled]
  obtain ⟨w₂, hthrough, hrefiled, hsize⟩ := RowInsert.exists_refiled hx.entity h.cacheable
    henabled₁ rfl hx.known.keys_ne_nil (by rw [State.beneath_moved hw₁]; exact hafter) hafull
  obtain ⟨hresult, hw'⟩ := hwrite w₂ hthrough
  have hvalue : after.valueAt n = some new := by
    rw [Row.valueAt, hcell, show (x.row s.prepare).pairs.reverse.lookup _ = _ from hx.told]
    rfl
  exact ⟨after, w₁, w₂, _, hw₁, hrefiled, hsize, hw',
    hresult.trans (congrArg Prod.fst (direct_of_ok (c := .insert x) hst _)).symm, hafull, hvalue,
    hcell⟩

/-- A write gives a row that the caches know another value in a unique column. It is answered as the
database answers, and the caches have the row with what was written. After an UPDATE lookups by the
old value no longer get the row; after an INSERT those by keys which the new row does not have get
what they would have got before. All this is so of what the session cache has at a moment after the
write: entries may have gone, but none where there was room for the keys of a row. -/
theorem unique_value_changed (s : Session σ) (w : State σ) (unit : Option Nat) (p : Evictor)
    (moment : Nat) (h : e.Replaces r n old new) (henabled : w.cache.isEnabled = true)
    (hunit : ∀ i, unit = some i → ∃ u, w.units.get? i = some u) :
    (∀ x : RowUpdate, x.Gives s unit w e r n new → ∃ after lost,
        (x.run s unit w).1 = ((Call.update x).direct s w.database).1 ∧
        (x.run s unit w).2.settle p moment = (x.run s unit w).2.lose lost ∧
        (p.IsDocumented → w.cache.HasRoom e.keyShapes.length → ∀ key, lost key = false) ∧
        (∀ d, d ∉ x.unknown → after.cell? d = (x.told s.prepare d).or (r.cell? d)) ∧
        w.Rekeyed ((x.run s unit w).2.settle p moment) s unit e n old new after
          (x.filed s.prepare unit e after) lost ∧
        w.Retires ((x.run s unit w).2.settle p moment) s unit e n old r
          (x.filed s.prepare unit e after)) ∧
    ∀ x : RowInsert, x.Gives s unit w e r n new → ∃ after lost,
        (x.run s unit w).1 = ((Call.insert x).direct s w.database).1 ∧
        (x.run s unit w).2.settle p moment = (x.run s unit w).2.lose lost ∧
        (p.IsDocumented → w.cache.HasRoom e.keyShapes.length → ∀ key, lost key = false) ∧
        (∀ d, after.cell? d = (x.told s.prepare d).or
          ((w.beneath unit (e.shapeKeys (x.row s.prepare).valueAt)).cell? d)) ∧
        w.Rekeyed ((x.run s unit w).2.settle p moment) s unit e n old new after
          (e.shapeKeys after.valueAt) lost ∧
        ∀ {α : Type} (q : Query α), q.AsksFor s.prepare e n old →
          (∀ key ∈ q.keys s.prepare e, key ∉ e.shapeKeys after.valueAt) → ∀ y,
            ((q.single.plan s.prepare).Hits unit ((x.run s unit w).2.settle p moment) y ↔
              (q.single.plan s.prepare).Hits unit (w.lose lost) y) := by
  constructor
  · intro x hx
    obtain ⟨after, w₁, w₂, db, hw₁, hrefiled, hsize, hw', hresult, hafull, hvalue, hcell⟩ :=
      hx.exists_refiled h henabled
    have hnow : ∀ key ∈ e.shapeKeys after.valueAt, key ∈ x.filed s.prepare unit e after := by
      intro key hkey
      cases unit with
      | none => exact hkey
      | some i => exact List.mem_append_right _ hkey
    refine ⟨after, p.drops moment (x.run s unit w).2.cache, hresult, rfl,
      fun hp hroom key => ?_, hcell, ?_, ?_⟩
    · exact hp.keeps moment _ key (hasRoom_of_refiled hroom hw₁ hrefiled hsize hw')
    · exact State.rekeyed_of_refiled h henabled hunit hw₁ hrefiled hw' hafull hvalue hnow _
    · exact State.retires_of_refiled h henabled hunit hw₁ hrefiled hw' hafull hvalue rfl _
  · intro x hx
    obtain ⟨after, w₁, w₂, db, hw₁, hrefiled, hsize, hw', hresult, hafull, hvalue, hcell⟩ :=
      hx.exists_refiled h henabled
    refine ⟨after, p.drops moment (x.run s unit w).2.cache, hresult, rfl,
      fun hp hroom key => ?_, hcell, ?_, fun q hasks hother y => ?_⟩
    · exact hp.keeps moment _ key (hasRoom_of_refiled hroom hw₁ hrefiled hsize hw')
    · exact State.rekeyed_of_refiled h henabled hunit hw₁ hrefiled hw' hafull hvalue (fun _ => id) _
    · exact State.hits_of_other henabled hw₁ hrefiled hw' h.cacheable hasks
        (fun key hkey => ⟨hother key hkey, by simp⟩) _ y

end

/-! ## Accounts -/

namespace Account

/-- An account as a row. -/
def row (email : String) (balance : Int32) : Row :=
  ⟨["id", "email", "balance"], [some (.uuid ⟨7⟩), some (.text email), some (.int balance)]⟩

/-- A unit was begun while the session cache has an account under both its keys. -/
def holding : State Unit where
  cache := SessionCache.put {}
    [entity.keyOf idNode (.uuid ⟨7⟩), entity.keyOf emailNode (.text "a@b")] (row "a@b" 10)
  units := ⟨[{ label := "moving", parent := none }]⟩
  database := ()

/-- The account has one address, and gets another one. -/
theorem replaces_row :
    entity.Replaces (row "a@b" 10) emailNode (.text "a@b") (.text "c@d") :=
  ⟨by decide, by decide, rfl, rfl, by decide +kernel⟩

theorem asksFor_bareBalanceOf (email : String) :
    (bareBalanceOf email).AsksFor compliant.prepare entity emailNode (.text email) :=
  ⟨⟨_, rfl⟩, fun m hm => by rw [List.mem_singleton.1 hm], rfl, List.mem_singleton_self _⟩

theorem get?_holding :
    holding.cache.get? [entity.keyOf idNode (.uuid ⟨7⟩)] = some (row "a@b" 10) := by
  rw [SessionCache.get?_singleton]
  exact (SessionCache.rows_put ..).trans (if_pos (List.mem_cons_self ..))

theorem lookup_holding (keys : List String) : holding.units.lookup 0 keys = .missing := by
  rw [Units.lookup, Units.find?_of_parent (u := { label := "moving", parent := none }) rfl rfl,
    UnitOfWork.find?, List.findSome?_eq_none_iff.2 fun _ _ => Std.ExtTreeMap.getElem?_empty]

theorem gives_readdress : (readdress ⟨7⟩ "c@d").Gives compliant (some 0) holding entity
    (row "a@b" 10) emailNode (.text "c@d") :=
  ⟨rfl, ⟨_, rfl, rfl⟩, .inr ⟨lookup_holding _, get?_holding⟩, rfl⟩

theorem gives_opening : (opening ⟨7⟩ "c@d" 20).Gives compliant none holding entity
    (row "a@b" 10) emailNode (.text "c@d") := by
  have hkeys : entity.shapeKeys ((opening ⟨7⟩ "c@d" 20).row compliant.prepare).valueAt =
      [entity.keyOf idNode (.uuid ⟨7⟩), entity.keyOf emailNode (.text "c@d")] := by
    decide +kernel
  refine ⟨rfl, ⟨_, rfl, rfl⟩, ?_, rfl⟩
  rw [hkeys]
  show holding.cache.get? _ = _
  rw [SessionCache.get?_cons, ← SessionCache.get?_singleton, get?_holding, Option.some_or]

/-- A row with an address and a balance answers the lookup of its balance. -/
theorem accepts_bareBalanceOf {r : Row} {email : String} (hfull : r.IsFull)
    (hemail : r.valueAt emailNode = some (.text email)) (hbalance : r.cell? "balance" ≠ none) :
    ((bareBalanceOf email).single.plan compliant.prepare).accepts r = .ok true := by
  obtain ⟨b, hb, hiff⟩ := ((bareBalanceOf email).single.plan compliant.prepare).accepts_spec hfull
  rw [hb, hiff.2 ⟨fun m hm => ?_, fun m v hv => ?_⟩]
  · rw [List.mem_singleton.1 hm]
    exact hbalance
  · have hmv : (m, v) = (emailNode, .text email) := List.mem_singleton.1 hv
    rw [Prod.mk.injEq] at hmv
    rw [hmv.1, hmv.2]
    exact ⟨.text email, Row.valueAt_eq_some.1 hemail, by simp [Value.agrees]⟩

/-- In the unit the account is found by its new address, and gone from the old one. An account that
is opened once more outside of it, with another address, is still found by the old one. -/
theorem answered_readdressed :
    (∃ after, (bareBalanceOf "c@d").IsAnsweredBy compliant (some 0)
        (((readdress ⟨7⟩ "c@d").run compliant (some 0) holding).2.settle .ofCapacity 0) after ∧
      after.valueAt emailNode = some (.text "c@d")) ∧
    (bareBalanceOf "a@b").FindsNothing compliant (some 0)
      (((readdress ⟨7⟩ "c@d").run compliant (some 0) holding).2.settle .ofCapacity 0) ∧
    (bareBalanceOf "a@b").IsAnsweredBy compliant none
      (((opening ⟨7⟩ "c@d" 20).run compliant none holding).2.settle .ofCapacity 0)
        (row "a@b" 10) := by
  have hunit : ∀ i, some 0 = some i → ∃ u, holding.units.get? i = some u := by
    rintro i h
    rw [← Option.some.inj h]
    exact ⟨_, rfl⟩
  obtain ⟨after, kept, -, -, -, hcell, hrekeyed, hretires⟩ := (unique_value_changed compliant
    holding (some 0) .ofCapacity 0 replaces_row rfl hunit).1 _ gives_readdress
  obtain ⟨opened, lost, -, -, hlost, hopened, hnew, hkept⟩ := (unique_value_changed compliant
    holding none .ofCapacity 0 replaces_row rfl (by simp)).2 _ gives_opening
  have hid : after.valueAt idNode = some (.uuid ⟨7⟩) := by
    rw [Row.valueAt, hcell _ (by decide)]
    rfl
  have hfiled : (readdress ⟨7⟩ "c@d").filed compliant.prepare (some 0) entity after =
      [entity.keyOf idNode (.uuid ⟨7⟩), entity.keyOf idNode (.uuid ⟨7⟩),
        entity.keyOf emailNode (.text "c@d")] := by
    have hkeys : (readdress ⟨7⟩ "c@d").conditions.keys ⟨.update, some entity⟩ compliant.prepare =
        [entity.keyOf idNode (.uuid ⟨7⟩)] := by decide +kernel
    rw [RowUpdate.filed, hkeys, shapeKeys_readdressed hid hrekeyed.value, List.singleton_append]
  have haccepts := accepts_bareBalanceOf hrekeyed.full hrekeyed.value
    (by rw [hcell _ (by decide)]; exact fun hnone => absurd hnone (by decide))
  refine ⟨⟨after, ?_, hrekeyed.value⟩, ?_, ?_⟩
  · exact hrekeyed.found _ (asksFor_bareBalanceOf "c@d")
      ⟨_, List.mem_filter.2 ⟨hrekeyed.key, rfl⟩, rfl⟩ haccepts
  · refine hretires.inUnit rfl _ (asksFor_bareBalanceOf "a@b")
      ⟨entity.keyOf emailNode (.text "a@b"), List.mem_filter.2 ⟨?_, ?_⟩, rfl⟩
    · exact Entity.keyOf_mem_shapeKeys replaces_row.unique replaces_row.value
    · rw [hfiled]
      decide +kernel
  · have hkeys : entity.shapeKeys opened.valueAt = _ := shapeKeys_readdressed
      (by rw [Row.valueAt, hopened]; rfl) hnew.value
    have hroom : holding.cache.HasRoom entity.keyShapes.length := by decide +kernel
    refine (asksFor_bareBalanceOf "a@b").isAnsweredBy
      ((hkept _ (asksFor_bareBalanceOf "a@b") (fun key hkey => ?_) _).2 ?_)
    · rw [hkeys, show key = entity.keyOf emailNode (.text "a@b") from List.mem_singleton.1 hkey]
      decide +kernel
    · rw [State.lose, SessionCache.evict_of_forall (hlost Evictor.isDocumented_ofCapacity hroom)]
      refine ((asksFor_bareBalanceOf "a@b").hits_outside (by decide) rfl).2 ⟨?_, ?_⟩
      · show holding.cache.get? [entity.keyOf emailNode (.text "a@b")] = _
        rw [SessionCache.get?_singleton]
        exact (SessionCache.rows_put ..).trans (if_pos (by simp))
      · exact accepts_bareBalanceOf rfl replaces_row.value (by decide)

end Account

end WideRow
