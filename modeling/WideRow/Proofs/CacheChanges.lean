import Mathlib.Logic.Relation
import WideRow.Proofs.Filing
import WideRow.Proofs.OneTable

/-!
# How operations change the caches

Operations differ in when they change the caches and in what they put there, but not in what it is
to change them. Rows come into the session cache under some keys, and go from there by their keys or
with their table; in a unit rows come, keys are marked as deleted, and a table is forgotten. These
are the steps (`SessionCache.Change`, `State.Change`). Of each it is said which keys it may concern:
`N` is of the keys under which rows come that are in the session cache or would be published there,
and `M` is of all the keys that the step touches.

> `works_call`: an operation counts, logs and sends as it likes, but it changes the caches by such
> steps only. The rows that it publishes are under keys of its entity, if rows of this one may be
> cached, and whatever it touches is under keys of its table.

What is true of each step and can be chained is true of an operation, and no operation has to be
looked into for it.
-/

namespace WideRow

/-- A key begins as all keys of the entity's table do. -/
def Entity.Owns (e : Entity) (key : String) : Prop :=
  (Facet.schemaStart e.table.name).isPrefixOf key = true

/-- A key of an entity whose rows may be cached, if there is one. -/
def OfCacheable (e? : Option Entity) (key : String) : Prop :=
  ∃ e, e? = some e ∧ e.isCacheable = true ∧ e.Owns key

/-- A key is of the table of an entity, if there is one. -/
def OwnedBy (e? : Option Entity) (key : String) : Prop := ∃ e, e? = some e ∧ e.Owns key

namespace SessionCache

/-- One step by which the session cache changes. -/
inductive Change (N M : String → Prop) (c : SessionCache) : SessionCache → Prop
  /-- A row comes, while the cache is on. -/
  | put {keys : List String} (r : Row) (hon : c.isEnabled = true) (hnew : ∀ key ∈ keys, N key)
    (hkeys : ∀ key ∈ keys, M key) : Change N M c (c.put keys r)
  /-- Rows go by their keys. -/
  | invalidate {keys : List String} (hkeys : ∀ key ∈ keys, M key) : Change N M c (c.invalidate keys)
  /-- All rows of a table go. -/
  | invalidateSchema {e : Entity} (hkeys : ∀ key, e.Owns key → M key) :
    Change N M c (c.invalidateSchema e.table.name)

/-- The session cache changes step by step. -/
abbrev Changes (N M : String → Prop) : SessionCache → SessionCache → Prop :=
  Relation.ReflTransGen (Change N M)

end SessionCache

namespace State

variable {σ : Type}

/-- One step by which the caches of a state change. -/
inductive Change (N M : String → Prop) (w : State σ) : State σ → Prop
  | session {c : SessionCache} (h : w.cache.Change N M c) : Change N M w { w with cache := c }
  /-- A row comes into a unit. A commit may publish it. -/
  | hold (i : Nat) {keys : List String} (r : Row) {promote : Bool}
    (hnew : promote = true → ∀ key ∈ keys, N key) (hkeys : ∀ key ∈ keys, M key) :
    Change N M w (w.modifyUnit i (·.put keys (.row r promote)))
  /-- A unit marks keys as those of deleted rows. -/
  | mark (i : Nat) {keys : List String} (hkeys : ∀ key ∈ keys, M key) :
    Change N M w (w.modifyUnit i (·.put keys .deleted))
  /-- A unit forgets a table. -/
  | forget (i : Nat) {e : Entity} (hkeys : ∀ key, e.Owns key → M key) :
    Change N M w (w.modifyUnit i (·.evictSchema e.table.name))

/-- The caches of a state change step by step, and nothing else does. -/
abbrev Changes (N M : String → Prop) : State σ → State σ → Prop :=
  Relation.ReflTransGen (Change N M)

/-- The caches change step by step, and between the steps something is counted, logged or sent. -/
abbrev Works (N M : String → Prop) : State σ → State σ → Prop :=
  Relation.ReflTransGen fun w w' => w.Change N M w' ∨ ∃ db, w.Moved db w'

end State

/-! ## Keys of an entity -/

/-- A key begins with the name of the table that its facets name. -/
theorem Entity.owns_of_mem_keys {e : Entity} {facets : List Facet} {key : String}
    (hname : Facet.schemaName? facets = some e.table.name) (h : key ∈ Facet.keys facets) :
    e.Owns key := by
  rw [Facet.keys, hname] at h
  obtain ⟨f, -, rfl⟩ := List.mem_map.1 h
  exact String.startsWith_string_iff.2 (by simp)

/-- The facets of an entity name its table. -/
theorem Entity.schemaName?_facetsOfRow {e : Entity} {r : Row} {facets : List Facet}
    (h : e.facetsOfRow r = .ok facets) : Facet.schemaName? facets = some e.table.name := by
  unfold Entity.facetsOfRow Entity.facets at h
  obtain ⟨bound, -, h⟩ := bind_eq_ok.1 h
  rw [← Except.ok.inj h]
  rfl

/-- An entity files rows under keys of its own. -/
theorem Entity.owns_of_files {e : Entity} {r : Row} {key : String} (h : e.Files r key) :
    e.Owns key := by
  obtain ⟨facets, hfacets, hkey⟩ := h
  exact owns_of_mem_keys (schemaName?_facetsOfRow hfacets) hkey

/-- Filters ask for keys of their entity. -/
theorem Entity.owns_of_keys {e : Entity} {c : Conditions} {use : CacheUse}
    {prepare : ValuePreparer} {key : String} (h : key ∈ c.keys ⟨use, some e⟩ prepare) :
    e.Owns key := by
  unfold Conditions.keys at h
  split at h
  next => exact owns_of_mem_keys rfl h
  next => exact absurd h (by simp)

namespace CachePolicy

variable {p : CachePolicy} {r : Row} {key : String}

/-- A policy admits rows of cacheable entities to a cache that is switched on. -/
theorem of_admits {c : SessionCache} (h : p.admits c = true) :
    c.isEnabled = true ∧ p.entity.any (·.isCacheable) = true := by
  unfold admits at h
  exact Bool.and_eq_true_iff.1 h

/-- The keys that a policy gives a row are of its entity. -/
theorem ownedBy_of_keysOfRow {keys : List String} (h : p.keysOfRow r = .ok keys)
    (hkey : key ∈ keys) : OwnedBy p.entity key := by
  obtain ⟨e, he, hfiles⟩ := files_of_keysOfRow h hkey
  exact ⟨e, he, Entity.owns_of_files hfiles⟩

theorem ownedBy_of_facets {facets : List Facet} (h : p.facetsOfRow r = .ok facets)
    (hkey : key ∈ Facet.keys facets) : OwnedBy p.entity key :=
  ownedBy_of_keysOfRow (keysOfRow_of_facets h) hkey

/-- The keys of filters are of the table of the policy's entity. -/
theorem ownedBy_of_keys {c : Conditions} {prepare : ValuePreparer} (h : key ∈ c.keys p prepare) :
    OwnedBy p.entity key := by
  obtain ⟨use, entity⟩ := p
  cases entity with
  | some e => exact ⟨e, rfl, Entity.owns_of_keys h⟩
  | none =>
    unfold Conditions.keys at h
    split at h
    next => exact absurd h (by simp [facetsOfValues, Facet.keys, Facet.schemaName?])
    next => exact absurd h (by simp)

/-- A key of the policy's table is one of an entity that may be cached, if the policy's may. -/
theorem ofCacheable (hcacheable : p.entity.any (·.isCacheable) = true) (h : OwnedBy p.entity key) :
    OfCacheable p.entity key := by
  obtain ⟨e, he, howns⟩ := h
  rw [he, Option.any_some] at hcacheable
  exact ⟨e, he, hcacheable, howns⟩

end CachePolicy

/-! ## Steps of the session cache -/

section

variable {N M : String → Prop} {c c' : SessionCache} {keys : List String} {r : Row}

namespace CachePolicy

variable {p : CachePolicy}

/-- To evict keys is to drop keys of the entity, or its table. -/
theorem changes_evict (hkeys : ∀ key ∈ keys, OwnedBy p.entity key) (h : p.evict c keys = .ok c') :
    c.Changes N (OwnedBy p.entity) c' := by
  obtain ⟨use, entity⟩ := p
  unfold evict at h
  split at h
  next =>
    cases entity with
    | none =>
      rw [← Except.ok.inj h]
    | some e =>
      rw [← Except.ok.inj h]
      exact .single (.invalidateSchema fun _ howns => ⟨e, rfl, howns⟩)
  next =>
    cases hget : c.get? keys with
    | none =>
      rw [hget] at h
      rw [← Except.ok.inj h]
      exact .single (.invalidate hkeys)
    | some known =>
      rw [hget] at h
      obtain ⟨bound, hbound, h⟩ := bind_eq_ok.1 h
      rw [← Except.ok.inj h]
      -- the keys of the row that was found go too: whatever row it is, this policy made them
      refine .single (.invalidate fun key hkey => ?_)
      rcases List.mem_append.1 hkey with hkey | hkey
      · exact hkeys key hkey
      · exact ownedBy_of_keysOfRow hbound hkey

/-- A policy that admits rows puts them under keys of its entity. -/
theorem changes_update (hadmits : p.admits c = true) {b : Bool} (h : p.update c r = .ok (b, c')) :
    c.Changes (OfCacheable p.entity) (OwnedBy p.entity) c' := by
  obtain ⟨hon, hcacheable⟩ := of_admits hadmits
  obtain ⟨facets, hfacets, h⟩ := bind_eq_ok.1 h
  have howned : ∀ key ∈ Facet.keys facets, OwnedBy p.entity key :=
    fun _ hkey => ownedBy_of_facets hfacets hkey
  split at h
  next =>
    rw [← (Prod.mk.inj (Except.ok.inj h)).2]
  next =>
    rw [← (Prod.mk.inj (Except.ok.inj h)).2]
    exact .single (.put r hon (fun key hkey => ofCacheable hcacheable (howned key hkey)) howned)

/-- To merge is to put rows of a cacheable entity, or to drop keys of it. -/
theorem changes_merge (hadmits : p.admits c = true) (hkeys : ∀ key ∈ keys, OwnedBy p.entity key)
    (known : Row) (unknown : List String) :
    c.Changes (OfCacheable p.entity) (OwnedBy p.entity) (p.merge c keys known unknown).2 := by
  unfold merge
  split
  next =>
    split
    next c' hevict => exact changes_evict hkeys hevict
    next => exact .refl
  next =>
    dsimp only
    split
    next => exact .refl
    next previous after hmoved =>
      -- the old keys go first, and go even if the new row is not taken
      obtain ⟨bound, hbound, hmoved⟩ := bind_eq_ok.1 hmoved
      obtain ⟨merged, -, hmoved⟩ := bind_eq_ok.1 hmoved
      obtain ⟨left, -, hmoved⟩ := bind_eq_ok.1 hmoved
      obtain ⟨rfl, -⟩ := Prod.mk.inj (Except.ok.inj hmoved)
      have hdropped : c.Changes (OfCacheable p.entity) (OwnedBy p.entity) (c.invalidate bound) :=
        .single (.invalidate fun _ hkey => ownedBy_of_keysOfRow hbound hkey)
      split
      next => exact hdropped
      next b c' hupdate =>
        have hadmits' : p.admits (c.invalidate bound) = true := hadmits
        exact hdropped.trans (changes_update hadmits' hupdate)

end CachePolicy

/-- A row that was fetched is put under keys of its entity. -/
theorem PointQuery.Plan.changes_populateSession {p : Plan} (hadmits : p.policy.admits c = true)
    (h : p.populateSession r c = .ok c') :
    c.Changes (OfCacheable p.policy.entity) (OwnedBy p.policy.entity) c' := by
  rcases of_populateSession h with rfl | ⟨_, _, _, -, -, hupdate⟩
  · exact .refl
  · exact CachePolicy.changes_update hadmits hupdate

/-! ## Steps of a state -/

variable {σ : Type} {w w' : State σ} {i : Nat}

/-- What changes the session cache changes the state in that way. -/
theorem State.changes_cache (h : w.cache.Changes N M c) : w.Changes N M { w with cache := c } :=
  h.lift (fun c => { w with cache := c }) fun _ _ hchange =>
    .session (w := { w with cache := _ }) hchange

/-- A row that goes into a unit under keys of the policy's table, and is published only if the
policy's entity may be cached. -/
theorem State.changes_hold {p : CachePolicy} {promote : Bool}
    (hpromote : promote = true → p.entity.any (·.isCacheable) = true)
    (hkeys : ∀ key ∈ keys, OwnedBy p.entity key) :
    w.Changes (OfCacheable p.entity) (OwnedBy p.entity)
      (w.modifyUnit i (·.put keys (.row r promote))) :=
  .single (.hold i r (fun hyes key hkey => p.ofCacheable (hpromote hyes) (hkeys key hkey)) hkeys)

/-- A row that comes into a unit under other keys than it had there: these are marked. -/
theorem State.changes_move {p : CachePolicy} {stale : List String} {promote : Bool}
    (hstale : ∀ key ∈ stale, OwnedBy p.entity key)
    (hpromote : promote = true → p.entity.any (·.isCacheable) = true)
    (hkeys : ∀ key ∈ keys, OwnedBy p.entity key) :
    w.Changes (OfCacheable p.entity) (OwnedBy p.entity)
      (w.modifyUnit i fun u => (u.put stale .deleted).put keys (.row r promote)) := by
  have hunits : (w.units.modify i (·.put stale .deleted)).modify i (·.put keys (.row r promote)) =
      w.units.modify i fun u => (u.put stale .deleted).put keys (.row r promote) :=
    Units.modify_modify ..
  rw [State.modifyUnit, ← hunits]
  exact .head (.mark i hstale) (State.changes_hold hpromote hkeys)

/-- The unit forgets the table, and so does the session cache. -/
theorem State.changes_forget (e : Entity) :
    w.Changes N (OwnedBy (some e)) { w.modifyUnit i (·.evictSchema e.table.name) with
      cache := w.cache.invalidateSchema e.table.name } := by
  have howned : ∀ key, e.Owns key → OwnedBy (some e) key := fun _ howns => ⟨e, rfl, howns⟩
  exact .tail (.single (.forget i howned)) (.session (.invalidateSchema howned))

/-- A change is the work of the caches, without any statement. -/
theorem State.Changes.works (h : w.Changes N M w') : w.Works N M w' :=
  h.lift id fun _ _ => .inl

/-- A statement is work of which the caches see nothing. -/
theorem State.Moved.works {db : σ} (h : w.Moved db w') : w.Works N M w' := .single (.inr ⟨db, h⟩)

theorem ignoresCounts_works (w : State σ) : State.IgnoresCounts (w.Works N M) :=
  fun _ _ hmoved h => h.trans hmoved.works

/-! ## Operations -/

variable {s : Session σ} {unit : Option Nat}

/-- In a unit, an insert puts the written row, which goes on to the session cache only if its entity
is cacheable. -/
theorem RowInsert.changes_followInUnit {p : CachePolicy} {inserted : Row} {units : Units}
    (h : followInUnit p inserted keys i w.units = .ok units) :
    w.Changes (OfCacheable p.entity) (OwnedBy p.entity) { w with units } := by
  obtain ⟨after, -, h⟩ := bind_eq_ok.1 h
  obtain ⟨facets, hfacets, h⟩ := bind_eq_ok.1 h
  rw [← Except.ok.inj h]
  exact State.changes_hold (fun hpromote => (Bool.and_eq_true_iff.1 hpromote).1)
    fun _ hkey => CachePolicy.ownedBy_of_facets hfacets hkey

/-- An insert touches rows and keys of its entity only. -/
theorem RowInsert.changes_writeThrough (x : RowInsert) (prepare : ValuePreparer)
    (unit : Option Nat) (w : State σ) :
    w.Changes (OfCacheable x.entity.toOption) (OwnedBy x.entity.toOption)
      (x.writeThrough prepare unit w).2 := by
  unfold writeThrough
  cases he : x.entity with
  | error err => exact .refl
  | ok e =>
    dsimp only
    split
    next => exact .refl
    next keys hkeys =>
      split
      next => exact .refl
      next =>
        cases unit with
        | some i =>
          dsimp only
          split
          next => exact .refl
          next units hunits => exact changes_followInUnit hunits
        | none =>
          dsimp only
          split
          next hadmits =>
            split
            next => exact .refl
            next cache hcache =>
              obtain ⟨after, -, hcache⟩ := bind_eq_ok.1 hcache
              obtain ⟨⟨b, c⟩, hupdate, hc⟩ := bind_eq_ok.1 hcache
              rw [← Except.ok.inj hc]
              exact State.changes_cache (CachePolicy.changes_update hadmits hupdate)
          next => exact .refl

/-- The row goes under its own keys and those of the filters, all of which are of one table. The
keys that it no longer binds are of the table as well. -/
theorem RowUpdate.changes_followInUnit {u : RowUpdate} {prepare : ValuePreparer} {e : Entity}
    {units : Units}
    (h : u.followInUnit prepare ⟨.update, some e⟩ (u.conditions.keys ⟨.update, some e⟩ prepare) i
      w.units w.cache = .ok units) :
    w.Changes (OfCacheable (some e)) (OwnedBy (some e)) { w with units } := by
  obtain ⟨previous, hprevious, h⟩ := bind_eq_ok.1 h
  obtain ⟨known, -, h⟩ := bind_eq_ok.1 h
  obtain ⟨merged, -, h⟩ := bind_eq_ok.1 h
  obtain ⟨after, -, h⟩ := bind_eq_ok.1 h
  obtain ⟨facets, hfacets, h⟩ := bind_eq_ok.1 h
  rw [← Except.ok.inj h]
  refine State.changes_move (p := ⟨.update, some e⟩) ?_
    (fun hpromote => (Bool.and_eq_true_iff.1 hpromote).1) ?_
  · intro key hkey
    exact CachePolicy.ownedBy_of_keysOfRow hprevious (List.mem_filter.1 hkey).1
  · intro key hkey
    rcases List.mem_append.1 hkey with hkey | hkey
    · exact CachePolicy.ownedBy_of_keys hkey
    · exact CachePolicy.ownedBy_of_facets hfacets hkey

theorem RowUpdate.changes_writeThrough (u : RowUpdate) (prepare : ValuePreparer)
    (unit : Option Nat) (w : State σ) :
    w.Changes (OfCacheable u.entity.toOption) (OwnedBy u.entity.toOption)
      (u.writeThrough prepare unit w).2 := by
  unfold writeThrough
  cases he : u.entity with
  | error err => exact .refl
  | ok e =>
    cases unit with
    | none =>
      dsimp only
      split
      next hadmits =>
        split
        next => exact .refl
        next known hknown =>
          exact State.changes_cache (CachePolicy.changes_merge hadmits
            (fun _ hkey => CachePolicy.ownedBy_of_keys hkey) known u.unknown)
      next => exact .refl
    | some i =>
      dsimp only
      split
      next => exact State.changes_forget e
      next =>
        split
        next => exact .refl
        next units hunits => exact changes_followInUnit hunits

/-- A delete marks the keys of its filters, and those of the row that is known under them. -/
theorem RowDelete.ownedBy_of_deletedKeys {p : CachePolicy} {all : List String} {us : Units}
    (hkeys : ∀ key ∈ keys, OwnedBy p.entity key) (h : deletedKeys p keys i us c = .ok all) :
    ∀ key ∈ all, OwnedBy p.entity key := by
  rcases of_deletedKeys h with rfl | ⟨r, more, -, hmore, rfl⟩
  · exact hkeys
  · intro key hkey
    rcases List.mem_append.1 hkey with hkey | hkey
    · exact hkeys key hkey
    · exact CachePolicy.ownedBy_of_keysOfRow hmore hkey

/-- A delete publishes nothing. -/
theorem RowDelete.changes_writeThrough (d : RowDelete) (prepare : ValuePreparer)
    (unit : Option Nat) (w : State σ) :
    w.Changes N (OwnedBy (some d.entity)) (d.writeThrough prepare unit w).2 := by
  have hkeys : ∀ key ∈ (if d.isTruncate then []
      else d.conditions.keys ⟨.delete, some d.entity⟩ prepare), OwnedBy (some d.entity) key := by
    intro key hkey
    split at hkey
    next => exact absurd hkey (by simp)
    next => exact CachePolicy.ownedBy_of_keys hkey
  unfold writeThrough
  cases unit with
  | none =>
    dsimp only
    split
    next => exact .refl
    next c hevict =>
      exact State.changes_cache (CachePolicy.changes_evict (p := ⟨.delete, some d.entity⟩) hkeys
        hevict)
  | some i =>
    dsimp only
    split
    next => exact State.changes_forget d.entity
    next =>
      split
      next => exact .single (.forget i fun _ howns => ⟨d.entity, rfl, howns⟩)
      next =>
        split
        next => exact .refl
        next all hall =>
          exact .single (.mark i
            (ownedBy_of_deletedKeys (fun _ hkey => CachePolicy.ownedBy_of_keys hkey) hall))

/-- So does the storing of a row that was fetched in a unit. -/
theorem PointQuery.Plan.changes_populateUnit {p : Plan} {units : Units}
    (h : p.populateUnit r i w.units = .ok units) :
    w.Changes (OfCacheable p.policy.entity) (OwnedBy p.policy.entity) { w with units } := by
  rw [populateUnit_eq] at h
  obtain ⟨facets, hfacets, h⟩ := bind_eq_ok.1 h
  dsimp only at h
  split at h
  next =>
    rw [← Except.ok.inj h]
  next =>
    obtain ⟨merged, -, h⟩ := bind_eq_ok.1 h
    rw [← Except.ok.inj h]
    exact State.changes_hold (fun hpromote => (Bool.and_eq_true_iff.1 hpromote).1)
      fun _ hkey => CachePolicy.ownedBy_of_facets hfacets hkey

/-- A write works as the caches do that follow it. -/
theorem State.works_leaves {o : StatementOptions} {st : Statement}
    {through : State σ → Outcome σ Unit} (h : ∀ w₁ : State σ, w₁.Changes N M (through w₁).2) :
    s.Leaves (w.Works N M) w o st through where
  unapplied _ _ hw₁ := hw₁.works
  applied _ w₁ hw₁ := hw₁.works.trans (h w₁).works

/-- A lookup changes the caches for its entity only, and counts a hit or a miss. -/
theorem works_lookup {α : Type} (q : Query α) (s : Session σ) (unit : Option Nat) (w : State σ) :
    w.Works (OfCacheable q.entity.toOption) (OwnedBy q.entity.toOption)
      (q.single.run s unit w).2 := by
  cases unit with
  | none =>
    refine lookup_leaves_outside (ignoresCounts_works w) (fun _ _ => .refl)
      fun st hst => ⟨fun _ hw₁ => hw₁.works, fun _ hw₁ => hw₁.works, ?_⟩
    -- an answer is kept only for a cache that admits it
    intro hadmits answer r _ _ w₁ cache hw₁ hcache
    rw [← hw₁.cache] at hadmits
    exact hw₁.works.trans
      (State.changes_cache (PointQuery.Plan.changes_populateSession hadmits hcache)).works
  | some i =>
    refine lookup_leaves (ignoresCounts_works w) (fun _ _ => .refl)
      fun st hst => ⟨fun _ hw₁ => hw₁.works, fun _ hw₁ => hw₁.works, ?_, ?_⟩
    · -- the row of the session cache is not the unit's to publish
      intro _ r keys _ hkeys w₁ hw₁
      refine hw₁.works.trans (State.Changes.works (State.changes_hold ?_ fun _ hkey =>
        CachePolicy.ownedBy_of_keysOfRow hkeys hkey))
      exact fun hno => absurd hno (by simp)
    · intro _ answer r _ _ w₁ units hw₁ hunits
      exact hw₁.works.trans (PointQuery.Plan.changes_populateUnit hunits).works

/-- An operation changes the caches by steps that concern its own table, and publishes rows only of
an entity that may be cached. -/
theorem works_call (c : Call) (s : Session σ) (unit : Option Nat) (w : State σ) :
    w.Works (OfCacheable c.stores?) (OwnedBy c.entity?) (c.run s unit w).2 := by
  cases c with
  | lookup q => exact works_lookup q s unit w
  | read q => exact (moved_read q s unit w).works
  | count x => exact (moved_count x s unit w).works
  | insert x =>
    exact insert_leaves (ignoresCounts_works w) (fun _ _ => .refl) fun _ _ =>
      State.works_leaves (x.changes_writeThrough s.prepare unit)
  | update u =>
    exact update_leaves (ignoresCounts_works w) (fun _ _ => .refl) fun _ _ =>
      State.works_leaves (u.changes_writeThrough s.prepare unit)
  | delete d =>
    exact delete_leaves (ignoresCounts_works w) (fun _ _ => .refl) fun _ _ =>
      State.works_leaves (d.changes_writeThrough s.prepare unit)

/-- An item that is put into the cache by hand. -/
theorem changes_updateCache {α : Type} (s : Session σ) (m : Mapping α) (item : α) (w : State σ) :
    w.Changes (OfCacheable (some m.entity)) (OwnedBy (some m.entity))
      (s.updateCache m item w).2 := by
  unfold Session.updateCache
  dsimp only
  split
  next hadmits =>
    split
    next b c hupdated =>
      obtain ⟨cells, -, hupdate⟩ := bind_eq_ok.1 hupdated
      exact State.changes_cache (CachePolicy.changes_update hadmits hupdate)
    next => exact .refl
  next => exact .refl

end

end WideRow
