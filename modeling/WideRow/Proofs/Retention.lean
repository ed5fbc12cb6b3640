import WideRow.Proofs.Keys
import WideRow.Session

/-!
# What the session cache retains

The library in whose care the cached rows are drops entries by itself (`Evictor`), at any moment
and without saying so. Whatever it drops, the cache has no row afterwards that it did not have under
the same key before (`SessionCache.rows_evict`), so that what is true of every cached row stays
true. That a row is still there can only be told of a cache with room:

> `Evictor.settle_of_room`: from a cache that has room, a library that keeps its promise drops
> nothing.

Room is not lost but by putting rows in: a put takes at most one place for each key
(`SessionCache.size_put_le`), and everything else gives places back.
-/

namespace WideRow

namespace SessionCache

variable {c c' c'' : SessionCache} {n m : Nat}

/-- Two caches differ in their rows at most. -/
structure SameSettings (c c' : SessionCache) : Prop where
  isEnabled : c'.isEnabled = c.isEnabled
  maxCapacity : c'.maxCapacity = c.maxCapacity
  timeToLive : c'.timeToLive = c.timeToLive

theorem SameSettings.refl (c : SessionCache) : c.SameSettings c := ⟨rfl, rfl, rfl⟩

/-- Settings are kept from step to step. -/
theorem SameSettings.trans (h : c.SameSettings c') (h' : c'.SameSettings c'') :
    c.SameSettings c'' :=
  ⟨h'.isEnabled.trans h.isEnabled, h'.maxCapacity.trans h.maxCapacity,
    h'.timeToLive.trans h.timeToLive⟩

theorem SameSettings.symm (h : c.SameSettings c') : c'.SameSettings c :=
  ⟨h.isEnabled.symm, h.maxCapacity.symm, h.timeToLive.symm⟩

/-- A cache is its settings and its rows. -/
theorem ext (h : c.SameSettings c') (hrows : ∀ key : String, c.rows[key]? = c'.rows[key]?) :
    c = c' := by
  obtain ⟨enabled, capacity, live, rows⟩ := c
  obtain ⟨enabled', capacity', live', rows'⟩ := c'
  obtain ⟨rfl, rfl, rfl⟩ := h
  obtain rfl : rows = rows' := Std.ExtTreeMap.ext_getElem? fun key => hrows key
  rfl

/-! ## Entries that go -/

/-- Entries that go leave the settings. -/
theorem sameSettings_evict (c : SessionCache) (lost : String → Bool) :
    c.SameSettings (c.evict lost) := ⟨rfl, rfl, rfl⟩

/-- An entry that is lost is gone, and all others stay. -/
theorem rows_evict (c : SessionCache) (lost : String → Bool) (key : String) :
    (c.evict lost).rows[key]? = if lost key = true then none else c.rows[key]? := by
  rw [evict, Std.ExtTreeMap.getElem?_filter']
  cases lost key <;> cases c.rows[key]? <;> rfl

/-- A row that is left was there before. -/
theorem of_rows_evict {lost : String → Bool} {key : String} {r : Row}
    (h : (c.evict lost).rows[key]? = some r) : lost key = false ∧ c.rows[key]? = some r := by
  rw [rows_evict] at h
  cases hlost : lost key with
  | true => simp [hlost] at h
  | false => exact ⟨rfl, by simpa [hlost] using h⟩

/-- If nothing is lost the cache stays as it is. -/
theorem evict_of_forall {lost : String → Bool} (h : ∀ key, lost key = false) : c.evict lost = c :=
  ext ⟨rfl, rfl, rfl⟩ fun key => by simp [rows_evict, h]

/-- Entries that go at two moments might as well go at one. -/
theorem evict_evict (c : SessionCache) (lost lost' : String → Bool) :
    (c.evict lost).evict lost' = c.evict fun key => lost key || lost' key :=
  ext ⟨rfl, rfl, rfl⟩ fun key => by
    simp only [rows_evict]
    cases lost key <;> cases lost' key <;> rfl

/-- A cache is what is left of another one after entries went, those of some keys not among
them. -/
def IsLeftOf (c' c : SessionCache) (keys : List String) : Prop :=
  ∃ lost, c' = c.evict lost ∧ ∀ key ∈ keys, lost key = false

namespace IsLeftOf

variable {keys : List String}

theorem refl (c : SessionCache) (keys : List String) : c.IsLeftOf c keys :=
  ⟨fun _ => false, (evict_of_forall fun _ => rfl).symm, fun _ _ => rfl⟩

theorem sameSettings (h : c'.IsLeftOf c keys) : c.SameSettings c' := by
  obtain ⟨lost, rfl, -⟩ := h
  exact c.sameSettings_evict lost

/-- Entries may go in several steps, as long as those that matter stay in each. -/
theorem evict (h : c'.IsLeftOf c keys) {lost : String → Bool}
    (hkept : ∀ key ∈ keys, lost key = false) : (c'.evict lost).IsLeftOf c keys := by
  obtain ⟨before, rfl, hbefore⟩ := h
  refine ⟨_, c.evict_evict before lost, fun key hkey => ?_⟩
  rw [hbefore key hkey, hkept key hkey, Bool.false_or]

end IsLeftOf

/-! ## Room -/

/-- The cache does not grow when entries go. -/
theorem size_evict_le (c : SessionCache) (lost : String → Bool) : (c.evict lost).size ≤ c.size :=
  Std.ExtTreeMap.size_filter_le_size

/-- It does not grow when a table is dropped. -/
theorem size_invalidateSchema_le (c : SessionCache) (schema : String) :
    (c.invalidateSchema schema).size ≤ c.size := Std.ExtTreeMap.size_filter_le_size

theorem size_invalidate_le (c : SessionCache) (keys : List String) :
    (c.invalidate keys).size ≤ c.size := by
  induction keys generalizing c with
  | nil => exact Nat.le_refl _
  | cons key keys ih =>
    have hfirst : (c.invalidate [key]).size ≤ c.size := Std.ExtTreeMap.size_erase_le
    exact Nat.le_trans (ih (c.invalidate [key])) hfirst

/-- A row takes one place for each of its keys at most, fewer where it replaces another one. -/
theorem size_put_le (c : SessionCache) (keys : List String) (r : Row) :
    (c.put keys r).size ≤ c.size + keys.length := by
  induction keys generalizing c with
  | nil => exact Nat.le_refl _
  | cons key keys ih =>
    have hfirst : (c.put [key] r).size ≤ c.size + 1 := Std.ExtTreeMap.size_insert_le
    have hrest : (c.put (key :: keys) r).size ≤ (c.put [key] r).size + keys.length :=
      ih (c.put [key] r)
    rw [List.length_cons]
    omega

/-- A cache of the same settings has room for what it does not need more places for. -/
theorem HasRoom.of_size_le (h : c.HasRoom n) (hsame : c.SameSettings c')
    (hsize : c'.size + m ≤ c.size + n) : c'.HasRoom m := by
  refine ⟨hsame.timeToLive.trans h.1, ?_⟩
  rw [hsame.maxCapacity]
  exact Nat.le_trans hsize h.2

/-- A cache with room still has room after entries went. -/
theorem HasRoom.evict (h : c.HasRoom n) (lost : String → Bool) : (c.evict lost).HasRoom n :=
  h.of_size_le (c.sameSettings_evict lost) (Nat.add_le_add_right (c.size_evict_le lost) n)

end SessionCache

/-! ## The library -/

namespace Evictor

variable {p : Evictor} {c : SessionCache}

/-- From a cache that has room nothing is dropped. -/
theorem settle_of_room (hp : p.IsDocumented) (h : c.HasRoom) (moment : Nat) :
    p.settle moment c = c :=
  SessionCache.evict_of_forall fun key => hp.keeps moment c key h

/-- Whatever else goes from a cache, the entries of some keys stay. -/
def Spares (p : Evictor) (c : SessionCache) (keys : List String) : Prop :=
  ∀ c' : SessionCache, c'.IsLeftOf c keys → ∀ moment, ∀ key ∈ keys, p.drops moment c' key = false

/-- What the library spares is there when it is done. -/
theorem Spares.settle {keys : List String} (h : p.Spares c keys) {c' : SessionCache}
    (hleft : c'.IsLeftOf c keys) (moment : Nat) : (p.settle moment c').IsLeftOf c keys :=
  hleft.evict (h c' hleft moment)

/-- Drops what does not fit, the entries of the greatest keys. -/
def ofCapacity : Evictor where
  drops _ c key := !decide c.HasRoom && !(c.rows.keys.take c.maxCapacity).contains key

/-- To drop what does not fit is in keeping with the documentation. -/
theorem isDocumented_ofCapacity : ofCapacity.IsDocumented where
  keeps moment c key hroom := by
    simp only [ofCapacity, decide_eq_true hroom, Bool.not_true, Bool.false_and]

end Evictor

/-! ## States -/

namespace State

variable {σ : Type} {w : State σ} {p : Evictor}

/-- A state after the entries of some keys were dropped from the session cache. -/
def lose (w : State σ) (lost : String → Bool) : State σ :=
  { w with cache := w.cache.evict lost }

/-- A state after a moment at which the library may have dropped entries. -/
def settle (w : State σ) (p : Evictor) (moment : Nat) : State σ := w.lose (p.drops moment w.cache)

end State

end WideRow
