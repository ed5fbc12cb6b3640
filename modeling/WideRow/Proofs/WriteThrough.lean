import WideRow.Operation.RowDelete
import WideRow.Operation.RowInsert
import WideRow.Proofs.RowView

/-!
# How the caches follow a write

What the caches do after a write that was carried out hangs on a few questions: whether it ran in a
unit, whether the session cache admits the row, and whether there are keys to find the row by. Here
is an equation for each answer. Which row goes under which keys is another matter.

Without keys, an UPDATE and a DELETE may have changed any row, so that the whole table goes
(`RowUpdate.writeThrough_of_no_keys`, `RowDelete.writeThrough_of_truncate`). A DELETE in a unit
whose filters give no keys makes the unit forget the table, but the session cache keeps it
(`RowDelete.writeThrough_of_no_keys`).
-/

namespace WideRow

section

variable {σ : Type} {w : State σ} {prepare : ValuePreparer} {e : Entity} {i : Nat}

/-! ## Inserts -/

/-- A row without keys goes nowhere. -/
theorem RowInsert.writeThrough_of_no_keys {x : RowInsert} (he : x.entity = .ok e)
    (hkeys : (⟨.update, some e⟩ : CachePolicy).keysOfRow (x.row prepare) = .ok [])
    (unit : Option Nat) : x.writeThrough prepare unit w = (.ok (), w) := by
  unfold writeThrough
  simp only [he, hkeys, List.isEmpty_nil, if_true]

/-- A cache that does not admit the row is left alone. -/
theorem RowInsert.writeThrough_of_refused {x : RowInsert} (he : x.entity = .ok e)
    {keys : List String}
    (hkeys : (⟨.update, some e⟩ : CachePolicy).keysOfRow (x.row prepare) = .ok keys)
    (hadmits : ¬ (⟨.update, some e⟩ : CachePolicy).admits w.cache = true) :
    x.writeThrough prepare none w = (.ok (), w) := by
  unfold writeThrough
  simp only [he, hkeys, hadmits, Bool.false_eq_true, if_false, ite_self]

/-! ## Updates -/

/-- A cache that does not admit the entity sees nothing of an update. -/
theorem RowUpdate.writeThrough_of_refused {u : RowUpdate} (he : u.entity = .ok e)
    (hadmits : ¬ (⟨.update, some e⟩ : CachePolicy).admits w.cache = true) :
    u.writeThrough prepare none w = (.ok (), w) := by
  unfold writeThrough
  simp only [he, hadmits, Bool.false_eq_true, if_false]

/-- A cache that admits the row merges what the UPDATE tells into it. -/
theorem RowUpdate.writeThrough_of_admitted {u : RowUpdate} (he : u.entity = .ok e)
    (hadmits : (⟨.update, some e⟩ : CachePolicy).admits w.cache = true) {known : Row}
    (hknown : Row.empty.setAll (u.known prepare) = .ok known) {result : Except Error Unit}
    {c : SessionCache}
    (hmerge : (⟨.update, some e⟩ : CachePolicy).merge w.cache
      (u.conditions.keys ⟨.update, some e⟩ prepare) known u.unknown = (result, c)) :
    u.writeThrough prepare none w = (result, { w with cache := c }) := by
  unfold writeThrough
  simp only [he, hadmits, if_true, hknown, hmerge]

/-- All rows of the table go. -/
theorem RowUpdate.writeThrough_of_no_keys_outside {u : RowUpdate} (he : u.entity = .ok e)
    (hadmits : (⟨.update, some e⟩ : CachePolicy).admits w.cache = true)
    (hkeys : u.conditions.keys ⟨.update, some e⟩ prepare = []) :
    u.writeThrough prepare none w =
      (.ok (), { w with cache := w.cache.invalidateSchema e.table.name }) := by
  obtain ⟨known, hknown, -⟩ := Row.setAll_spec Row.isFull_empty (u.known prepare)
  exact writeThrough_of_admitted he hadmits hknown (by rw [hkeys]; rfl)

/-- All rows of the table go from both caches, whether the session cache admits them or not. -/
theorem RowUpdate.writeThrough_of_no_keys {u : RowUpdate} (he : u.entity = .ok e)
    (hkeys : u.conditions.keys ⟨.update, some e⟩ prepare = []) :
    u.writeThrough prepare (some i) w = (.ok (), { w.modifyUnit i (·.evictSchema e.table.name) with
      cache := w.cache.invalidateSchema e.table.name }) := by
  unfold writeThrough
  simp only [he, hkeys, List.isEmpty_nil, if_true]

/-! ## Deletes -/

/-- Outside units a delete evicts its keys, or the table. -/
theorem RowDelete.writeThrough_outside {d : RowDelete} {c : SessionCache}
    (hevict : (⟨.delete, some d.entity⟩ : CachePolicy).evict w.cache (if d.isTruncate then []
      else d.conditions.keys ⟨.delete, some d.entity⟩ prepare) = .ok c) :
    d.writeThrough prepare none w = (.ok (), { w with cache := c }) := by
  unfold writeThrough
  simp only [hevict]

/-- All rows of the table go from both caches. -/
theorem RowDelete.writeThrough_of_truncate {d : RowDelete} (htruncate : d.isTruncate = true) :
    d.writeThrough prepare (some i) w =
      (.ok (), { w.modifyUnit i (·.evictSchema d.entity.table.name) with
        cache := w.cache.invalidateSchema d.entity.table.name }) := by
  unfold writeThrough
  simp only [htruncate, if_true]

/-- The unit forgets the table. -/
theorem RowDelete.writeThrough_of_no_keys {d : RowDelete} (hrows : d.isTruncate = false)
    (hkeys : d.conditions.keys ⟨.delete, some d.entity⟩ prepare = []) :
    d.writeThrough prepare (some i) w =
      (.ok (), w.modifyUnit i (·.evictSchema d.entity.table.name)) := by
  unfold writeThrough
  simp only [hrows, Bool.false_eq_true, if_false, hkeys, List.isEmpty_nil, if_true]

/-- The unit marks all keys that are known of the row, unless the row has none to be read. -/
theorem RowDelete.writeThrough_of_keys {d : RowDelete} (hrows : d.isTruncate = false)
    (hkeys : d.conditions.keys ⟨.delete, some d.entity⟩ prepare ≠ []) :
    d.writeThrough prepare (some i) w =
      match deletedKeys ⟨.delete, some d.entity⟩
        (d.conditions.keys ⟨.delete, some d.entity⟩ prepare) i w.units w.cache with
      | .error e => (.error e, w)
      | .ok all => (.ok (), w.modifyUnit i (·.put all .deleted)) := by
  unfold writeThrough
  cases hall : deletedKeys ⟨.delete, some d.entity⟩
      (d.conditions.keys ⟨.delete, some d.entity⟩ prepare) i w.units w.cache with
  | error _ => simp only [hrows, Bool.false_eq_true, if_false, List.isEmpty_iff, hkeys, hall]
  | ok all => simp only [hrows, Bool.false_eq_true, if_false, List.isEmpty_iff, hkeys, hall]

end

end WideRow
