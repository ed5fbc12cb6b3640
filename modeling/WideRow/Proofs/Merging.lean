import WideRow.Proofs.Mirror
import WideRow.Proofs.Resolution

/-!
# What a write makes of a cached row

After an applied write the caches lay what was written over the row that they know. This module says
what comes of it for entities of any keys, as long as the row that is known has as many cells as
columns. The new row is told cell by cell (`RowUpdate.exists_following`), and so is where it goes:

> outside of units the session cache takes the row under its own keys, and an UPDATE drops it from
> the keys that it had before (`RowUpdate.writeThrough_outside`, `RowInsert.writeThrough_outside`);
> in a unit an UPDATE puts its row under the keys of its filters as well, and marks it as gone under
> the keys that are left (`RowUpdate.writeThrough_in_unit`); an INSERT only adds the new keys.
-/

namespace WideRow

/-! ## Updates -/

/-- The row that an UPDATE in a unit changes: the one that the unit knows or, where it knows
nothing, that of the session cache. -/
def RowUpdate.before (policy : CachePolicy) (keys : List String) (i : Nat) (us : Units)
    (c : SessionCache) : Row :=
  match us.lookup i keys with
  | .found r => r
  | .deleted => .empty
  | .missing => if policy.admits c then (c.get? keys).getD .empty else .empty

/-- The row that an UPDATE makes of the one before. -/
def RowUpdate.following (u : RowUpdate) (prepare : ValuePreparer) (before : Row) :
    Except Error Row := do
  let known ← Row.empty.setAll (u.known prepare)
  (← before.merge known).removeAll u.unknown

/-- An update lays what it sets over the old row, and files the result anew. -/
theorem RowUpdate.followInUnit_eq (u : RowUpdate) (prepare : ValuePreparer)
    (policy : CachePolicy) (keys : List String) (i : Nat) (us : Units) (c : SessionCache) :
    u.followInUnit prepare policy keys i us c = (do
      let previous ← policy.keysOfRow (before policy keys i us c)
      let known ← Row.empty.setAll (u.known prepare)
      let after ← (← (before policy keys i us c).merge known).removeAll u.unknown
      let facets ← policy.facetsOfRow after
      let all := keys ++ Facet.keys facets
      let stale := previous.filter fun k => !all.contains k
      let promote := policy.entity.any (·.isCacheable) && facets.length ≥ Facet.leastForSession
      return us.modify i fun unit => (unit.put stale .deleted).put all (.row after promote)) := rfl

/-- The row after an UPDATE has what the update tells of a column; other columns are as they were,
if the update leaves them known. -/
theorem RowUpdate.exists_following (u : RowUpdate) (prepare : ValuePreparer) {before : Row}
    (h : before.IsFull) : ∃ after, u.following prepare before = .ok after ∧ after.IsFull ∧
      ∀ d, d ∉ u.unknown → after.cell? d = (u.told prepare d).or (before.cell? d) := by
  obtain ⟨known, hknown, hkfull, hkcell, hkonce⟩ :=
    Row.setAll_spec Row.isFull_empty (u.known prepare)
  obtain ⟨merged, hmerged, hfull, hmcell, -⟩ := Row.merge_spec h known
  obtain ⟨after, hafter, hfull', -⟩ := Row.exists_removeAll hfull u.unknown
  refine ⟨after, bind_eq_ok.2 ⟨known, hknown, ?_⟩, hfull', fun d hd => ?_⟩
  · exact bind_eq_ok.2 ⟨merged, hmerged, hafter⟩
  · rw [Row.cell?_removeAll hfull hafter hd, hmcell,
      Row.lookup_reverse_of_hasOnce hkfull fun d => hkonce d (Row.hasOnce_empty d), hkcell, told,
      if_neg hd]
    exact congrArg (Option.or · _) Option.or_none

/-- A unit in which a row goes under its keys now, and is gone from all others that it had. -/
def UnitOfWork.refile (unit : UnitOfWork) (previous keys : List String) (entry : UnitEntry) :
    UnitOfWork :=
  (unit.put (previous.filter fun k => !keys.contains k) .deleted).put keys entry

/-- New keys have the new row, and old keys that are no longer keys of it a tombstone. -/
theorem UnitOfWork.entries_refile (unit : UnitOfWork) (previous keys : List String)
    (entry : UnitEntry) (key : String) : (unit.refile previous keys entry).entries[key]? =
      if key ∈ keys then some entry
      else if key ∈ previous then some .deleted else unit.entries[key]? := by
  rw [refile, entries_put, entries_put]
  by_cases hkey : key ∈ keys
  · rw [if_pos hkey, if_pos hkey]
  · simp [hkey]

section

variable {σ : Type} {w : State σ} {prepare : ValuePreparer} {e : Entity} {i : Nat}
  {keys : List String}

/-- What an UPDATE of one row leaves in a unit: its row, under the keys of its filters and those
that the row binds, and under all other keys of the row before that it is gone. -/
theorem RowUpdate.writeThrough_in_unit {u : RowUpdate} (he : u.entity = .ok e)
    (hkeys : u.conditions.keys ⟨.update, some e⟩ prepare = keys) (hsome : keys ≠ [])
    {before after : Row}
    (hbefore : RowUpdate.before ⟨.update, some e⟩ keys i w.units w.cache = before)
    (hbfull : before.IsFull) (hafter : u.following prepare before = .ok after)
    (hafull : after.IsFull) :
    ∃ promote, u.writeThrough prepare (some i) w = (.ok (), w.modifyUnit i fun unit =>
      unit.refile (e.shapeKeys before.valueAt) (keys ++ e.shapeKeys after.valueAt)
        (.row after promote)) := by
  subst hbefore
  have hprevious := Entity.keysOfRow_of_full (e := e) .update hbfull
  have hfacets : (⟨.update, some e⟩ : CachePolicy).facetsOfRow after = _ :=
    Entity.facetsOfRow_of_full hafull
  obtain ⟨known, hknown, hrest⟩ := bind_eq_ok.1 hafter
  obtain ⟨merged, hmerged, hremoved⟩ := bind_eq_ok.1 hrest
  refine ⟨e.isCacheable && (e.shapeFacets after.valueAt).length + 1 ≥ Facet.leastForSession, ?_⟩
  unfold RowUpdate.writeThrough
  simp only [he, hkeys, List.isEmpty_iff, hsome, if_false, RowUpdate.followInUnit_eq, hprevious,
    hknown, hmerged, hremoved, hfacets, bind, Except.bind, pure, Except.pure,
    Entity.keys_shapeFacets]
  rfl

/-- What an UPDATE of one row leaves in the session cache: its row, under the keys that it binds. -/
theorem RowUpdate.writeThrough_outside {u : RowUpdate} (he : u.entity = .ok e)
    (hkeys : u.conditions.keys ⟨.update, some e⟩ prepare = keys) (hsome : keys ≠ [])
    (hadmits : (⟨.update, some e⟩ : CachePolicy).admits w.cache = true) {before after : Row}
    (hbefore : (w.cache.get? keys).getD .empty = before) (hbfull : before.IsFull)
    (hafter : u.following prepare before = .ok after) (hafull : after.IsFull) :
    u.writeThrough prepare none w = (.ok (), { w with
      cache := (w.cache.invalidate (e.shapeKeys before.valueAt)).put (e.shapeKeys after.valueAt)
        after }) := by
  subst hbefore
  have hprevious := Entity.keysOfRow_of_full (e := e) .update hbfull
  obtain ⟨known, hknown, hrest⟩ := bind_eq_ok.1 hafter
  obtain ⟨merged, hmerged, hremoved⟩ := bind_eq_ok.1 hrest
  obtain ⟨b, hupdate⟩ := Entity.update_of_full (e := e) .update
    (w.cache.invalidate (e.shapeKeys ((w.cache.get? keys).getD .empty).valueAt)) hafull
  unfold RowUpdate.writeThrough CachePolicy.merge
  simp only [he, hkeys, hadmits, if_true, hknown, List.isEmpty_iff, hsome, if_false, hprevious,
    hmerged, hremoved, bind, Except.bind, pure, Except.pure, hupdate]

/-! ## Inserts -/

/-- An insert lays the written row over what is known. -/
theorem RowInsert.followInUnit_eq (policy : CachePolicy) (inserted : Row) (keys : List String)
    (i : Nat) (us : Units) : followInUnit policy inserted keys i us = (do
      let after ← (us.lookup i keys).shown.merge inserted
      let facets ← policy.facetsOfRow after
      let promote := policy.entity.any (·.isCacheable) && facets.length ≥ Facet.leastForSession
      return us.modify i (·.put (Facet.keys facets) (.row after promote))) := by
  unfold followInUnit
  cases us.lookup i keys <;> rfl

/-- What an INSERT leaves in a unit: its row, under the keys that it binds. -/
theorem RowInsert.writeThrough_in_unit {x : RowInsert} (he : x.entity = .ok e)
    (hkeys : e.shapeKeys (x.row prepare).valueAt = keys) (hsome : keys ≠ []) {after : Row}
    (hafter : (w.units.lookup i keys).shown.merge (x.row prepare) = .ok after)
    (hafull : after.IsFull) :
    ∃ promote, x.writeThrough prepare (some i) w = (.ok (), w.modifyUnit i
      (·.put (e.shapeKeys after.valueAt) (.row after promote))) := by
  have hbound := Entity.keysOfRow_of_full (e := e) .update (Row.isFull_row_insert prepare x)
  have hfacets : (⟨.update, some e⟩ : CachePolicy).facetsOfRow after = _ :=
    Entity.facetsOfRow_of_full hafull
  refine ⟨e.isCacheable && (e.shapeFacets after.valueAt).length + 1 ≥ Facet.leastForSession, ?_⟩
  unfold RowInsert.writeThrough
  simp only [he, hbound, hkeys, List.isEmpty_iff, hsome, if_false, RowInsert.followInUnit_eq,
    hafter, hfacets, bind, Except.bind, pure, Except.pure, Entity.keys_shapeFacets]
  rfl

/-- What an INSERT leaves in the session cache: its row, under the keys that it binds. -/
theorem RowInsert.writeThrough_outside {x : RowInsert} (he : x.entity = .ok e)
    (hkeys : e.shapeKeys (x.row prepare).valueAt = keys) (hsome : keys ≠ [])
    (hadmits : (⟨.update, some e⟩ : CachePolicy).admits w.cache = true) {after : Row}
    (hafter : ((w.cache.get? keys).getD .empty).merge (x.row prepare) = .ok after)
    (hafull : after.IsFull) : x.writeThrough prepare none w = (.ok (), { w with
      cache := w.cache.put (e.shapeKeys after.valueAt) after }) := by
  have hbound := Entity.keysOfRow_of_full (e := e) .update (Row.isFull_row_insert prepare x)
  obtain ⟨b, hupdate⟩ := Entity.update_of_full (e := e) .update w.cache hafull
  unfold RowInsert.writeThrough RowInsert.followInSession
  simp only [he, hbound, hkeys, List.isEmpty_iff, hsome, if_false, hadmits, if_true, hafter, bind,
    Except.bind, pure, Except.pure, hupdate]

end

end WideRow
