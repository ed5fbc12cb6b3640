import WideRow.Proofs.Merging
import WideRow.Proofs.Upkeep

/-!
# The rows of a unit

Where the entities have one key column, a unit has at most one row of a record, under the key of the
record. This module says what the operations make of it: what an INSERT or an UPDATE puts into the
unit (`Inserts.writeThrough`, `writeThrough_of_values`), and what a lookup puts there of a row that
it has read (`populateUnit_of_binds`). The row that goes in is one that a commit publishes, if the
entity may be cached at all, because it has the key to be found by (`facets_of_binds`).

The row that was there before is right as far as it mirrors the record, `Keyring.Mirrored`; that is
all that is asked of it, so that the lemmas serve whatever is known of the other entries.
-/

namespace WideRow

/-- The row that a delete by one key knows is the unit's or that of the session cache. -/
theorem RowDelete.of_known? {key : String} {i : Nat} {us : Units} {c : SessionCache} {r : Row}
    (h : known? [key] i us c = some r) :
    (∃ b, us.find? i [key] = some (.row r b)) ∨ c.rows[key]? = some r := by
  rw [known?, SessionCache.get?_singleton] at h
  cases hlookup : us.lookup i [key] with
  | found r' =>
    rw [hlookup] at h
    obtain rfl := Option.some.inj h
    exact .inl (Units.lookup_eq_found.1 hlookup)
  | deleted | missing =>
    rw [hlookup] at h
    exact .inr h

namespace Keyring

/-- A row mirrors a record of a key. -/
def Mirrored (K : Keyring) (once : List String) (t : Table) (v : Value) (r : Row) : Prop :=
  ∃ ρ ∈ t, ρ K.primary.column.name = some v ∧ r.Mirrors once ρ

variable {K : Keyring} {once : List String} {i : Nat} {t t' : Table} {us : Units}
  {c : SessionCache} {v : Value} {r : Row} {ρ : Record}

/-- The record that a row mirrors is the one of the key. -/
theorem Mirrored.mirrors (ht : K.IsTable t) (h : K.Mirrored once t v r) :
    r.Mirrors once (t.recordAt K.primary.column.name v) := by
  obtain ⟨ρ, hρ, hkey, hmirror⟩ := h
  rw [Table.recordAt_of_mem (K.exact _) (ht.keys _ K.primary_mem) hρ hkey]
  exact hmirror

/-! ## Keys -/

/-- The keys of a row of a record are those of the record. -/
theorem mem_keysOf_of_mirrors (honly : K.nodes = [K.primary])
    (hr : r.Mirrors once ρ) (hρ : ρ K.primary.column.name = some v) {key : String}
    (h : key ∈ K.keysOf r) : key = K.key K.primary v := by
  obtain ⟨n, hn, x, hx, rfl⟩ := mem_keysOf.1 h
  rw [honly, List.mem_singleton] at hn
  subst hn
  have hcell := eq_of_binds hr hx
  rw [hρ, Option.some.injEq] at hcell
  rw [hcell]

/-- Filters that name a record by its key have that key. -/
theorem keys_of_names (honly : K.nodes = [K.primary]) {conditions : Conditions}
    {prepare : ValuePreparer} (heq : conditions.onlyEqualities = true)
    (hvalues : conditions.equalities prepare = [(K.primary, v)]) (use : CacheUse) :
    conditions.keys ⟨use, some K.entity⟩ prepare = [K.key K.primary v] := by
  rw [Entity.keys_eq K.keyed, if_pos heq, hvalues, honly]
  simp [Entity.boundKeys, Keyring.key]

/-- Filters bind no key, or they ask for one value of it. -/
theorem keys_cases (honly : K.nodes = [K.primary]) (conditions : Conditions)
    (prepare : ValuePreparer) (use : CacheUse) :
    conditions.keys ⟨use, some K.entity⟩ prepare = [] ∨
      ∃ v, conditions.onlyEqualities = true ∧ (K.primary, v) ∈ conditions.equalities prepare ∧
        conditions.keys ⟨use, some K.entity⟩ prepare = [K.key K.primary v] := by
  rw [Entity.keys_eq K.keyed, honly]
  split
  next heq =>
    cases hfind : (conditions.equalities prepare).find? (fun p => p.1 == K.primary) with
    | none => exact .inl (by simp [Entity.boundKeys, hfind])
    | some p =>
      obtain ⟨n, v⟩ := p
      have hn : n = K.primary := by simpa using List.find?_some hfind
      subst hn
      refine .inr ⟨v, heq, List.mem_of_find?_eq_some hfind, ?_⟩
      simp [Entity.boundKeys, hfind, Keyring.key]
  next => exact .inl rfl

/-- A full row has the facets of its keys. -/
theorem exists_facets (use : CacheUse) (h : r.IsFull) :
    ∃ facets, (⟨use, some K.entity⟩ : CachePolicy).facetsOfRow r = .ok facets ∧
      Facet.keys facets = K.keysOf r :=
  map_eq_ok.1 (K.keysOfRow_eq use h)

/-- A row that binds the only key can be found by more than its table. -/
theorem facets_of_binds (honly : K.nodes = [K.primary]) (use : CacheUse) (h : r.IsFull)
    (hb : r.Binds K.primary v) :
    ∃ facets, (⟨use, some K.entity⟩ : CachePolicy).facetsOfRow r = .ok facets ∧
      Facet.keys facets = [K.key K.primary v] ∧ Facet.leastForSession ≤ facets.length := by
  obtain ⟨facets, hfacets, hkeys⟩ := exists_facets (K := K) use h
  rw [keysOf_of_binds honly hb] at hkeys
  refine ⟨facets, hfacets, hkeys, ?_⟩
  have hbound : (⟨use, some K.entity⟩ : CachePolicy).facetsOfRow r = _ :=
    Entity.facetsOfRow_of_full h
  rw [hfacets, Except.ok.injEq] at hbound
  have hle := Entity.length_keys_le K.entity.table.name (K.entity.shapeFacets r.valueAt)
  rw [← hbound, hkeys] at hle
  rw [hbound]
  exact Nat.succ_le_succ hle

/-! ## Rows that are known -/

/-- What a unit shows of the row of a key mirrors its record. -/
theorem mirrors_shown (ht : K.IsTable t) (htold : ∀ r b,
      us.find? i [K.key K.primary v] = some (.row r b) → K.Mirrored once t v r) :
    (us.lookup i [K.key K.primary v]).shown.Mirrors once
      (t.recordAt K.primary.column.name v) := by
  cases hlookup : us.lookup i [K.key K.primary v] with
  | found r =>
    obtain ⟨b, hfind⟩ := Units.lookup_eq_found.1 hlookup
    exact (htold r b hfind).mirrors ht
  | deleted | missing => exact Row.mirrors_empty ..

/-- What an UPDATE in a unit changes mirrors the record, if the row of the session cache does where
the unit has nothing. -/
theorem mirrors_before (ht : K.IsTable t) (htold : ∀ r b,
      us.find? i [K.key K.primary v] = some (.row r b) → K.Mirrored once t v r)
    (hcached : us.find? i [K.key K.primary v] = none →
      ∀ r, c.rows[K.key K.primary v]? = some r → K.Mirrored once t v r) (policy : CachePolicy) :
    (RowUpdate.before policy [K.key K.primary v] i us c).Mirrors once
      (t.recordAt K.primary.column.name v) := by
  rw [RowUpdate.before]
  cases hlookup : us.lookup i [K.key K.primary v] with
  | found r =>
    obtain ⟨b, hfind⟩ := Units.lookup_eq_found.1 hlookup
    exact (htold r b hfind).mirrors ht
  | deleted => exact Row.mirrors_empty ..
  | missing =>
    show Row.Mirrors once (if policy.admits c then _ else _) _
    rw [SessionCache.get?_singleton]
    split
    next =>
      cases hlook : c.rows[K.key K.primary v]? with
      | none => exact Row.mirrors_empty ..
      | some r => exact (hcached (Units.lookup_eq_missing.1 hlookup) r hlook).mirrors ht
    next => exact Row.mirrors_empty ..

/-- A row that was read can be laid over what a unit knows of its record. -/
theorem exists_merged (ht : K.IsTable t) (htold : ∀ r b,
      us.find? i [K.key K.primary v] = some (.row r b) → K.Mirrored once t v r)
    (hρ : ρ ∈ t) (hkey : ρ K.primary.column.name = some v) (hr : r.Mirrors once ρ)
    (hpairs : ∀ q ∈ r.pairs, q.2 = ρ q.1) :
    ∃ merged, (us.lookup i [K.key K.primary v]).merged r = .ok merged ∧
      merged.Mirrors once ρ := by
  cases hlookup : us.lookup i [K.key K.primary v] with
  | deleted | missing => exact ⟨r, rfl, hr⟩
  | found known =>
    obtain ⟨b, hfind⟩ := Units.lookup_eq_found.1 hlookup
    have hknown := (htold known b hfind).mirrors ht
    rw [Table.recordAt_of_mem (K.exact _) (ht.keys _ K.primary_mem) hρ hkey] at hknown
    obtain ⟨merged, hmerged, hmirror, -⟩ := hknown.merge hpairs
    exact ⟨merged, hmerged, hmirror⟩

/-! ## Rows that go into a unit -/

/-- A row that was read goes under its key, laid over what the unit knows. -/
theorem populateUnit_of_binds (honly : K.nodes = [K.primary]) {p : PointQuery.Plan}
    (hpolicy : p.policy = ⟨.fetch, some K.entity⟩) (hfull : r.IsFull) (hb : r.Binds K.primary v)
    {merged : Row} (hmerged : (us.lookup i [K.key K.primary v]).merged r = .ok merged) :
    p.populateUnit r i us = .ok (us.modify i
      (·.put [K.key K.primary v] (.row merged K.entity.isCacheable))) := by
  obtain ⟨facets, hfacets, hkeys, hleast⟩ := facets_of_binds honly .fetch hfull hb
  rw [PointQuery.Plan.populateUnit_eq, hpolicy]
  simp only [bind, Except.bind, hfacets, hkeys, List.isEmpty_cons, Bool.false_eq_true, if_false,
    hmerged, ge_iff_le, hleast, decide_true, Bool.and_true]
  rfl

section

variable {σ : Type} {w : State σ}

/-- What an INSERT puts into a unit: the row that the unit shows, with what is written. -/
theorem Inserts.writeThrough (honly : K.nodes = [K.primary]) {x : RowInsert}
    {prepare : ValuePreparer} (h : K.Inserts prepare x t t' v)
    (hshown : (w.units.lookup i [K.key K.primary v]).shown.Mirrors once
      (t.recordAt K.primary.column.name v)) :
    ∃ after, x.writeThrough prepare (some i) w = (.ok (), { w with
        units := w.units.modify i
          (·.put [K.key K.primary v] (.row after K.entity.isCacheable)) }) ∧
      after.Mirrors once (x.written prepare (t.recordAt K.primary.column.name v)) := by
  obtain ⟨after, hmerged, hmirror, hcell⟩ := hshown.inserted prepare x
  have hb : after.Binds K.primary v := by
    rw [Row.Binds, hcell, h.bound]
    rfl
  obtain ⟨facets, hfacets, hkeys, hleast⟩ := facets_of_binds honly .update hmirror.full hb
  have hbound := keysOfRow_eq (K := K) .update (Row.isFull_row_insert prepare x)
  rw [h.keys] at hbound
  refine ⟨after, ?_, hmirror⟩
  unfold RowInsert.writeThrough
  simp only [h.entity, hbound, List.isEmpty_cons, Bool.false_eq_true, if_false,
    RowInsert.followInUnit_eq, bind, Except.bind, hmerged, hfacets, hkeys, ge_iff_le, hleast,
    decide_true, Bool.and_true]
  rfl

/-- An UPDATE whose filters ask for a value of the key tells one. -/
theorem exists_told {u : RowUpdate} {prepare : ValuePreparer}
    (hassigned : ∀ p ∈ u.changes, p.1.column.name ≠ K.primary.column.name)
    (hv : (K.primary, v) ∈ u.conditions.equalities prepare) :
    ∃ x, (u.known prepare).reverse.lookup K.primary.column.name = some (some x) := by
  cases hy : (u.known prepare).reverse.lookup K.primary.column.name with
  | none => exact absurd hy (Row.lookup_known_ne_none hv)
  | some y =>
    have hmem := List.mem_reverse.1 (Row.mem_of_lookup hy)
    rw [Row.known_eq] at hmem
    rcases List.mem_append.1 hmem with hmem | hmem
    · obtain ⟨p, -, he⟩ := List.mem_map.1 hmem
      rw [Prod.mk.injEq] at he
      exact ⟨p.2, by rw [he.2]⟩
    · -- a column that is set is not the key
      obtain ⟨⟨n, change⟩, hp, he⟩ := List.mem_filterMap.1 hmem
      cases change with
      | set z =>
        rw [Option.some.injEq, Prod.mk.injEq] at he
        exact absurd he.1 (hassigned _ hp)
      | _ => exact absurd he (by simp)

/-- What an UPDATE whose filters ask for a value of the key puts into a unit: the row that it had
before, or that of the session cache, with what the UPDATE tells. -/
theorem writeThrough_of_values (honly : K.nodes = [K.primary]) {u : RowUpdate}
    {prepare : ValuePreparer} (hentity : u.entity = .ok K.entity)
    (hkeys : u.conditions.keys ⟨.update, some K.entity⟩ prepare = [K.key K.primary v])
    (hv : (K.primary, v) ∈ u.conditions.equalities prepare)
    (hassigned : ∀ p ∈ u.changes, p.1.column.name ≠ K.primary.column.name)
    (honce : ∀ x ∈ u.unknown, x ∈ once) (hρ : ρ K.primary.column.name = some v) {before : Row}
    (hb : RowUpdate.before ⟨.update, some K.entity⟩ [K.key K.primary v] i w.units w.cache = before)
    (hbefore : before.Mirrors once ρ) :
    ∃ after, u.writeThrough prepare (some i) w = (.ok (), { w with
        units := w.units.modify i
          (·.put (K.key K.primary v :: K.keysOf after) (.row after K.entity.isCacheable)) }) ∧
      after.IsFull ∧ (∀ x ∈ once, after.HasOnce x) ∧
      ∀ x, after.cell? x = if x ∈ u.unknown then none
        else ((u.known prepare).reverse.lookup x).or (before.cell? x) := by
  obtain ⟨known, after, hknown, hafter, hfull, hcell, hkept⟩ :=
    Row.updated_spec hbefore.full prepare u fun x hx => hbefore.once x (honce x hx)
  obtain ⟨merged, hmerged, hremoved⟩ := bind_eq_ok.1 hafter
  obtain ⟨x, hx⟩ := exists_told hassigned hv
  have hbinds : after.Binds K.primary x := by
    rw [Row.Binds, hcell, if_neg (not_mem_unknown hassigned), hx]
    rfl
  obtain ⟨facets, hfacets, hfkeys, hleast⟩ := facets_of_binds honly .update hfull hbinds
  rw [← keysOf_of_binds honly hbinds] at hfkeys
  have hprevious := keysOfRow_eq (K := K) .update hbefore.full
  -- the row had no other key before
  have hstale : ((K.keysOf before).filter fun key =>
      !([K.key K.primary v] ++ K.keysOf after).contains key) = [] := by
    refine List.filter_eq_nil_iff.2 fun key hmem => ?_
    rw [mem_keysOf_of_mirrors honly hbefore hρ hmem]
    simp
  refine ⟨after, ?_, hfull, fun x hx => hkept x (hbefore.once x hx), hcell⟩
  unfold RowUpdate.writeThrough
  simp only [hentity, hkeys, List.isEmpty_cons, Bool.false_eq_true, if_false,
    RowUpdate.followInUnit_eq, bind, Except.bind, hb, hprevious, hknown, hmerged, hremoved,
    hfacets, hfkeys, hstale, ge_iff_le, hleast, decide_true, Bool.and_true]
  rfl

end

end Keyring

end WideRow
