import WideRow.Proofs.KeyShapes

/-!
# Cache keys of one column

Where every key of an entity is a single column, a cache key is a column with the text of its
value, `Entity.keyOf`, and the keys of a row, of a list of values or of an operation's filters
are all read off in one way, `Entity.boundKeys`: one key for each of these columns that has a
value. The first half of the module says so for each of them.

The second half reads the caches by key: what stands under a key after rows were put or dropped.
-/

namespace WideRow

/-- Whether a row has a value for a column. -/
def Row.Binds (r : Row) (n : Node) (v : Value) : Prop := r.cell? n.column.name = some (some v)

/-- A row that has facets binds their keys. -/
theorem CachePolicy.keysOfRow_of_facets {p : CachePolicy} {r : Row} {facets : List Facet}
    (h : p.facetsOfRow r = .ok facets) : p.keysOfRow r = .ok (Facet.keys facets) := by
  rw [keysOfRow, h]
  rfl

namespace Entity

/-- The columns outside the primary key whose values identify a row. -/
def uniques (e : Entity) : List Node :=
  e.nodes.filter fun n => n.property.isUnique && !n.property.isPrimaryKey

/-- Every key of the entity is one column. -/
def IsKeyedBy (e : Entity) (ns : List Node) : Prop := e.keyShapes = ns.map ([·])

/-- The cache key of a row by its value in one column. -/
def keyOf (e : Entity) (n : Node) (v : Value) : String :=
  Facet.schemaStart e.table.name ++ (n.column.name ++ "==" ++ v.display)

/-- Equal cache keys of a column are keys of values with equal texts. -/
theorem display_of_keyOf {e : Entity} {n : Node} {v w : Value}
    (h : e.keyOf n v = e.keyOf n w) : v.display = w.display := by
  simpa only [Entity.keyOf, String.append_right_inj] using h

/-- The cache keys that the cells of some columns bind. -/
def boundKeys (e : Entity) (ns : List Node) (cellOf : Node → Cell) : List String :=
  ns.filterMap fun n => (cellOf n).map (e.keyOf n)

/-- The cache keys of a row by its values in some columns. -/
def rowKeys (e : Entity) (ns : List Node) (r : Row) : List String :=
  e.boundKeys ns fun n => (r.cell? n.column.name).join

/-- With one column in its primary key, an entity is keyed by this column and the unique ones. -/
theorem isKeyedBy_of_primaryKey {e : Entity} {k : Node} (h : e.primaryKey = [k]) :
    e.IsKeyedBy (k :: e.uniques) := by
  rw [IsKeyedBy, keyShapes, h]
  rfl

/-- A key comes from a column that is bound. -/
theorem mem_boundKeys {e : Entity} {ns : List Node} {cellOf : Node → Cell} {key : String} :
    key ∈ e.boundKeys ns cellOf ↔ ∃ n ∈ ns, ∃ v, cellOf n = some v ∧ e.keyOf n v = key := by
  simp only [boundKeys, List.mem_filterMap, Option.map_eq_some_iff]

/-- A key of a row comes from a value in the row. -/
theorem mem_rowKeys {e : Entity} {ns : List Node} {r : Row} {key : String} :
    key ∈ e.rowKeys ns r ↔ ∃ n ∈ ns, ∃ v, r.Binds n v ∧ e.keyOf n v = key := by
  simp only [rowKeys, mem_boundKeys, Option.join_eq_some_iff, Row.Binds]

/-! ## Facets and keys -/

/-- The facet of the table has no key of its own. -/
theorem length_keys_le (table : String) (fs : List Facet) :
    (Facet.keys (.table table :: fs)).length ≤ fs.length := by
  show ((fs.filter fun f => !f.isFixed).map _).length ≤ _
  rw [List.length_map]
  exact List.length_filter_le _ _

section

variable {e : Entity} {ns : List Node} (hkeyed : e.IsKeyedBy ns)
include hkeyed

/-- Where every key is one column, each column that has a value binds one. -/
theorem shapeKeys_eq (cellOf : Node → Cell) : e.shapeKeys cellOf = e.boundKeys ns cellOf := by
  rw [shapeKeys, hkeyed, boundKeys, List.filterMap_map]
  congr 1
  funext n
  cases h : cellOf n <;> simp [shapePairs?, h, pairsKey, Facet.key, Facet.pairs, keyOf]

/-- The keys of a row: those of its values in the key columns. -/
theorem keysOfRow_eq (use : CacheUse) {r : Row} (h : r.IsFull) :
    (⟨use, some e⟩ : CachePolicy).keysOfRow r =
      .ok (e.rowKeys ns r) := by
  rw [keysOfRow_of_full use h, shapeKeys_eq hkeyed]
  rfl

/-- The keys of filters: those of the values that equalities ask for, if there are no other
filters. -/
theorem keys_eq (c : Conditions) (use : CacheUse) (prepare : ValuePreparer) :
    c.keys ⟨use, some e⟩ prepare = if c.onlyEqualities then
      e.boundKeys ns fun n => ((c.equalities prepare).find? fun p => p.1 == n).map Prod.snd
    else [] := by
  rw [keys_of_equalities, shapeKeys_eq hkeyed]
  rfl

/-- The keys of filters are of values that equalities ask for. -/
theorem of_mem_keys {c : Conditions} {use : CacheUse} {prepare : ValuePreparer} {key : String}
    (h : key ∈ c.keys ⟨use, some e⟩ prepare) : c.onlyEqualities = true ∧
      ∃ n ∈ ns, ∃ v, (n, v) ∈ c.equalities prepare ∧ e.keyOf n v = key := by
  rw [keys_eq hkeyed] at h
  split at h
  next honly =>
    obtain ⟨n, hn, v, hv, hkey⟩ := mem_boundKeys.1 h
    obtain ⟨⟨m, w⟩, hfind, hw⟩ := Option.map_eq_some_iff.1 hv
    have hm : m = n := by simpa using List.find?_some hfind
    have hvw : w = v := hw
    subst hm hvw
    exact ⟨honly, m, hn, w, List.mem_of_find?_eq_some hfind, hkey⟩
  next => exact absurd h (by simp)

/-- A row goes into the session cache under all its keys. -/
theorem update_eq (use : CacheUse) (c : SessionCache) {r : Row} (h : r.IsFull) :
    ∃ b, (⟨use, some e⟩ : CachePolicy).update c r = .ok (b, c.put (e.rowKeys ns r) r) := by
  obtain ⟨b, hupdate⟩ := update_of_full use c h
  rw [shapeKeys_eq hkeyed] at hupdate
  exact ⟨b, hupdate⟩

end

end Entity

/-! ## Any entity -/

/-- A cache that is on admits rows of an entity that may be cached. -/
theorem CachePolicy.admits_of_isEnabled {e : Entity} {c : SessionCache}
    (henabled : c.isEnabled = true) (hcacheable : e.isCacheable = true) (use : CacheUse) :
    (⟨use, some e⟩ : CachePolicy).admits c = true := by
  rw [admits, henabled, Option.any_some, hcacheable]
  rfl

/-- A full row has facets, whatever the keys of its entity are. -/
theorem exists_facetsOfRow (e : Entity) {r : Row} (h : r.IsFull) :
    ∃ facets, e.facetsOfRow r = .ok facets :=
  ⟨_, e.facetsOfRow_of_full h⟩

/-! ## Reading the session cache -/

theorem getElem?_foldl_insert {β : Type} (v : β) (key : String) :
    ∀ (keys : List String) (m : Std.ExtTreeMap String β compare),
      (keys.foldl (fun m k => m.insert k v) m)[key]? = if key ∈ keys then some v else m[key]?
  | [], m => by simp
  | k :: keys, m => by
    rw [List.foldl_cons, getElem?_foldl_insert v key keys, Std.ExtTreeMap.getElem?_insert]
    simp only [Std.LawfulEqCmp.compare_eq_iff_eq, List.mem_cons]
    by_cases hk : k = key
    · simp [hk]
    · simp [hk, Ne.symm hk]

theorem getElem?_foldl_erase {β : Type} (key : String) :
    ∀ (keys : List String) (m : Std.ExtTreeMap String β compare),
      (keys.foldl (fun m k => m.erase k) m)[key]? = if key ∈ keys then none else m[key]?
  | [], m => by simp
  | k :: keys, m => by
    rw [List.foldl_cons, getElem?_foldl_erase key keys, Std.ExtTreeMap.getElem?_erase]
    simp only [Std.LawfulEqCmp.compare_eq_iff_eq, List.mem_cons]
    by_cases hk : k = key
    · simp [hk]
    · simp [hk, Ne.symm hk]

namespace SessionCache

variable {c : SessionCache}

/-- Keys are asked in order, and the first one that has a row answers. -/
theorem get?_cons (key : String) (keys : List String) :
    c.get? (key :: keys) = (c.rows[key]?).or (c.get? keys) := by
  rw [get?, List.findSome?_cons]
  cases c.rows[key]? <;> rfl

@[simp] theorem get?_nil : c.get? [] = none := rfl

theorem get?_singleton (key : String) : c.get? [key] = c.rows[key]? := by
  rw [get?_cons, get?_nil, Option.or_none]

/-- A row that is found stands under one of the keys. -/
theorem exists_of_get? {keys : List String} {r : Row} (h : c.get? keys = some r) :
    ∃ key ∈ keys, c.rows[key]? = some r := by
  obtain ⟨before, key, after, rfl, hkey, -⟩ := List.findSome?_eq_some_iff.1 h
  exact ⟨key, by simp, hkey⟩

/-- There is no answer if no key has a row. -/
theorem get?_eq_none {keys : List String} :
    c.get? keys = none ↔ ∀ key ∈ keys, c.rows[key]? = none := List.findSome?_eq_none_iff

/-- Where all rows that stand under some keys are one, this one is found. -/
theorem get?_eq_some {keys : List String} {r : Row} {key : String} (hkey : key ∈ keys)
    (hr : c.rows[key]? = some r)
    (hall : ∀ key ∈ keys, ∀ r', c.rows[key]? = some r' → r' = r) : c.get? keys = some r := by
  cases hget : c.get? keys with
  | none =>
    rw [get?_eq_none.1 hget key hkey] at hr
    exact absurd hr (by simp)
  | some r' =>
    obtain ⟨key', hkey', hr'⟩ := exists_of_get? hget
    rw [hall key' hkey' r' hr']

/-- If all keys have one row, it is the answer. -/
theorem get?_of_all {keys : List String} (hkeys : keys ≠ []) {r : Row}
    (hall : ∀ key ∈ keys, c.rows[key]? = some r) : c.get? keys = some r := by
  obtain ⟨key, hkey⟩ := List.exists_mem_of_ne_nil _ hkeys
  refine get?_eq_some hkey (hall key hkey) fun k hk r' hr' => ?_
  rw [hall k hk] at hr'
  exact (Option.some.inj hr').symm

/-- A row is put under all of its keys at once. -/
theorem rows_put (keys : List String) (r : Row) (key : String) :
    (c.put keys r).rows[key]? = if key ∈ keys then some r else c.rows[key]? :=
  getElem?_foldl_insert r key keys c.rows

/-- Keys are dropped, and all others stay. -/
theorem rows_invalidate (keys : List String) (key : String) :
    (c.invalidate keys).rows[key]? = if key ∈ keys then none else c.rows[key]? :=
  getElem?_foldl_erase key keys c.rows

/-- A table is dropped by what its keys begin with. -/
theorem rows_invalidateSchema_eq (schema key : String) : (c.invalidateSchema schema).rows[key]? =
    if (Facet.schemaStart schema).isPrefixOf key = true then none else c.rows[key]? := by
  rw [invalidateSchema, Std.ExtTreeMap.getElem?_filter']
  cases (Facet.schemaStart schema).isPrefixOf key <;> cases c.rows[key]? <;> rfl

/-- Nothing that a table had is left. -/
theorem rows_invalidateSchema (schema rest : String) :
    (c.invalidateSchema schema).rows[Facet.schemaStart schema ++ rest]? = none := by
  rw [invalidateSchema, Std.ExtTreeMap.getElem?_filter']
  have hstart : (Facet.schemaStart schema).isPrefixOf (Facet.schemaStart schema ++ rest) = true :=
    String.startsWith_string_iff.2 (by simp)
  simp [hstart]

end SessionCache

/-! ## Reading units of work -/

namespace UnitOfWork

variable {u : UnitOfWork}

/-- In a unit, too, keys are asked in order. -/
theorem find?_cons (key : String) (keys : List String) :
    u.find? (key :: keys) = (u.entries[key]?).or (u.find? keys) := by
  rw [find?, List.findSome?_cons]
  cases u.entries[key]? <;> rfl

@[simp] theorem find?_nil : u.find? [] = none := rfl

theorem find?_singleton (key : String) : u.find? [key] = u.entries[key]? := by
  rw [find?_cons, find?_nil, Option.or_none]

/-- An entry is put under all of its keys at once. -/
theorem entries_put (keys : List String) (entry : UnitEntry) (key : String) :
    (u.put keys entry).entries[key]? = if key ∈ keys then some entry else u.entries[key]? :=
  getElem?_foldl_insert entry key keys u.entries

/-- A unit drops a table by what the keys begin with. -/
theorem entries_evictSchema (schema key : String) : (u.evictSchema schema).entries[key]? =
    if (Facet.schemaStart schema).isPrefixOf key = true then none else u.entries[key]? := by
  rw [evictSchema, Std.ExtTreeMap.getElem?_filter']
  cases (Facet.schemaStart schema).isPrefixOf key <;> cases u.entries[key]? <;> rfl

/-- The entries of a nested unit go over those of the unit that takes them. -/
theorem entries_absorb (nested : UnitOfWork) (key : String) :
    (u.absorb nested).entries[key]? = (nested.entries[key]?).or (u.entries[key]?) :=
  Std.ExtTreeMap.getElem?_union

end UnitOfWork

namespace Units

variable {us : Units} {i : Nat} {u : UnitOfWork}

/-- A changed unit. -/
theorem get?_modify (h : us.get? i = some u) (f : UnitOfWork → UnitOfWork) :
    (us.modify i f).get? i = some (f u) := by
  have hlist : us.list[i]? = some u := h
  show (us.list.modify i f)[i]? = _
  rw [List.getElem?_modify, hlist]
  simp

theorem modify_modify (us : Units) (i : Nat) (f g : UnitOfWork → UnitOfWork) :
    (us.modify i f).modify i g = us.modify i (g ∘ f) :=
  congrArg Units.mk (List.modify_modify_eq f g i us.list)

/-- A unit after one of them was changed. -/
theorem exists_of_get?_modify {j : Nat} {f : UnitOfWork → UnitOfWork}
    (h : (us.modify j f).get? i = some u) :
    ∃ u₀, us.get? i = some u₀ ∧ u = if j = i then f u₀ else u₀ := by
  have hlist : (us.list.modify j f)[i]? = some u := h
  rw [List.getElem?_modify] at hlist
  obtain ⟨u₀, hu₀, he⟩ := Option.map_eq_some_iff.1 hlist
  exact ⟨u₀, hu₀, by rw [← he]⟩

/-- An entry of the unit itself comes before those of its ancestors. -/
theorem find?_of_get? (h : us.get? i = some u) {keys : List String} {entry : UnitEntry}
    (hentry : u.find? keys = some entry) : us.find? i keys = some entry := by
  have hchain : ∃ rest, us.chain i = u :: rest := by
    rw [chain, h]
    cases hparent : u.parent with
    | none => exact ⟨[], by simp only [hparent]⟩
    | some p =>
      by_cases hp : p < i
      · exact ⟨us.chain p, by simp only [hparent, if_pos hp]⟩
      · exact ⟨[], by simp only [hparent, if_neg hp]⟩
  obtain ⟨rest, hrest⟩ := hchain
  rw [find?, hrest, List.findSome?_cons, hentry]

/-- A row is found whether or not it may go on to the session cache. -/
theorem lookup_eq_found {keys : List String} {r : Row} :
    us.lookup i keys = .found r ↔ ∃ b, us.find? i keys = some (.row r b) := by
  rw [lookup]
  cases us.find? i keys with
  | none => simp
  | some entry => cases entry <;> simp

theorem lookup_eq_deleted {keys : List String} :
    us.lookup i keys = .deleted ↔ us.find? i keys = some .deleted := by
  rw [lookup]
  cases us.find? i keys with
  | none => simp
  | some entry => cases entry <;> simp

theorem lookup_eq_missing {keys : List String} :
    us.lookup i keys = .missing ↔ us.find? i keys = none := by
  rw [lookup]
  cases us.find? i keys with
  | none => simp
  | some entry => cases entry <;> simp

@[simp] theorem lookup_nil : us.lookup i [] = .missing := by
  exact lookup_eq_missing.2 (List.findSome?_eq_none_iff.2 fun _ _ => rfl)

/-- A unit without a parent has no others to ask. -/
theorem find?_of_parent (h : us.get? i = some u) (hparent : u.parent = none)
    (keys : List String) : us.find? i keys = u.find? keys := by
  rw [find?, chain, h]
  simp only [hparent, List.findSome?_cons, List.findSome?_nil]
  cases u.find? keys <;> rfl

end Units

end WideRow
