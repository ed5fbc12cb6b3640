import WideRow.Proofs.Keys
import WideRow.Proofs.Mirror

/-!
# Coherence of cached rows

One record may stand in a cache several times, under each of its keys. The caches stay right
because the entries of a record do not drift apart, and because a write of the record reaches
all of them through the one under the primary key. `Keyring.Coherent` says this of what a cache
shows under its keys: every row mirrors the record that its key names, binds that key and the
primary one, and stands under the primary one as well.

There are four ways to change a cache, and coherence survives each:

> `Coherent.put`: a row of a record goes under all its keys, if it binds every key that the
> cached row of the record did;
> `Coherent.erase`: the entries of a record are dropped, found by its primary key;
> `Coherent.evict`: entries are dropped, and of a row that is left the one under the primary key is
> not among them;
> `coherent_of_none`: all entries are dropped.

The table may change along with the cache, but only in the one record. All of it rests on keys
that name records, which a `Keyring` provides: equal cache keys are keys of one column and one
value.
-/

namespace WideRow

/-- Columns that each identify the records of an entity, one of them by being the primary key.
The values that fit a column agree with themselves only, and equal cache keys are those of equal
columns and values. -/
structure Keyring where
  entity : Entity
  primary : Node
  nodes : List Node
  Fits : String → Value → Prop
  keyed : entity.IsKeyedBy nodes
  primary_mem : primary ∈ nodes
  exact : ∀ c, ExactOn (Fits c)
  apart : ∀ n ∈ nodes, ∀ m ∈ nodes, ∀ v w, Fits n.column.name v → Fits m.column.name w →
    entity.keyOf n v = entity.keyOf m w → n.column.name = m.column.name ∧ v = w

namespace Keyring

variable (K : Keyring)

/-- The cache key of a record by one of its columns. -/
def key (n : Node) (v : Value) : String := K.entity.keyOf n v

/-- The cache keys of a row. -/
def keysOf (r : Row) : List String := K.entity.rowKeys K.nodes r

/-- A table whose key columns tell its records apart, and whose records all have a primary
key. -/
structure IsTable (t : Table) : Prop where
  keys : ∀ n ∈ K.nodes, t.IsKey (K.Fits n.column.name) n.column.name
  valued : ∀ ρ ∈ t, ∃ v, ρ K.primary.column.name = some v

/-- Every row that a cache shows under a key mirrors the record of the key, binds this key and
the primary one, and stands under the primary one. -/
structure Coherent (once : List String) (look : String → Option Row) (t : Table) : Prop where
  held : ∀ n ∈ K.nodes, ∀ v r, K.Fits n.column.name v → look (K.key n v) = some r →
    ∃ ρ ∈ t, r.Mirrors once ρ ∧ r.Binds n v ∧ ∃ u, r.Binds K.primary u
  anchored : ∀ n ∈ K.nodes, ∀ v r, K.Fits n.column.name v → look (K.key n v) = some r →
    ∀ u, r.Binds K.primary u → look (K.key K.primary u) = some r

variable {K} {once : List String} {look : String → Option Row} {t t' : Table} {r : Row}
  {ρ : Record} {v : Value}

theorem mem_keysOf {key : String} :
    key ∈ K.keysOf r ↔ ∃ n ∈ K.nodes, ∃ v, r.Binds n v ∧ K.key n v = key := Entity.mem_rowKeys

/-- The primary keys of two values are two keys. -/
theorem eq_of_key {u v : Value} (hu : K.Fits K.primary.column.name u)
    (hv : K.Fits K.primary.column.name v) (h : K.key K.primary u = K.key K.primary v) : u = v :=
  (K.apart _ K.primary_mem _ K.primary_mem u v hu hv h).2

/-- A value that the row has is the value of the record. -/
theorem eq_of_binds (hr : r.Mirrors once ρ) {n : Node} (h : r.Binds n v) :
    ρ n.column.name = some v := (hr.cell _ _ h).symm

/-- What a row of the table binds fits its column. -/
theorem fits_of_binds (ht : K.IsTable t) (hρ : ρ ∈ t) (hr : r.Mirrors once ρ) {n : Node}
    (hn : n ∈ K.nodes) (h : r.Binds n v) : K.Fits n.column.name v :=
  (ht.keys n hn).fits ρ hρ v (eq_of_binds hr h)

/-- A row of the table that stands under a key binds it. -/
theorem binds_of_mem_keysOf (ht : K.IsTable t) (hρ : ρ ∈ t) (hr : r.Mirrors once ρ) {n : Node}
    (hn : n ∈ K.nodes) (hv : K.Fits n.column.name v) (h : K.key n v ∈ K.keysOf r) :
    r.Binds n v := by
  obtain ⟨m, hm, w, hb, hkey⟩ := mem_keysOf.1 h
  obtain ⟨hname, rfl⟩ := K.apart m hm n hn w v (fits_of_binds ht hρ hr hm hb) hv hkey
  unfold Row.Binds at hb ⊢
  rw [← hname]
  exact hb

/-- A cache that shows nothing of an entity is coherent with any table. -/
theorem coherent_of_none (h : ∀ n v, look (K.key n v) = none) (t : Table) :
    K.Coherent once look t where
  held n _ v r _ hr := by
    rw [h] at hr
    exact absurd hr (by simp)
  anchored n _ v r _ hr := by
    rw [h] at hr
    exact absurd hr (by simp)

/-- A row of a record goes under all its keys. The other records stay as they were, and the
row binds every key under which the record's old row may stand. -/
theorem Coherent.put (h : K.Coherent once look t) (ht' : K.IsTable t') (hρ : ρ ∈ t')
    (hr : r.Mirrors once ρ) (hv : r.Binds K.primary v)
    (hstay : ∀ σ ∈ t, σ K.primary.column.name ≠ some v → σ ∈ t')
    (habsorb : ∀ r₀, look (K.key K.primary v) = some r₀ →
      ∀ n ∈ K.nodes, ∀ w, r₀.Binds n w → r.Binds n w) :
    K.Coherent once (fun key => if key ∈ K.keysOf r then some r else look key) t' := by
  -- an entry that is not replaced is of another record, which is still there
  have hother : ∀ n ∈ K.nodes, ∀ w r₀, K.Fits n.column.name w → look (K.key n w) = some r₀ →
      K.key n w ∉ K.keysOf r → ∃ σ ∈ t', r₀.Mirrors once σ ∧ r₀.Binds n w ∧
        (∃ u, r₀.Binds K.primary u) ∧ σ K.primary.column.name ≠ some v := by
    intro n hn w r₀ hw hr₀ hnot
    obtain ⟨σ, hσ, hmirror, hb, u, hu⟩ := h.held n hn w r₀ hw hr₀
    have hne : σ K.primary.column.name ≠ some v := by
      intro he
      have huv : u = v := by simpa [eq_of_binds hmirror hu] using he
      subst huv
      refine hnot (mem_keysOf.2 ⟨n, hn, w, ?_, rfl⟩)
      exact habsorb r₀ (h.anchored n hn w r₀ hw hr₀ u hu) n hn w hb
    exact ⟨σ, hstay σ hσ hne, hmirror, hb, ⟨u, hu⟩, hne⟩
  constructor
  · intro n hn w r₀ hw hr₀
    by_cases hin : K.key n w ∈ K.keysOf r
    · simp only [if_pos hin, Option.some.injEq] at hr₀
      subst hr₀
      exact ⟨ρ, hρ, hr, binds_of_mem_keysOf ht' hρ hr hn hw hin, v, hv⟩
    · simp only [if_neg hin] at hr₀
      obtain ⟨σ, hσ, hmirror, hb, hu, -⟩ := hother n hn w r₀ hw hr₀ hin
      exact ⟨σ, hσ, hmirror, hb, hu⟩
  · intro n hn w r₀ hw hr₀ u hu
    by_cases hin : K.key n w ∈ K.keysOf r
    · simp only [if_pos hin, Option.some.injEq] at hr₀
      subst hr₀
      exact if_pos (mem_keysOf.2 ⟨_, K.primary_mem, u, hu, rfl⟩)
    · simp only [if_neg hin] at hr₀
      obtain ⟨σ, hσ, hmirror, -, -, hne⟩ := hother n hn w r₀ hw hr₀ hin
      -- the row is of another record, so that its primary key is another one, too
      have hnot : K.key K.primary u ∉ K.keysOf r := by
        intro hmem
        have hfits := fits_of_binds ht' hσ hmirror K.primary_mem hu
        have hb := binds_of_mem_keysOf ht' hρ hr K.primary_mem hfits hmem
        rw [eq_of_binds hmirror hu, ← eq_of_binds hr hb, eq_of_binds hr hv] at hne
        exact hne rfl
      simp only [if_neg hnot]
      exact h.anchored n hn w r₀ hw hr₀ u hu

/-- The entries of a record are dropped: the one of its primary key, and all that the row found
there binds. The other records stay as they were. -/
theorem Coherent.erase (h : K.Coherent once look t) (ht : K.IsTable t)
    (hfits : K.Fits K.primary.column.name v)
    (hstay : ∀ σ ∈ t, σ K.primary.column.name ≠ some v → σ ∈ t') {dropped : List String}
    (hdropped : ∀ key, key ∈ dropped ↔ key = K.key K.primary v ∨
      ∃ r₀, look (K.key K.primary v) = some r₀ ∧ key ∈ K.keysOf r₀) :
    K.Coherent once (fun key => if key ∈ dropped then none else look key) t' := by
  -- an entry that stays does not bind the primary key of the record
  have hother : ∀ n ∈ K.nodes, ∀ w r, K.Fits n.column.name w → look (K.key n w) = some r →
      K.key n w ∉ dropped → ¬r.Binds K.primary v := by
    intro n hn w r hw hr hnot hv
    obtain ⟨σ, -, -, hb, -⟩ := h.held n hn w r hw hr
    refine hnot ((hdropped _).2 (.inr ⟨r, h.anchored n hn w r hw hr v hv, ?_⟩))
    exact mem_keysOf.2 ⟨n, hn, w, hb, rfl⟩
  constructor
  · intro n hn w r hw hr
    by_cases hin : K.key n w ∈ dropped
    · simp only [if_pos hin] at hr
      exact absurd hr (by simp)
    · simp only [if_neg hin] at hr
      obtain ⟨σ, hσ, hmirror, hb, u, hu⟩ := h.held n hn w r hw hr
      refine ⟨σ, hstay σ hσ fun he => hother n hn w r hw hr hin ?_, hmirror, hb, u, hu⟩
      have huv : u = v := by simpa [eq_of_binds hmirror hu] using he
      rw [← huv]
      exact hu
  · intro n hn w r hw hr u hu
    by_cases hin : K.key n w ∈ dropped
    · simp only [if_pos hin] at hr
      exact absurd hr (by simp)
    · simp only [if_neg hin] at hr
      obtain ⟨σ, hσ, hmirror, -⟩ := h.held n hn w r hw hr
      have hu' := fits_of_binds ht hσ hmirror K.primary_mem hu
      -- if its primary key were dropped, it would be the row of the record
      have hnot : K.key K.primary u ∉ dropped := by
        intro hmem
        refine hother n hn w r hw hr hin ?_
        rcases (hdropped _).1 hmem with he | ⟨r₀, hr₀, hmem₀⟩
        · rw [← eq_of_key hu' hfits he]
          exact hu
        · obtain ⟨τ, hτ, hmirror₀, hv₀, -⟩ := h.held K.primary K.primary_mem v r₀ hfits hr₀
          have hb := binds_of_mem_keysOf ht hτ hmirror₀ K.primary_mem hu' hmem₀
          rw [Row.Binds, hv₀, Option.some.injEq, Option.some.injEq] at hb
          rw [hb]
          exact hu
      simp only [if_neg hnot]
      exact h.anchored n hn w r hw hr u hu

/-- Entries are dropped, but of a row that is left not the one under its primary key. -/
theorem Coherent.evict (h : K.Coherent once look t) {lost : String → Bool}
    (hspares : ∀ key r v, look key = some r → lost key = false → r.Binds K.primary v →
      lost (K.key K.primary v) = false) :
    K.Coherent once (fun key => if lost key = true then none else look key) t := by
  have hleft : ∀ key r, (if lost key = true then none else look key) = some r →
      lost key = false ∧ look key = some r := by
    intro key r hr
    cases hlost : lost key with
    | true => simp [hlost] at hr
    | false => exact ⟨rfl, by simpa [hlost] using hr⟩
  constructor
  · intro n hn v r hv hr
    exact h.held n hn v r hv (hleft _ r hr).2
  · intro n hn v r hv hr u hu
    obtain ⟨hkept, hlook⟩ := hleft _ r hr
    rw [if_neg (by simp [hspares _ r u hlook hkept hu])]
    exact h.anchored n hn v r hv hlook u hu

end Keyring

end WideRow
