import WideRow.Operation.Conditions
import WideRow.Proofs.RowView

/-!
# Keys of any shape

The columns of a key shape bind one cache key together, and only if every one of them has a value
(`Entity.shapePairs?`). The keys of a full row, of a list of values and of an operation's filters
are those of the shapes that are bound, `Entity.shapeKeys`, however many columns a shape has.

> `shapeKeys_mono`: whoever has the values of another one has its keys.
-/

namespace WideRow

/-- The value of a column in a row, null where the row has none. -/
def Row.valueAt (r : Row) (n : Node) : Cell := (r.cell? n.column.name).join

theorem Row.valueAt_eq_some {r : Row} {n : Node} {v : Value} :
    r.valueAt n = some v ↔ r.cell? n.column.name = some (some v) := Option.join_eq_some_iff

/-- The value that is listed for a column; of two the first counts. -/
def listedValue (values : List (Node × Value)) (n : Node) : Cell :=
  (values.find? fun p => p.1 == n).map Prod.snd

namespace Entity

/-- The columns of a shape with the texts of their values, if every one of them has a value. -/
def shapePairs? (cellOf : Node → Cell) (shape : List Node) : Option (List (String × String)) :=
  shape.mapM fun n => (cellOf n).map fun v => (n.column.name, v.display)

/-- The facets besides the table's for which every column has a value. -/
def shapeFacets (e : Entity) (cellOf : Node → Cell) : List Facet :=
  e.keyShapes.filterMap fun shape => (shapePairs? cellOf shape).map .columns

/-- The cache key of a facet of columns. -/
def pairsKey (e : Entity) (ps : List (String × String)) : String :=
  Facet.schemaStart e.table.name ++ (Facet.columns ps).key

/-- The cache keys of the shapes for which every column has a value. -/
def shapeKeys (e : Entity) (cellOf : Node → Cell) : List String :=
  e.keyShapes.filterMap fun shape => (shapePairs? cellOf shape).map e.pairsKey

section

variable {e : Entity} {cellOf cellOf' : Node → Cell}

/-- A key is of a shape that is bound. -/
theorem mem_shapeKeys {key : String} : key ∈ e.shapeKeys cellOf ↔
    ∃ shape ∈ e.keyShapes, ∃ ps, shapePairs? cellOf shape = some ps ∧ e.pairsKey ps = key := by
  simp only [shapeKeys, List.mem_filterMap, Option.map_eq_some_iff]

/-- A shape is bound column by column. -/
theorem shapePairs?_cons (n : Node) (shape : List Node) : shapePairs? cellOf (n :: shape) =
    (cellOf n).bind fun v =>
      (shapePairs? cellOf shape).map fun ps => (n.column.name, v.display) :: ps := by
  rw [shapePairs?, shapePairs?, List.mapM_cons]
  cases cellOf n with
  | none => rfl
  | some v => cases (shape.mapM fun n => (cellOf n).map fun v => (n.column.name, v.display)) <;> rfl

/-- In every monad, a shape is bound in the same way where reading has no effects. -/
theorem boundPairs_pure {m : Type → Type} [Monad m] [LawfulMonad m] (shape : List Node) :
    Facet.boundPairs (m := m) (fun n => pure (cellOf n)) shape =
      pure (shapePairs? cellOf shape) := by
  induction shape with
  | nil => rfl
  | cons n shape ih =>
    rw [shapePairs?_cons, Facet.boundPairs]
    cases cellOf n with
    | none => simp
    | some v =>
      cases hshape : shapePairs? cellOf shape with
      | none => simp [ih, hshape]
      | some ps => simp [ih, hshape]

theorem facets_of_pure {m : Type → Type} [Monad m] [LawfulMonad m] :
    e.facets (m := m) (fun n => pure (cellOf n)) =
      pure (.table e.table.name :: e.shapeFacets cellOf) := by
  have hall : ∀ shapes : List (List Node),
      shapes.mapM (Facet.bind? (m := m) fun n => pure (cellOf n)) =
        pure (shapes.map fun shape => (shapePairs? cellOf shape).map .columns) := by
    intro shapes
    induction shapes with
    | nil => simp
    | cons shape shapes ih => simp [Facet.bind?, boundPairs_pure, ih]
  rw [facets, hall, pure_bind, List.filterMap_map]
  rfl

/-- The facets of a full row. -/
theorem facetsOfRow_of_full {r : Row} (h : r.IsFull) :
    e.facetsOfRow r = .ok (.table e.table.name :: e.shapeFacets r.valueAt) := by
  have hcell : Facet.cellIn r = fun n => pure (r.valueAt n) := by
    funext n
    rw [Facet.cellIn, Row.find?_eq h]
    rfl
  rw [facetsOfRow, hcell, facets_of_pure]
  rfl

/-- The keys of facets, of which that of the table has none. -/
theorem keys_shapeFacets :
    Facet.keys (.table e.table.name :: e.shapeFacets cellOf) = e.shapeKeys cellOf := by
  have hflat : ∀ shapes : List (List Node), Facet.flatten e.table.name
      (shapes.filterMap fun shape => (shapePairs? cellOf shape).map .columns) =
      shapes.filterMap fun shape => (shapePairs? cellOf shape).map e.pairsKey := by
    intro shapes
    induction shapes with
    | nil => rfl
    | cons shape shapes ih =>
      cases h : shapePairs? cellOf shape with
      | none => rw [List.filterMap_cons_none (by rw [h]; rfl), ih,
          List.filterMap_cons_none (by rw [h]; rfl)]
      | some ps =>
        rw [List.filterMap_cons_some (by rw [h]; rfl), List.filterMap_cons_some (by rw [h]; rfl),
          ← ih]
        rfl
  exact hflat e.keyShapes

/-- The keys of a full row. -/
theorem keysOfRow_of_full (use : CacheUse) {r : Row} (h : r.IsFull) :
    (⟨use, some e⟩ : CachePolicy).keysOfRow r = .ok (e.shapeKeys r.valueAt) := by
  show (e.facetsOfRow r).map Facet.keys = _
  rw [facetsOfRow_of_full h]
  exact congrArg Except.ok keys_shapeFacets

/-- The keys of the facets that values bind. -/
theorem keys_facetsOfValues (use : CacheUse) (values : List (Node × Value)) :
    Facet.keys ((⟨use, some e⟩ : CachePolicy).facetsOfValues values) =
      e.shapeKeys (listedValue values) := by
  have hfacets : e.facetsOfValues values =
      .table e.table.name :: e.shapeFacets (listedValue values) := facets_of_pure (m := Id)
  show Facet.keys (e.facetsOfValues values) = _
  rw [hfacets, keys_shapeFacets]

/-- The keys of filters: those of the values that equalities ask for, if there are no other
filters. -/
theorem keys_of_equalities (c : Conditions) (use : CacheUse) (prepare : ValuePreparer) :
    c.keys ⟨use, some e⟩ prepare =
      if c.onlyEqualities then e.shapeKeys (listedValue (c.equalities prepare)) else [] := by
  rw [Conditions.keys, keys_facetsOfValues]

/-- A full row goes into the session cache under all its keys. -/
theorem update_of_full (use : CacheUse) (c : SessionCache) {r : Row} (h : r.IsFull) :
    ∃ b, (⟨use, some e⟩ : CachePolicy).update c r = .ok (b, c.put (e.shapeKeys r.valueAt) r) := by
  have hfacets : (⟨use, some e⟩ : CachePolicy).facetsOfRow r = _ := facetsOfRow_of_full h
  rw [CachePolicy.update, hfacets, ← keys_shapeFacets]
  cases e.shapeFacets r.valueAt with
  | nil => exact ⟨false, rfl⟩
  | cons f fs => exact ⟨true, rfl⟩

/-- Where more is known, what was bound is bound to the same. -/
theorem shapePairs?_mono (h : ∀ n v, cellOf n = some v → cellOf' n = some v) {shape : List Node}
    {ps : List (String × String)} (hps : shapePairs? cellOf shape = some ps) :
    shapePairs? cellOf' shape = some ps := by
  induction shape generalizing ps with
  | nil => exact hps
  | cons n shape ih =>
    rw [shapePairs?_cons] at hps ⊢
    obtain ⟨v, hv, hps⟩ := Option.bind_eq_some_iff.1 hps
    obtain ⟨rest, hrest, hps⟩ := Option.map_eq_some_iff.1 hps
    rw [h n v hv, Option.bind_some, ih hrest, Option.map_some, hps]

/-- Whoever has the values of another one has its keys, in the same order. -/
theorem shapeKeys_sublist (h : ∀ n v, cellOf n = some v → cellOf' n = some v) :
    (e.shapeKeys cellOf).Sublist (e.shapeKeys cellOf') := by
  unfold shapeKeys
  induction e.keyShapes with
  | nil => exact .refl _
  | cons shape shapes ih =>
    cases hps : shapePairs? cellOf shape with
    | some ps =>
      have hps' := shapePairs?_mono h hps
      rw [List.filterMap_cons_some (by rw [hps]; rfl), List.filterMap_cons_some (by rw [hps']; rfl)]
      exact ih.cons_cons (e.pairsKey ps)
    | none =>
      rw [List.filterMap_cons_none (by rw [hps]; rfl)]
      cases hps' : shapePairs? cellOf' shape with
      | none =>
        rw [List.filterMap_cons_none (by rw [hps']; rfl)]
        exact ih
      | some ps =>
        rw [List.filterMap_cons_some (by rw [hps']; rfl)]
        exact ih.cons (e.pairsKey ps)

/-- Where more is known, there are all keys that there were. -/
theorem shapeKeys_mono (h : ∀ n v, cellOf n = some v → cellOf' n = some v) {key : String}
    (hkey : key ∈ e.shapeKeys cellOf) : key ∈ e.shapeKeys cellOf' :=
  (shapeKeys_sublist h).subset hkey

end

end Entity

end WideRow
