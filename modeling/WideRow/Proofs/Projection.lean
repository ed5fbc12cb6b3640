import WideRow.Operation.PointQuery
import WideRow.Proofs.RowView

/-!
# What a query reads of a row

A cached row has other columns than the row that a query would have read, in another order. It
gives the same item only because the mapper looks at nothing but the columns of the projection:
`Query.ReadsProjection`. The typed queries have such mappers, whether they read one property or
several of them, and so does a mapping that reads properties by their types
(`Query.getProperty_congr`).
-/

namespace WideRow

/-- The mapper reads no columns but those of the projection. -/
def Query.ReadsProjection {α : Type} (q : Query α) : Prop :=
  ∀ r r' : Row, r.IsFull → r'.IsFull →
    (∀ n ∈ q.projection, ∃ x, r.cell? n.column.name = some x ∧ r'.cell? n.column.name = some x) →
    q.mapper r = q.mapper r'

namespace Query

variable {α β : Type}

theorem mapM_congr_of_mem {γ δ : Type} {f g : γ → Except Error δ} :
    ∀ {xs : List γ}, (∀ x ∈ xs, f x = g x) → xs.mapM f = xs.mapM g
  | [], _ => rfl
  | x :: xs, h => by
    rw [List.mapM_cons, List.mapM_cons, h x (List.mem_cons_self ..),
      mapM_congr_of_mem fun y hy => h y (List.mem_cons_of_mem _ hy)]

/-- A typed column depends on its cell only. -/
theorem getNode_congr {r r' : Row} (hr : r.IsFull) (hr' : r'.IsFull) {n : Node} (t : ColumnType)
    (h : ∃ x, r.cell? n.column.name = some x ∧ r'.cell? n.column.name = some x) :
    r.getNode n t = r'.getNode n t := by
  obtain ⟨x, hx, hx'⟩ := h
  rw [Row.getNode, Row.getNode, Row.get, Row.get, Row.find?_eq hr, Row.find?_eq hr', hx, hx']

/-- A typed property of an entity depends on the cells of the entity's columns. -/
theorem getProperty_congr {r r' : Row} (hr : r.IsFull) (hr' : r'.IsFull) {e : Entity}
    (h : ∀ n ∈ e.nodes, ∃ x, r.cell? n.column.name = some x ∧ r'.cell? n.column.name = some x)
    (property : String) (t : ColumnType) :
    r.getProperty e property t = r'.getProperty e property t := by
  unfold Row.getProperty Entity.node
  split
  next n hfind => exact getNode_congr hr hr' t (h n (List.mem_of_find?_eq_some hfind))
  next => rfl

theorem readsProjection_unresolved (e : Error) : (unresolved e : Query α).ReadsProjection :=
  fun _ _ _ _ _ => rfl

/-- A query for one property reads its column. -/
theorem readsProjection_ofProperty {t : ColumnType} (g : Getter t) :
    (ofProperty g).ReadsProjection := by
  unfold ofProperty
  cases g.resolve with
  | error e => exact readsProjection_unresolved e
  | ok n =>
    intro r r' hr hr' h
    exact getNode_congr hr hr' t (h n (List.mem_singleton_self n))

/-- A query for several properties reads their columns. -/
theorem readsProjection_ofProperties (gs : List AnyGetter) :
    (ofProperties gs).ReadsProjection := by
  unfold ofProperties
  cases resolveAll gs with
  | error e => exact readsProjection_unresolved e
  | ok columns =>
    intro r r' hr hr' h
    refine mapM_congr_of_mem fun p hp => ?_
    have hcolumn := h p.1 (List.mem_map_of_mem hp)
    show (r.getNode p.1 p.2 >>= fun x => pure (⟨p.2, x⟩ : Typed)) =
      (r'.getNode p.1 p.2 >>= fun x => pure (⟨p.2, x⟩ : Typed))
    rw [getNode_congr hr hr' p.2 hcolumn]

/-- What is made of the result does not change what is read. -/
theorem ReadsProjection.map {q : Query α} (h : q.ReadsProjection) (f : α → β) :
    (q.map f).ReadsProjection := fun r r' hr hr' hcolumns =>
  congrArg (Except.map f) (h r r' hr hr' hcolumns)

end Query

end WideRow
