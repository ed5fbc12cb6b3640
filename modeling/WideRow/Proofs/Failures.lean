import WideRow.Proofs.Merging

/-!
# How operations fail

Some computations fail in one way only (`FailsOnly`). All that is done with rows, in a lookup and
where the caches follow a write, breaks off or does not fail at all (`BreaksOffOnly`): it breaks off
where a row lacks the cell of a column that it names.

> `RowInsert.breaksOffOnly_writeThrough` and its siblings for updates and deletes: once the
> statement of a write was built, following the write in the caches fails in no other way.
-/

namespace WideRow

/-! ## Computations that fail in one way -/

/-- All errors that a computation may end with are such. -/
def FailsOnly {ε α : Type} (P : ε → Prop) (x : Except ε α) : Prop := ∀ e, x = .error e → P e

namespace FailsOnly

variable {ε α β : Type} {P : ε → Prop}

theorem ok (a : α) : FailsOnly P (.ok a : Except ε α) := by
  intro e h
  exact absurd h (by simp)

theorem error {e : ε} (he : P e) : FailsOnly P (.error e : Except ε α) := by
  intro e' h
  rwa [← Except.error.inj h]

/-- A computation fails only as its steps do. -/
theorem bind {x : Except ε α} {f : α → Except ε β} (hx : FailsOnly P x)
    (hf : ∀ a, FailsOnly P (f a)) : FailsOnly P (x >>= f) := by
  cases x with
  | error e => exact error (hx e rfl)
  | ok a => exact hf a

theorem map {x : Except ε α} (hx : FailsOnly P x) (f : α → β) : FailsOnly P (x.map f) := by
  cases x with
  | error e => exact error (hx e rfl)
  | ok a => exact ok (f a)

/-- So does one that goes through a list. -/
theorem mapM {f : α → Except ε β} (hf : ∀ a, FailsOnly P (f a)) :
    ∀ as : List α, FailsOnly P (as.mapM f)
  | [] => ok []
  | a :: as => by
    rw [List.mapM_cons]
    exact bind (hf a) fun b => bind (mapM hf as) fun bs => ok (b :: bs)

end FailsOnly

/-! ## Rows break off -/

/-- A computation may break off, and does not fail otherwise. -/
abbrev BreaksOffOnly {α : Type} (x : Except Error α) : Prop :=
  FailsOnly (fun e => e = .brokenOff) x

namespace Row

/-- A row is searched for the position of a column, and breaks off if it has fewer cells than
columns. -/
theorem breaksOffOnly_find? (r : Row) (column : String) : BreaksOffOnly (r.find? column) := by
  unfold find?
  split
  next => exact .ok _
  next =>
    split
    next => exact .error rfl
    next => exact .ok _

/-- A column that is there is set at its position. -/
theorem breaksOffOnly_set (r : Row) (column : String) (c : Cell) :
    BreaksOffOnly (r.set column c) := by
  unfold set
  split
  next => exact .ok _
  next =>
    split
    next => exact .ok _
    next => exact .error rfl

theorem breaksOffOnly_remove (r : Row) (column : String) : BreaksOffOnly (r.remove column) := by
  unfold remove
  split
  next => exact .ok _
  next =>
    split
    next => exact .error rfl
    next => exact .ok _

theorem breaksOffOnly_setAll : ∀ (cells : List (String × Cell)) (r : Row),
    BreaksOffOnly (r.setAll cells)
  | [], r => .ok r
  | (column, c) :: rest, r =>
    .bind (r.breaksOffOnly_set column c) fun r' => breaksOffOnly_setAll rest r'

theorem breaksOffOnly_removeAll : ∀ (columns : List String) (r : Row),
    BreaksOffOnly (r.removeAll columns)
  | [], r => .ok r
  | column :: rest, r =>
    .bind (r.breaksOffOnly_remove column) fun taken => breaksOffOnly_removeAll rest taken.2

/-- To merge is to set column after column. -/
theorem breaksOffOnly_merge (r other : Row) : BreaksOffOnly (r.merge other) :=
  breaksOffOnly_setAll other.pairs r

end Row

/-- Whether a write was applied is read from the first row of the answer. -/
theorem ResultSet.breaksOffOnly_wasApplied (answer : ResultSet) :
    BreaksOffOnly answer.wasApplied := by
  unfold wasApplied
  split
  next => exact .ok _
  next row _ =>
    have hfind := row.breaksOffOnly_find? appliedColumn
    split
    next e hbroken => exact .error (hfind e hbroken)
    next => exact .ok _
    next => exact .ok _

/-! ## Keys of rows -/

/-- A facet is bound by reading its columns one by one. -/
theorem Facet.breaksOffOnly_boundPairs {cellOf : Node → Except Error Cell}
    (h : ∀ n, BreaksOffOnly (cellOf n)) :
    ∀ shape : List Node, BreaksOffOnly (boundPairs cellOf shape)
  | [] => .ok _
  | n :: ns => by
    refine .bind (h n) fun c => ?_
    cases c with
    | none => exact .ok _
    | some v =>
      refine .bind (breaksOffOnly_boundPairs h ns) fun ps => ?_
      cases ps <;> exact .ok _

/-- The facets of a row take nothing but its cells. -/
theorem Entity.breaksOffOnly_facetsOfRow (e : Entity) (r : Row) :
    BreaksOffOnly (e.facetsOfRow r) := by
  have hcell : ∀ n, BreaksOffOnly (Facet.cellIn r n) := fun n =>
    .bind (r.breaksOffOnly_find? n.column.name) fun _ => .ok _
  refine .bind (.mapM (fun shape => ?_) e.keyShapes) fun _ => .ok _
  exact .bind (Facet.breaksOffOnly_boundPairs hcell shape) fun _ => .ok _

namespace CachePolicy

variable (p : CachePolicy)

theorem breaksOffOnly_facetsOfRow (r : Row) : BreaksOffOnly (p.facetsOfRow r) := by
  unfold facetsOfRow
  split
  next => exact .ok _
  next e _ => exact e.breaksOffOnly_facetsOfRow r

/-- A row without an entity has no keys, and this is no error. -/
theorem breaksOffOnly_keysOfRow (r : Row) : BreaksOffOnly (p.keysOfRow r) :=
  .map (p.breaksOffOnly_facetsOfRow r) _

theorem breaksOffOnly_update (c : SessionCache) (r : Row) : BreaksOffOnly (p.update c r) := by
  refine .bind (p.breaksOffOnly_facetsOfRow r) fun facets => ?_
  split
  next => exact .ok _
  next => exact .ok _

theorem breaksOffOnly_evict (c : SessionCache) (keys : List String) :
    BreaksOffOnly (p.evict c keys) := by
  unfold evict
  split
  next => split <;> exact .ok _
  next =>
    split
    next => exact .ok _
    next r _ => exact .bind (p.breaksOffOnly_keysOfRow r) fun _ => .ok _

/-- To merge a write into the session cache never fails in any other way. -/
theorem breaksOffOnly_merge (c : SessionCache) (keys : List String) (known : Row)
    (unknown : List String) : BreaksOffOnly (p.merge c keys known unknown).1 := by
  have hevict := p.breaksOffOnly_evict c keys
  unfold merge
  split
  next =>
    split
    next => exact .ok _
    next e hbroken => exact .error (hevict e hbroken)
  next =>
    have hmoved : BreaksOffOnly (do
        let previous ← p.keysOfRow ((c.get? keys).getD .empty)
        return (previous, ← (← ((c.get? keys).getD .empty).merge known).removeAll unknown)) :=
      .bind (p.breaksOffOnly_keysOfRow _) fun _ => .bind (Row.breaksOffOnly_merge _ _) fun merged =>
        .bind (Row.breaksOffOnly_removeAll unknown merged) fun _ => .ok _
    dsimp only
    split
    next e hbroken => exact .error (hmoved e hbroken)
    next previous after _ =>
      have hupdate := p.breaksOffOnly_update (c.invalidate previous) after
      split
      next e hbroken => exact .error (hupdate e hbroken)
      next => exact .ok _

end CachePolicy

/-! ## Lookups -/

/-- A filter is compared with a cell of the row. -/
theorem breaksOffOnly_rowSatisfies (r : Row) :
    ∀ equalities : List (Node × Value), BreaksOffOnly (rowSatisfies r equalities)
  | [] => .ok _
  | (n, v) :: rest => by
    refine .bind (r.breaksOffOnly_find? n.column.name) fun found => ?_
    split
    next =>
      split
      next => exact breaksOffOnly_rowSatisfies r rest
      next => exact .ok _
    next => exact .ok _

namespace PointQuery.Plan

variable (p : Plan)

theorem breaksOffOnly_accepts (r : Row) : BreaksOffOnly (p.accepts r) := by
  unfold accepts
  split
  next => exact breaksOffOnly_rowSatisfies r p.equalities
  next => exact .ok _

/-- The session cache answers with rows, and these are compared with the filters. -/
theorem breaksOffOnly_fromSession? (c : SessionCache) : BreaksOffOnly (p.fromSession? c) := by
  unfold fromSession?
  split
  next => exact .ok _
  next r _ => exact .bind (p.breaksOffOnly_accepts r) fun _ => .ok _

end PointQuery.Plan

/-! ## Following a write -/

section

variable {σ : Type} {prepare : ValuePreparer} {unit : Option Nat} {st : Statement}

/-- Once its statement was built, an insert is followed unless that breaks off. -/
theorem RowInsert.breaksOffOnly_writeThrough {x : RowInsert} (hst : x.statement prepare = .ok st)
    (w : State σ) : BreaksOffOnly (x.writeThrough prepare unit w).1 := by
  obtain ⟨e, he, -⟩ := of_statement hst
  have hkeys := CachePolicy.breaksOffOnly_keysOfRow ⟨.update, some e⟩ (x.row prepare)
  unfold writeThrough
  rw [he]
  dsimp only
  split
  next e hbroken => exact .error (hkeys e hbroken)
  next keys _ =>
    split
    next => exact .ok _
    next =>
      cases unit with
      | some i =>
        have hfollow : BreaksOffOnly
            (followInUnit ⟨.update, some e⟩ (x.row prepare) keys i w.units) :=
          .bind (Row.breaksOffOnly_merge _ _) fun after =>
            .bind (CachePolicy.breaksOffOnly_facetsOfRow _ after) fun _ => .ok _
        dsimp only
        split
        next e hbroken => exact .error (hfollow e hbroken)
        next => exact .ok _
      | none =>
        have hfollow : BreaksOffOnly
            (followInSession ⟨.update, some e⟩ (x.row prepare) keys w.cache) :=
          .bind (Row.breaksOffOnly_merge _ _) fun after =>
            .bind (CachePolicy.breaksOffOnly_update _ _ after) fun _ => .ok _
        dsimp only
        split
        next =>
          split
          next e hbroken => exact .error (hfollow e hbroken)
          next => exact .ok _
        next => exact .ok _

/-- An update in a unit merges rows and takes columns out of them, and binds facets. -/
theorem RowUpdate.breaksOffOnly_followInUnit (u : RowUpdate) (prepare : ValuePreparer)
    (policy : CachePolicy) (keys : List String) (i : Nat) (us : Units) (c : SessionCache) :
    BreaksOffOnly (u.followInUnit prepare policy keys i us c) := by
  rw [followInUnit_eq]
  exact .bind (policy.breaksOffOnly_keysOfRow _) fun _ => .bind (Row.breaksOffOnly_setAll _ _)
    fun _ => .bind (Row.breaksOffOnly_merge _ _) fun merged =>
      .bind (Row.breaksOffOnly_removeAll _ merged) fun after =>
        .bind (policy.breaksOffOnly_facetsOfRow after) fun _ => .ok _

/-- Once its statement was built, an update is followed unless that breaks off. -/
theorem RowUpdate.breaksOffOnly_writeThrough {u : RowUpdate} (hst : u.statement prepare = .ok st)
    (w : State σ) : BreaksOffOnly (u.writeThrough prepare unit w).1 := by
  obtain ⟨e, -, -, he, -⟩ := of_statement hst
  unfold writeThrough
  rw [he]
  cases unit with
  | none =>
    have hknown := Row.breaksOffOnly_setAll (u.known prepare) .empty
    dsimp only
    split
    next =>
      split
      next e hbroken => exact .error (hknown e hbroken)
      next => exact CachePolicy.breaksOffOnly_merge _ _ _ _ _
    next => exact .ok _
  | some i =>
    have hfollow := u.breaksOffOnly_followInUnit prepare ⟨.update, some e⟩
      (u.conditions.keys ⟨.update, some e⟩ prepare) i w.units w.cache
    dsimp only
    split
    next => exact .ok _
    next =>
      split
      next e hbroken => exact .error (hfollow e hbroken)
      next => exact .ok _

/-- A delete is followed unless that breaks off. -/
theorem RowDelete.breaksOffOnly_writeThrough (d : RowDelete) (w : State σ) :
    BreaksOffOnly (d.writeThrough prepare unit w).1 := by
  unfold writeThrough
  cases unit with
  | none =>
    have hevict := CachePolicy.breaksOffOnly_evict ⟨.delete, some d.entity⟩ w.cache
      (if d.isTruncate = true then [] else d.conditions.keys ⟨.delete, some d.entity⟩ prepare)
    dsimp only
    split
    next e hbroken => exact .error (hevict e hbroken)
    next => exact .ok _
  | some i =>
    dsimp only
    split
    next => exact .ok _
    next =>
      split
      next => exact .ok _
      next =>
        have hdeleted : ∀ keys, BreaksOffOnly
            (deletedKeys ⟨.delete, some d.entity⟩ keys i w.units w.cache) := by
          intro keys
          rw [deletedKeys_eq]
          cases known? keys i w.units w.cache with
          | none => exact .ok _
          | some r => exact .map (CachePolicy.breaksOffOnly_keysOfRow _ r) _
        split
        next e hbroken => exact .error (hdeleted _ e hbroken)
        next => exact .ok _

end

end WideRow
