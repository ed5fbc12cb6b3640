import WideRow.Proofs.RowView

/-!
# Rows as ordered finite maps

A row that was built from pairs keeps its shape (`Row.IsWellFormed`) under every edit with such
rows, so that no access breaks off. It is told by the order of its columns and by the map that it
stands for (`IsWellFormed.eq_of`), which is how the laws of merging are shown: the columns of a
merged row are those of the one that was there and, behind them, the new ones of the other, and
its map is the other's where that one has a cell (`exists_merge`).

> `exists_editAll`: the cell of a column after a run of edits is the one that was told last.
>
> `merge_merge`: merging is associative, the order of columns included.
-/

namespace WideRow

namespace Row

/-! ## The shape of a row -/

/-- A row is well-formed if it is full and has every column once. -/
theorem isWellFormed_iff {r : Row} : r.IsWellFormed ↔ r.IsFull ∧ ∀ d, r.HasOnce d :=
  ⟨fun h => ⟨h.length_eq, List.nodup_iff_count.1 h.nodup⟩,
    fun h => ⟨List.nodup_iff_count.2 h.2, h.1⟩⟩

/-- A new row is well-formed. -/
theorem isWellFormed_empty : Row.empty.IsWellFormed := ⟨List.nodup_nil, rfl⟩

namespace IsWellFormed

variable {r r' : Row}

theorem isFull (h : r.IsWellFormed) : r.IsFull := h.length_eq

/-- Each place has the cell of its column. -/
theorem getElem?_cells (h : r.IsWellFormed) (i : Nat) :
    r.cells[i]? = (r.columns[i]?).bind r.cell? := by
  rcases Nat.lt_or_ge i r.columns.length with hi | hi
  · have hcells : i < r.cells.length := by
      rw [h.length_eq]
      exact hi
    have hposition : r.position? r.columns[i] = some i := by
      refine List.findIdx?_eq_some_iff_getElem.2 ⟨hi, beq_self_eq_true _, fun j hj => ?_⟩
      have hne := List.pairwise_iff_getElem.1 h.nodup j i (by omega) hi hj
      simpa using hne
    obtain ⟨hlt, hcell⟩ := position?_eq_some h.isFull hposition
    rw [List.getElem?_eq_getElem hcells, List.getElem?_eq_getElem hi, Option.bind_some, hcell]
  · rw [List.getElem?_eq_none hi, List.getElem?_eq_none (by rw [h.length_eq]; exact hi)]
    rfl

/-- A row is told by its columns, in their order, and by the cell of each. -/
theorem eq_of (h : r.IsWellFormed) (h' : r'.IsWellFormed) (hcolumns : r.columns = r'.columns)
    (hcell : ∀ column, r.cell? column = r'.cell? column) : r = r' := by
  have hcells : r.cells = r'.cells := by
    refine List.ext_getElem? fun i => ?_
    rw [h.getElem?_cells, h'.getElem?_cells, hcolumns]
    congr 1
    funext column
    exact hcell column
  cases r
  cases r'
  simp only at hcolumns hcells
  rw [hcolumns, hcells]

end IsWellFormed

/-! ## Merging -/

section

variable {r r' other : Row}

/-- Setting a cell leaves the columns, or adds the new one at the end. -/
theorem columns_set {column : String} {c : Cell} (h : r.set column c = .ok r') :
    r'.columns = if column ∈ r.columns then r.columns else r.columns ++ [column] := by
  unfold Row.set at h
  split at h
  next hnone =>
    obtain rfl := Except.ok.inj h
    have hnot : column ∉ r.columns := by
      intro hmem
      have hall := List.findIdx?_eq_none_iff.1 hnone column hmem
      exact absurd hall (by simp)
    rw [if_neg hnot]
  next i hsome =>
    split at h
    next =>
      obtain rfl := Except.ok.inj h
      obtain ⟨hi, hat, -⟩ := List.findIdx?_eq_some_iff_getElem.1 hsome
      rw [if_pos (beq_iff_eq.1 hat ▸ List.getElem_mem hi)]
    next => cases h

/-- Columns keep their places, and new ones follow in their order. -/
theorem columns_setAll {ps : List (String × Cell)} (h : r.IsFull)
    (hnodup : (ps.map Prod.fst).Nodup) (hset : r.setAll ps = .ok r') :
    r'.columns = r.columns ++ (ps.map Prod.fst).filter (· ∉ r.columns) := by
  induction ps generalizing r with
  | nil =>
    obtain rfl := Except.ok.inj hset
    simp
  | cons p ps ih =>
    obtain ⟨column, c⟩ := p
    obtain ⟨hnot, hrest⟩ := List.nodup_cons.1 hnodup
    obtain ⟨r₁, h₁, hfull₁, -⟩ := set_spec h column c
    rw [Row.setAll, h₁] at hset
    rw [ih hfull₁ hrest hset, columns_set h₁]
    by_cases hmem : column ∈ r.columns
    · rw [if_pos hmem, List.map_cons, List.filter_cons_of_neg (by simpa using hmem)]
    · -- the new column does not come again, so it is all the same whether it counts as there
      rw [if_neg hmem, List.map_cons, List.filter_cons_of_pos (by simpa using hmem),
        List.append_assoc, List.singleton_append]
      congr 2
      refine List.filter_congr fun d hd => ?_
      have hne : d ≠ column := fun heq => hnot (heq ▸ hd)
      simp [hne]

/-- Rows that can be merged can be merged into a row of this shape. -/
theorem exists_merge (h : r.IsWellFormed) (hother : other.IsWellFormed) :
    ∃ m, r.merge other = .ok m ∧ m.IsWellFormed ∧
      m.columns = r.columns ++ other.columns.filter (· ∉ r.columns) ∧
      ∀ column, m.cell? column = (other.cell? column).or (r.cell? column) := by
  obtain ⟨hfull, honce⟩ := isWellFormed_iff.1 h
  obtain ⟨ofull, oonce⟩ := isWellFormed_iff.1 hother
  obtain ⟨m, hm, mfull, hcell, monce⟩ := merge_spec hfull other
  have hpairs : other.pairs.map Prod.fst = other.columns :=
    List.map_fst_zip (Nat.le_of_eq hother.length_eq.symm)
  refine ⟨m, hm, isWellFormed_iff.2 ⟨mfull, fun d => monce d (honce d)⟩, ?_, fun column => ?_⟩
  · rw [← hpairs]
    exact columns_setAll hfull (by rw [hpairs]; exact hother.nodup) hm
  · rw [hcell, lookup_reverse_of_hasOnce ofull oonce]

/-- What is merged twice is merged once. -/
theorem merge_again (h : r.IsWellFormed) (hother : other.IsWellFormed) {m : Row}
    (hm : r.merge other = .ok m) : m.merge other = .ok m := by
  obtain ⟨m', hm', hwell, hcolumns, hcell⟩ := exists_merge h hother
  obtain rfl := Except.ok.inj (hm'.symm.trans hm)
  obtain ⟨again, hagain, hwell', hcolumns', hcell'⟩ := exists_merge hwell hother
  rw [hagain]
  refine congrArg Except.ok (hwell'.eq_of hwell ?_ fun column => ?_)
  · rw [hcolumns', hcolumns, List.append_assoc, List.append_right_inj, List.append_right_eq_self]
    refine List.filter_eq_nil_iff.2 fun d hd => ?_
    by_cases hmem : d ∈ r.columns <;> simp [hmem, hd]
  · rw [hcell', hcell]
    cases other.cell? column <;> rfl

/-- A row changes nothing about itself. -/
theorem merge_self (h : r.IsWellFormed) : r.merge r = .ok r := by
  obtain ⟨m, hm, hwell, hcolumns, hcell⟩ := exists_merge h h
  rw [hm]
  refine congrArg Except.ok (hwell.eq_of h ?_ fun column => ?_)
  · rw [hcolumns, List.append_right_eq_self]
    exact List.filter_eq_nil_iff.2 fun d hd => by simp [hd]
  · rw [hcell]
    exact Option.or_self

/-- Merging is associative. -/
theorem merge_merge {third : Row} (h : r.IsWellFormed) (hother : other.IsWellFormed)
    (hthird : third.IsWellFormed) :
    (r.merge other >>= (·.merge third)) = (other.merge third >>= r.merge) := by
  obtain ⟨m, hm, mwell, mcolumns, mcell⟩ := exists_merge h hother
  obtain ⟨n, hn, nwell, ncolumns, ncell⟩ := exists_merge hother hthird
  obtain ⟨left, hleft, lwell, lcolumns, lcell⟩ := exists_merge mwell hthird
  obtain ⟨right, hright, rwell, rcolumns, rcell⟩ := exists_merge h nwell
  rw [hm, hn]
  show m.merge third = r.merge n
  rw [hleft, hright]
  refine congrArg Except.ok (lwell.eq_of rwell ?_ fun column => ?_)
  · rw [lcolumns, rcolumns, mcolumns, ncolumns, List.filter_append, List.filter_filter,
      List.append_assoc]
    congr 2
    refine List.filter_congr fun d _ => ?_
    by_cases hmem : d ∈ r.columns <;> by_cases hmem' : d ∈ other.columns <;> simp [hmem, hmem']
  · rw [lcell, rcell, mcell, ncell, Option.or_assoc]

end

end Row

/-! ## Edits -/

/-- A change to a row. -/
inductive RowEdit where
  | set (column : String) (c : Cell)
  | remove (column : String)
  | merge (other : Row)

namespace RowEdit

/-- Makes the change. -/
def apply (r : Row) : RowEdit → Except Error Row
  | set column c => r.set column c
  | remove column => (r.remove column).map Prod.snd
  | merge other => r.merge other

/-- A row that is merged has the shape of rows. -/
def IsWellFormed : RowEdit → Prop
  | merge other => other.IsWellFormed
  | set .. | remove _ => True

/-- What an edit says of a column: its cell, or that there is none; nothing if it does not touch
the column. -/
def told? (column : String) : RowEdit → Option (Option Cell)
  | set d c => if d = column then some (some c) else none
  | remove d => if d = column then some none else none
  | merge other => (other.cell? column).map some

/-- An edit keeps the shape, and every column has what is said of it. -/
theorem exists_apply {r : Row} (h : r.IsWellFormed) {edit : RowEdit} (hedit : edit.IsWellFormed) :
    ∃ r', edit.apply r = .ok r' ∧ r'.IsWellFormed ∧
      ∀ column, r'.cell? column = (edit.told? column).getD (r.cell? column) := by
  obtain ⟨hfull, honce⟩ := Row.isWellFormed_iff.1 h
  cases edit with
  | set d c =>
    obtain ⟨r', hset, hfull', hcell, honce'⟩ := Row.set_spec hfull d c
    refine ⟨r', hset, Row.isWellFormed_iff.2 ⟨hfull', fun e => honce' e (honce e)⟩,
      fun column => ?_⟩
    rw [hcell, told?]
    by_cases hd : column = d
    · rw [if_pos hd, if_pos hd.symm, Option.getD_some]
    · rw [if_neg hd, if_neg fun heq => hd heq.symm, Option.getD_none]
  | remove d =>
    obtain ⟨taken, r', hremove, hfull', hother, hself, honce'⟩ := Row.remove_spec hfull d
    refine ⟨r', by rw [apply, hremove]; rfl,
      Row.isWellFormed_iff.2 ⟨hfull', fun e => honce' e (honce e)⟩, fun column => ?_⟩
    rw [told?]
    by_cases hd : d = column
    · rw [if_pos hd, Option.getD_some, ← hd, hself (honce d)]
    · rw [if_neg hd, Option.getD_none, hother column fun heq => hd heq.symm]
  | merge other =>
    obtain ⟨m, hm, hwell, -, hcell⟩ := Row.exists_merge h hedit
    refine ⟨m, hm, hwell, fun column => ?_⟩
    rw [hcell, told?]
    cases other.cell? column <;> rfl

end RowEdit

namespace Row

/-- Makes changes one after the other. -/
def editAll (r : Row) : List RowEdit → Except Error Row
  | [] => .ok r
  | edit :: edits => do (← edit.apply r).editAll edits

/-- What was said of a column last counts; a column of which nothing was said is as it was. -/
theorem exists_editAll {r : Row} (h : r.IsWellFormed) {edits : List RowEdit}
    (hedits : ∀ edit ∈ edits, edit.IsWellFormed) :
    ∃ r', r.editAll edits = .ok r' ∧ r'.IsWellFormed ∧ ∀ column,
      r'.cell? column = (edits.reverse.findSome? (·.told? column)).getD (r.cell? column) := by
  induction edits generalizing r with
  | nil => exact ⟨r, rfl, h, fun _ => rfl⟩
  | cons edit edits ih =>
    obtain ⟨r₁, h₁, hwell₁, hcell₁⟩ :=
      RowEdit.exists_apply h (hedits edit (List.mem_cons_self ..))
    obtain ⟨r₂, h₂, hwell₂, hcell₂⟩ := ih hwell₁ fun e he => hedits e (List.mem_cons_of_mem _ he)
    refine ⟨r₂, ?_, hwell₂, fun column => ?_⟩
    · rw [editAll, h₁]
      exact h₂
    · rw [hcell₂, hcell₁, List.reverse_cons, List.findSome?_append]
      cases edits.reverse.findSome? (·.told? column) with
      | some c => rfl
      | none => cases hlast : edit.told? column <;> simp [hlast]

end Row

end WideRow
