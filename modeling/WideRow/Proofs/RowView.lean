import WideRow.Schema.Mapping

/-!
# Rows as finite maps

A row is two lists read side by side, edited by position. `Row.cell?` is the map that it stands
for: a column's cell is the one at the column's first place. On a row with as many cells as
columns (`Row.IsFull`) no access breaks off, and every operation is an equation about `cell?`:

> `setAll_spec`: of several cells given to a column the last one counts, and a column that is
> given none keeps the one it had.

Columns may repeat (a query may read one twice), and then an edit reaches the first place only.
Taking a column away therefore takes it away for good only where it does not repeat
(`remove_spec`), which is what `Row.HasOnce` is about; of a column that repeats a place is left,
and the row still shows what it held (`Holds.cell?_eq`).
-/

namespace WideRow.Row

/-- As many cells as columns. -/
def IsFull (r : Row) : Prop := r.cells.length = r.columns.length

/-- The cell of a column: the one at the column's first place. -/
def cell? (r : Row) (column : String) : Option Cell := r.pairs.lookup column

/-- The column has at most one place. -/
def HasOnce (r : Row) (column : String) : Prop := r.columns.count column ≤ 1

/-! ## Positions and pairs -/

/-- Reading by position is looking up in the pairs. -/
theorem lookup_zip (column : String) :
    ∀ (columns : List String) (cells : List Cell), cells.length = columns.length →
      (columns.zip cells).lookup column =
        (columns.findIdx? (· == column)).bind (cells[·]?)
  | [], [], _ => rfl
  | [], _ :: _, h | _ :: _, [], h => by simp at h
  | d :: columns, y :: cells, h => by
    have ih := lookup_zip column columns cells (by simpa using h)
    by_cases hd : d = column
    · subst hd
      simp [List.findIdx?_cons]
    · have hne : (column == d) = false := by simpa using fun he : column = d => hd he.symm
      simp only [List.zip_cons_cons, List.lookup_cons, hne, ih, List.findIdx?_cons,
        beq_iff_eq, hd, if_false]
      cases columns.findIdx? (· == column) <;> rfl

/-- A column has a position exactly where it has a cell, and the position is in range. -/
theorem position?_eq_some {r : Row} (h : r.IsFull) {column : String} {i : Nat}
    (hi : r.position? column = some i) : ∃ hlt : i < r.cells.length,
      r.cell? column = some r.cells[i] := by
  have hlt : i < r.cells.length := by
    rw [h]
    exact (List.findIdx?_eq_some_iff_getElem.1 hi).1
  refine ⟨hlt, ?_⟩
  rw [cell?, pairs, lookup_zip _ _ _ h]
  rw [position?] at hi
  rw [hi]
  exact List.getElem?_eq_getElem hlt

/-- A column of a full row is there if it has a cell. -/
theorem position?_eq_none {r : Row} (h : r.IsFull) {column : String} :
    r.position? column = none ↔ r.cell? column = none := by
  constructor
  · intro hi
    rw [cell?, pairs, lookup_zip _ _ _ h]
    rw [position?] at hi
    rw [hi]
    rfl
  · intro hc
    cases hi : r.position? column with
    | none => rfl
    | some i =>
      obtain ⟨_, hcell⟩ := position?_eq_some h hi
      rw [hcell] at hc
      exact absurd hc (by simp)

/-- Reading a full row does not break off. -/
theorem find?_eq {r : Row} (h : r.IsFull) (column : String) :
    r.find? column = .ok (r.cell? column) := by
  unfold find?
  cases hi : r.position? column with
  | none => rw [(position?_eq_none h).1 hi]
  | some i =>
    obtain ⟨hlt, hc⟩ := position?_eq_some h hi
    simp only [at?, List.getElem?_eq_getElem hlt, hc]

theorem contains_eq {r : Row} (h : r.IsFull) (column : String) :
    r.contains column = (r.cell? column).isSome := by
  have hcount : r.contains column = (r.position? column).isSome := by
    rw [contains, position?, List.findIdx?_isSome, List.contains_eq_any_beq]
    congr 1
    funext d
    exact Bool.beq_comm
  rw [hcount]
  cases hi : r.position? column with
  | none => rw [(position?_eq_none h).1 hi]; rfl
  | some i =>
    obtain ⟨_, hc⟩ := position?_eq_some h hi
    rw [hc]; rfl

theorem mem_of_lookup {ps : List (String × Cell)} {column : String} {c : Cell}
    (h : ps.lookup column = some c) : (column, c) ∈ ps := by
  obtain ⟨before, rest, heq, -⟩ := List.lookup_eq_some_iff.1 h
  rw [heq]
  simp

/-! ## Rows made from pairs -/

@[simp] theorem pairs_ofPairs (ps : List (String × Cell)) : (ofPairs ps).pairs = ps :=
  (List.zip_of_prod rfl rfl).symm

/-- Pairs make a row with as many cells as columns. -/
theorem isFull_ofPairs (ps : List (String × Cell)) : (ofPairs ps).IsFull := by
  simp [IsFull, ofPairs]

@[simp] theorem cell?_ofPairs (ps : List (String × Cell)) (column : String) :
    (ofPairs ps).cell? column = ps.lookup column := by
  rw [cell?, pairs_ofPairs]

@[simp] theorem isFull_empty : Row.empty.IsFull := rfl

@[simp] theorem cell?_empty (column : String) : Row.empty.cell? column = none := rfl

theorem hasOnce_empty (column : String) : Row.empty.HasOnce column := Nat.zero_le 1

/-! ## Setting cells -/

/-- To set the cell at the first position of a column is to set the column. -/
theorem lookup_zip_set {column : String} (c : Cell) (d : String) :
    ∀ {columns : List String} {cells : List Cell} {i : Nat},
      cells.length = columns.length → columns.findIdx? (· == column) = some i →
      (columns.zip (cells.set i c)).lookup d =
        if d = column then some c else (columns.zip cells).lookup d
  | [], _, _, _, hi => by simp at hi
  | _ :: _, [], _, h, _ => by simp at h
  | b :: columns, y :: cells, i, h, hi => by
    rw [List.findIdx?_cons] at hi
    by_cases hb : b = column
    · subst hb
      have h0 : i = 0 := by simpa using hi.symm
      subst h0
      by_cases hd : d = b
      · simp [hd]
      · have hne : (d == b) = false := by simpa using hd
        simp [List.lookup_cons, hne, hd]
    · have hbf : (b == column) = false := by simpa using hb
      rw [hbf] at hi
      obtain ⟨j, hj, rfl⟩ := Option.map_eq_some_iff.1 hi
      have hlen : cells.length = columns.length := by simpa using h
      have ih := lookup_zip_set c d hlen hj
      simp only [List.set_cons_succ, List.zip_cons_cons, List.lookup_cons]
      by_cases hd : d = b
      · subst hd
        simp [hb]
      · have hne : (d == b) = false := by simpa using hd
        simp only [hne, ih]

/-- Setting a column changes that column only, and repeats none. -/
theorem set_spec {r : Row} (h : r.IsFull) (column : String) (c : Cell) :
    ∃ r', r.set column c = .ok r' ∧ r'.IsFull ∧
      (∀ d, r'.cell? d = if d = column then some c else r.cell? d) ∧
      ∀ d, r.HasOnce d → r'.HasOnce d := by
  cases hi : r.position? column with
  | none =>
    -- a new column goes to the end
    have hnone := (position?_eq_none h).1 hi
    have hnot : column ∉ r.columns := by
      have := contains_eq h column
      rw [hnone] at this
      simpa [contains] using this
    refine ⟨⟨r.columns ++ [column], r.cells ++ [c]⟩, by simp only [set, hi], ?_, ?_, ?_⟩
    · show (r.cells ++ [c]).length = (r.columns ++ [column]).length
      rw [List.length_append, List.length_append, h]
      rfl
    · intro d
      show ((r.columns ++ [column]).zip (r.cells ++ [c])).lookup d = _
      rw [List.zip_append h.symm, List.lookup_append]
      by_cases hd : d = column
      · subst hd
        rw [show (r.columns.zip r.cells).lookup d = none from hnone]
        simp
      · have hne : (d == column) = false := by simpa using hd
        simp [hd, hne, List.lookup_cons, cell?, pairs]
    · intro d hd
      show (r.columns ++ [column]).count d ≤ 1
      rw [List.count_append, List.count_singleton]
      by_cases he : column = d
      · subst he
        rw [List.count_eq_zero_of_not_mem hnot]
        simp
      · have hne : (column == d) = false := by simpa using he
        rw [hne]
        exact hd
  | some i =>
    -- of a column that repeats the first place is set, which is the one that is read
    obtain ⟨hlt, -⟩ := position?_eq_some h hi
    refine ⟨{ r with cells := r.cells.set i c }, by simp only [set, hi, if_pos hlt], ?_, ?_, ?_⟩
    · show (r.cells.set i c).length = r.columns.length
      rw [List.length_set, h]
    · exact fun d => lookup_zip_set c d h hi
    · exact fun _ hd => hd

/-- Of several cells given to a column the last one counts. -/
theorem setAll_spec {r : Row} (h : r.IsFull) (ps : List (String × Cell)) :
    ∃ r', r.setAll ps = .ok r' ∧ r'.IsFull ∧
      (∀ d, r'.cell? d = (ps.reverse.lookup d).or (r.cell? d)) ∧
      ∀ d, r.HasOnce d → r'.HasOnce d := by
  induction ps generalizing r with
  | nil => exact ⟨r, rfl, h, fun d => rfl, fun _ hd => hd⟩
  | cons p ps ih =>
    obtain ⟨column, c⟩ := p
    obtain ⟨r₁, h₁, hfull₁, hcell₁, honce₁⟩ := set_spec h column c
    obtain ⟨r₂, h₂, hfull₂, hcell₂, honce₂⟩ := ih hfull₁
    refine ⟨r₂, ?_, hfull₂, fun d => ?_, fun d hd => honce₂ d (honce₁ d hd)⟩
    · rw [setAll, h₁]
      exact h₂
    · rw [hcell₂, hcell₁, List.reverse_cons, List.lookup_append]
      cases ps.reverse.lookup d with
      | some x => rfl
      | none =>
        by_cases hd : d = column
        · simp [hd]
        · have hne : (d == column) = false := by simpa using hd
          simp [hd, hne, List.lookup_cons]

/-- Laying one row over another. -/
theorem merge_spec {r : Row} (h : r.IsFull) (other : Row) :
    ∃ r', r.merge other = .ok r' ∧ r'.IsFull ∧
      (∀ d, r'.cell? d = (other.pairs.reverse.lookup d).or (r.cell? d)) ∧
      ∀ d, r.HasOnce d → r'.HasOnce d :=
  setAll_spec h other.pairs

/-- Where no column repeats, the pairs may be read from either end. -/
theorem lookup_reverse_of_hasOnce {r : Row} (h : r.IsFull) (honce : ∀ d, r.HasOnce d)
    (column : String) : r.pairs.reverse.lookup column = r.cell? column := by
  have hnodup : (r.pairs.map Prod.fst).Nodup := by
    rw [pairs, List.map_fst_zip (Nat.le_of_eq h.symm)]
    exact List.nodup_iff_count.2 honce
  rw [cell?]
  generalize r.pairs = ps at hnodup
  -- from behind, the first pair comes last, and counts only if no other has its column
  induction ps with
  | nil => rfl
  | cons p ps ih =>
    obtain ⟨d, x⟩ := p
    obtain ⟨hnot, hrest⟩ := List.nodup_cons.1 hnodup
    rw [List.reverse_cons, List.lookup_append, ih hrest]
    by_cases hc : column = d
    · subst hc
      have hnone : ps.lookup column = none := by
        refine List.lookup_eq_none_iff.2 fun q hq => ?_
        have hcol : column ≠ q.1 := by
          rintro rfl
          exact hnot (List.mem_map.2 ⟨q, hq, rfl⟩)
        simpa using hcol
      simp [hnone]
    · have hne : (column == d) = false := by simpa using hc
      simp [List.lookup_cons, hne]

/-! ## Taking columns away -/

/-- To take away the first position of a column leaves all other columns. -/
theorem lookup_zip_eraseIdx {column d : String} (hd : d ≠ column) :
    ∀ {columns : List String} {cells : List Cell} {i : Nat},
      cells.length = columns.length → columns.findIdx? (· == column) = some i →
      ((columns.eraseIdx i).zip (cells.eraseIdx i)).lookup d = (columns.zip cells).lookup d
  | [], _, _, _, hi => by simp at hi
  | _ :: _, [], _, h, _ => by simp at h
  | b :: columns, y :: cells, i, h, hi => by
    rw [List.findIdx?_cons] at hi
    by_cases hb : b = column
    · subst hb
      have h0 : i = 0 := by simpa using hi.symm
      subst h0
      have hne : (d == b) = false := by simpa using hd
      simp [List.lookup_cons, hne]
    · have hbf : (b == column) = false := by simpa using hb
      rw [hbf] at hi
      obtain ⟨j, hj, rfl⟩ := Option.map_eq_some_iff.1 hi
      have hlen : cells.length = columns.length := by simpa using h
      have ih := lookup_zip_eraseIdx hd hlen hj
      simp only [List.eraseIdx_cons_succ, List.zip_cons_cons, List.lookup_cons, ih]

theorem eraseIdx_eq_erase {columns : List String} {column : String} {i : Nat}
    (hi : columns.findIdx? (· == column) = some i) :
    columns.eraseIdx i = columns.erase column := by
  have hidx : columns.idxOf? column = some i := hi
  rw [List.erase_eq_eraseIdx, hidx]

/-- Taking a column away leaves every other column; the column itself is gone if it did not
repeat. -/
theorem remove_spec {r : Row} (h : r.IsFull) (column : String) :
    ∃ taken r', r.remove column = .ok (taken, r') ∧ r'.IsFull ∧
      (∀ d, d ≠ column → r'.cell? d = r.cell? d) ∧
      (r.HasOnce column → r'.cell? column = none) ∧
      ∀ d, r.HasOnce d → r'.HasOnce d := by
  cases hi : r.position? column with
  | none =>
    refine ⟨none, r, by simp only [remove, hi], h, fun _ _ => rfl, fun _ => ?_, fun _ hd => hd⟩
    exact (position?_eq_none h).1 hi
  | some i =>
    obtain ⟨hlt, hc⟩ := position?_eq_some h hi
    have hlt' : i < r.columns.length := by
      rw [← h]
      exact hlt
    have hfull : (⟨r.columns.eraseIdx i, r.cells.eraseIdx i⟩ : Row).IsFull := by
      show (r.cells.eraseIdx i).length = (r.columns.eraseIdx i).length
      rw [List.length_eraseIdx_of_lt hlt, List.length_eraseIdx_of_lt hlt', h]
    have herase : r.columns.eraseIdx i = r.columns.erase column := eraseIdx_eq_erase hi
    refine ⟨some r.cells[i], ⟨r.columns.eraseIdx i, r.cells.eraseIdx i⟩, ?_, hfull, ?_, ?_, ?_⟩
    · simp only [remove, hi, at?, List.getElem?_eq_getElem hlt]
    · exact fun d hd => lookup_zip_eraseIdx hd h hi
    · intro honce
      have hzero : (r.columns.eraseIdx i).count column = 0 := by
        rw [herase, List.count_erase_self]
        have : r.columns.count column ≤ 1 := honce
        omega
      have hnot : column ∉ r.columns.eraseIdx i := List.count_eq_zero.1 hzero
      have hcontains := contains_eq hfull column
      simp only [contains, List.contains_eq_mem, hnot, decide_false] at hcontains
      simpa using hcontains.symm
    · intro d hd
      show (r.columns.eraseIdx i).count d ≤ 1
      rw [herase]
      exact Nat.le_trans (List.erase_sublist.count_le d) hd

/-- Taking columns away that do not repeat. -/
theorem removeAll_spec {r : Row} (h : r.IsFull) (columns : List String)
    (honce : ∀ d ∈ columns, r.HasOnce d) :
    ∃ r', r.removeAll columns = .ok r' ∧ r'.IsFull ∧
      (∀ d, r'.cell? d = if d ∈ columns then none else r.cell? d) ∧
      ∀ d, r.HasOnce d → r'.HasOnce d := by
  induction columns generalizing r with
  | nil => exact ⟨r, rfl, h, fun d => by simp, fun _ hd => hd⟩
  | cons column columns ih =>
    obtain ⟨taken, r₁, h₁, hfull₁, hother₁, hself₁, honce₁⟩ := remove_spec h column
    have hgone := hself₁ (honce column (List.mem_cons_self ..))
    obtain ⟨r₂, h₂, hfull₂, hcell₂, honce₂⟩ :=
      ih hfull₁ fun d hd => honce₁ d (honce d (List.mem_cons_of_mem _ hd))
    refine ⟨r₂, ?_, hfull₂, fun d => ?_, fun d hd => honce₂ d (honce₁ d hd)⟩
    · rw [removeAll, h₁]
      exact h₂
    · rw [hcell₂]
      by_cases hd : d = column
      · subst hd
        simp [hgone]
      · simp [hd, hother₁ d hd]

/-! ## Columns that repeat -/

/-- Every place of a column has this cell. -/
def Holds (r : Row) (column : String) (c : Cell) : Prop := ∀ x, (column, x) ∈ r.pairs → x = c

section

variable {r r' : Row} {d : String} {x : Cell}

/-- A pair stands at one position of both lists. -/
theorem mem_pairs {p : String × Cell} :
    p ∈ r.pairs ↔ ∃ i : Nat, r.columns[i]? = some p.1 ∧ r.cells[i]? = some p.2 := by
  rw [pairs, List.mem_iff_getElem?]
  simp only [List.getElem?_zip_eq_some]

/-- A column with a place left has the cell of all its places. -/
theorem Holds.cell?_eq (h : r.Holds d x) (hfull : r.IsFull) (hd : 0 < r.columns.count d) :
    r.cell? d = some x := by
  have hin : r.contains d = true := by simpa [contains] using List.count_pos_iff.1 hd
  rw [contains_eq hfull] at hin
  obtain ⟨y, hy⟩ := Option.isSome_iff_exists.1 hin
  rw [hy, h y (mem_of_lookup hy)]

/-- Setting a cell takes no place away, and no other column gets the cell. -/
theorem Holds.set (h : r.Holds d x) (hfull : r.IsFull) {column : String} {c : Cell}
    (hset : r.set column c = .ok r') (hc : column = d → c = x) :
    r'.Holds d x ∧ r.columns.count d ≤ r'.columns.count d := by
  unfold Row.set at hset
  cases hi : r.position? column with
  | none =>
    simp only [hi, Except.ok.injEq] at hset
    subst hset
    refine ⟨fun y hy => ?_, (List.sublist_append_left ..).count_le d⟩
    have hpairs : (⟨r.columns ++ [column], r.cells ++ [c]⟩ : Row).pairs =
        r.pairs ++ [(column, c)] := List.zip_append hfull.symm
    rw [hpairs, List.mem_append, List.mem_singleton, Prod.mk.injEq] at hy
    rcases hy with hy | ⟨rfl, rfl⟩
    · exact h y hy
    · exact hc rfl
  | some i =>
    obtain ⟨hlt, -⟩ := position?_eq_some hfull hi
    simp only [hi, if_pos hlt, Except.ok.injEq] at hset
    subst hset
    refine ⟨fun y hy => ?_, Nat.le_refl _⟩
    obtain ⟨j, hcolumn, hcell⟩ := mem_pairs.1 hy
    rw [List.getElem?_set] at hcell
    by_cases hij : i = j
    · subst hij
      rw [if_pos rfl, if_pos hlt, Option.some.injEq] at hcell
      obtain ⟨hi', hat, -⟩ := List.findIdx?_eq_some_iff_getElem.1 hi
      rw [List.getElem?_eq_getElem hi', Option.some.injEq] at hcolumn
      exact hcell.symm.trans (hc ((beq_iff_eq.1 hat).symm.trans hcolumn))
    · rw [if_neg hij] at hcell
      exact h y (mem_pairs.2 ⟨j, hcolumn, hcell⟩)

/-- Taking a column away takes one of its places. -/
theorem Holds.remove (h : r.Holds d x) {column : String} {taken : Option Cell}
    (hremove : r.remove column = .ok (taken, r')) :
    r'.Holds d x ∧ r.columns.count d ≤ r'.columns.count d + [column].count d := by
  unfold Row.remove at hremove
  cases hi : r.position? column with
  | none =>
    simp only [hi, Except.ok.injEq, Prod.mk.injEq] at hremove
    rw [← hremove.2]
    exact ⟨h, Nat.le_add_right ..⟩
  | some i =>
    cases hat : r.at? i with
    | none => simp [hi, hat] at hremove
    | some c =>
      simp only [hi, hat, Except.ok.injEq, Prod.mk.injEq] at hremove
      obtain ⟨-, rfl⟩ := hremove
      refine ⟨fun y hy => ?_, ?_⟩
      · obtain ⟨j, hcolumn, hcell⟩ := mem_pairs.1 hy
        simp only [List.getElem?_eraseIdx] at hcolumn hcell
        split at hcolumn
        next hlt =>
          rw [if_pos hlt] at hcell
          exact h y (mem_pairs.2 ⟨j, hcolumn, hcell⟩)
        next hlt =>
          -- the places behind the one that is gone have moved up
          rw [if_neg hlt] at hcell
          exact h y (mem_pairs.2 ⟨j + 1, hcolumn, hcell⟩)
      · show _ ≤ (r.columns.eraseIdx i).count d + _
        rw [eraseIdx_eq_erase hi, List.count_erase, List.count_singleton]
        omega

/-- A column that holds a value holds it when other columns are set, and keeps its positions. -/
theorem Holds.setAll (h : r.Holds d x) (hfull : r.IsFull) {ps : List (String × Cell)}
    (hset : r.setAll ps = .ok r') (hc : ∀ p ∈ ps, p.1 = d → p.2 = x) :
    r'.Holds d x ∧ r.columns.count d ≤ r'.columns.count d := by
  induction ps generalizing r with
  | nil =>
    rw [← Except.ok.inj hset]
    exact ⟨h, Nat.le_refl _⟩
  | cons p ps ih =>
    obtain ⟨r₁, h₁, hfull₁, -⟩ := set_spec hfull p.1 p.2
    rw [Row.setAll, h₁] at hset
    obtain ⟨hholds, hcount⟩ := h.set hfull h₁ (hc p (List.mem_cons_self ..))
    obtain ⟨hholds', hcount'⟩ := ih hholds hfull₁ hset fun q hq => hc q (List.mem_cons_of_mem _ hq)
    exact ⟨hholds', Nat.le_trans hcount hcount'⟩

/-- Columns that are not taken away keep their cells. -/
theorem cell?_removeAll (h : r.IsFull) {columns : List String}
    (hremove : r.removeAll columns = .ok r') (hd : d ∉ columns) : r'.cell? d = r.cell? d := by
  induction columns generalizing r with
  | nil => rw [← Except.ok.inj hremove]
  | cons column columns ih =>
    obtain ⟨taken, r₁, h₁, hfull₁, hother₁, -⟩ := remove_spec h column
    rw [removeAll, h₁] at hremove
    rw [List.mem_cons, not_or] at hd
    rw [ih hfull₁ hremove hd.2, hother₁ d hd.1]

/-- Columns that are taken away lose as many places. -/
theorem exists_removeAll (h : r.IsFull) (columns : List String) :
    ∃ r', r.removeAll columns = .ok r' ∧ r'.IsFull ∧ ∀ d x, r.Holds d x →
      r'.Holds d x ∧ r.columns.count d ≤ r'.columns.count d + columns.count d := by
  induction columns generalizing r with
  | nil => exact ⟨r, rfl, h, fun _ _ hd => ⟨hd, Nat.le_refl _⟩⟩
  | cons column columns ih =>
    obtain ⟨taken, r₁, h₁, hfull₁, -⟩ := remove_spec h column
    obtain ⟨r₂, h₂, hfull₂, hholds₂⟩ := ih hfull₁
    refine ⟨r₂, ?_, hfull₂, fun d x hd => ?_⟩
    · rw [Row.removeAll, h₁]
      exact h₂
    · obtain ⟨hd₁, hcount₁⟩ := hd.remove h₁
      obtain ⟨hd₂, hcount₂⟩ := hholds₂ d x hd₁
      rw [List.count_singleton] at hcount₁
      refine ⟨hd₂, ?_⟩
      rw [List.count_cons]
      omega

end
end WideRow.Row
