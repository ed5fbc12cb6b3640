import WideRow.Proofs.OrderedMaps
import WideRow.Proofs.Statements

/-!
# Rows that share their columns

Rows of one result have the same columns, and a copy of a row has the columns of the row. So rows
are kept with lists of columns that they share, and a row whose columns change gets a list of its
own first, unless nothing else has its list (`Shelf.changeColumns`). Every edit of a row of such a
shelf is what it is on a row by itself, and leaves all other rows as they are (`Shelf.Edits`):

> `ShelfEdit.exists_run`: a run of edits comes to what it comes to on rows that share nothing.

When a row is merged into another one, its cells are read one after the other between the edits of
that one. They are the cells that it had at first, because none of the edits is seen by it
(`Shelf.exists_mergeAt`).
-/

namespace WideRow

/-- A row that has the place of its columns among the lists of a shelf. -/
structure SharedRow where
  place : Nat
  cells : List Cell

/-- Rows with the lists of columns that they share, and the places of the lists that results have
as their heads. -/
structure Shelf where
  lists : List (List String)
  rows : List SharedRow
  heads : List Nat := []

namespace Shelf

/-- The columns of a row. -/
def columns (s : Shelf) (x : SharedRow) : List String := s.lists[x.place]?.getD []

/-- The row by itself. -/
def view (s : Shelf) (x : SharedRow) : Row := ⟨s.columns x, x.cells⟩

/-- All rows, each by itself. -/
def views (s : Shelf) : List Row := s.rows.map s.view

/-- The heads of the results. -/
def headings (s : Shelf) : List (List String) := s.heads.map (s.lists[·]?.getD [])

/-- The number of rows and results that have a list. -/
def owners (s : Shelf) (place : Nat) : Nat :=
  s.rows.countP (·.place == place) + s.heads.count place

/-- Every row and every result has a list. -/
structure IsSound (s : Shelf) : Prop where
  rows : ∀ x ∈ s.rows, x.place < s.lists.length
  heads : ∀ place ∈ s.heads, place < s.lists.length

/-- What an edit of a row is to a shelf: only that row is seen to change. -/
structure Edits (s : Shelf) (i : Nat) (r : Row) (s' : Shelf) : Prop where
  isSound : s'.IsSound
  views : s'.views = s.views.set i r
  headings : s'.headings = s.headings

/-! ## Copies and edits -/

/-- Puts a copy of a row behind all rows. It has the same list. -/
def clone (s : Shelf) (i : Nat) : Shelf := { s with rows := s.rows ++ s.rows[i]?.toList }

/-- Changes the columns of a row along with its cells. The list is changed where it is if no other
row has it; otherwise the row gets a changed copy. -/
def changeColumns (s : Shelf) (i : Nat) (x : SharedRow) (change : List String → List String)
    (cells : List Cell) : Shelf :=
  if s.owners x.place = 1 then
    { s with lists := s.lists.modify x.place change, rows := s.rows.set i { x with cells } }
  else
    { s with
      lists := s.lists ++ [change (s.columns x)]
      rows := s.rows.set i ⟨s.lists.length, cells⟩ }

/-- Gives a column of a row a cell, a new column at the end. -/
def set (s : Shelf) (i : Nat) (column : String) (c : Cell) : Except Error Shelf :=
  match s.rows[i]? with
  | none => .error .brokenOff
  | some x =>
    match (s.view x).position? column with
    | none => .ok (s.changeColumns i x (· ++ [column]) (x.cells ++ [c]))
    | some p =>
      if p < x.cells.length then
        .ok { s with rows := s.rows.set i { x with cells := x.cells.set p c } }
      else .error .brokenOff

/-- Takes a column of a row away. The first component is its cell, if the row had the column. -/
def remove (s : Shelf) (i : Nat) (column : String) : Except Error (Option Cell × Shelf) :=
  match s.rows[i]? with
  | none => .error .brokenOff
  | some x =>
    match (s.view x).position? column with
    | none => .ok (none, s)
    | some p =>
      match x.cells[p]? with
      | none => .error .brokenOff
      | some c => .ok (some c, s.changeColumns i x (·.eraseIdx p) (x.cells.eraseIdx p))

/-- The columns of a row and their cells, as they are now. -/
def pairsOf (s : Shelf) (j : Nat) : List (String × Cell) :=
  (s.rows[j]?.map fun x => (s.view x).pairs).getD []

/-- Sets columns of a row to cells of another one, which are read at some places one after the
other. -/
def mergeAt (s : Shelf) (i j : Nat) : List Nat → Except Error Shelf
  | [] => .ok s
  | k :: places =>
    match (s.pairsOf j)[k]? with
    | none => s.mergeAt i j places
    | some (column, c) => do (← s.set i column c).mergeAt i j places

/-- Sets every column of a row that another row has to that one's cell. -/
def merge (s : Shelf) (i j : Nat) : Except Error Shelf :=
  s.mergeAt i j (List.range (s.pairsOf j).length)

/-! ## What is seen of an edit -/

section

variable {s s' : Shelf} {i j : Nat} {x : SharedRow} {r r' : Row}

/-- Of places that at most one item has, there is one. -/
theorem index_unique {α : Type} {p : α → Bool} {a b : α} :
    ∀ {as : List α} {i j : Nat}, as.countP p ≤ 1 → as[i]? = some a → as[j]? = some b →
      p a = true → p b = true → i = j
  | [], _, _, _, hi, _, _, _ => by simp at hi
  | c :: as, i, j, h, hi, hj, ha, hb => by
    rw [List.countP_cons] at h
    have hnone : ∀ {k : Nat} {d : α}, p c = true → as[k]? = some d → p d = true → False := by
      intro k d hc hk hd
      rw [if_pos hc] at h
      have hzero : as.countP p = 0 := by omega
      exact absurd hd (List.countP_eq_zero.1 hzero d (List.mem_of_getElem? hk))
    cases i with
    | zero =>
      obtain rfl : c = a := by simpa using hi
      cases j with
      | zero => rfl
      | succ j => exact (hnone ha (by simpa using hj) hb).elim
    | succ i =>
      cases j with
      | zero =>
        obtain rfl : c = b := by simpa using hj
        exact (hnone hb (by simpa using hi) ha).elim
      | succ j =>
        have hrest : as.countP p ≤ 1 := by omega
        exact congrArg (· + 1) (index_unique hrest (by simpa using hi) (by simpa using hj) ha hb)

theorem views_getElem? : s.views[i]? = s.rows[i]?.map s.view := List.getElem?_map ..

/-- Every view is one of a row. -/
theorem exists_row (h : s.views[i]? = some r) : ∃ x, s.rows[i]? = some x ∧ s.view x = r := by
  rw [views_getElem?] at h
  exact Option.map_eq_some_iff.1 h

/-- The columns and cells that are read of a row are the ones that are seen of it. -/
theorem pairsOf_of_getElem? (h : s.views[i]? = some r) : s.pairsOf i = r.pairs := by
  obtain ⟨x, hx, rfl⟩ := exists_row h
  rw [pairsOf, hx]
  rfl

theorem set_of_getElem? {α : Type} {as : List α} {i : Nat} {a : α} (h : as[i]? = some a) :
    as.set i a = as := by
  obtain ⟨hi, rfl⟩ := List.getElem?_eq_some_iff.1 h
  exact List.set_getElem_self hi

/-- Where all other rows and the results have the lists that they had, only the one row is seen to
change. -/
theorem edits_of_lists {y : SharedRow} (hsound : s.IsSound) (hy : y.place < s'.lists.length)
    (hlength : s.lists.length ≤ s'.lists.length) (hview : s'.view y = r)
    (hrows : s'.rows = s.rows.set i y) (hheads : s'.heads = s.heads)
    (hothers : ∀ k z, k ≠ i → s.rows[k]? = some z → s'.lists[z.place]? = s.lists[z.place]?)
    (hresults : ∀ place ∈ s.heads, s'.lists[place]? = s.lists[place]?) : s.Edits i r s' where
  isSound := by
    refine ⟨fun z hz => ?_, fun place hplace => ?_⟩
    · rw [hrows] at hz
      rcases List.mem_or_eq_of_mem_set hz with hz | rfl
      · exact Nat.lt_of_lt_of_le (hsound.rows z hz) hlength
      · exact hy
    · rw [hheads] at hplace
      exact Nat.lt_of_lt_of_le (hsound.heads place hplace) hlength
  views := by
    refine List.ext_getElem? fun k => ?_
    rw [views_getElem?, hrows, List.getElem?_set, List.getElem?_set, views_getElem?]
    unfold Shelf.views
    rw [List.length_map]
    by_cases hk : i = k
    · rw [if_pos hk, if_pos hk]
      split
      next => rw [Option.map_some, hview]
      next => rfl
    · rw [if_neg hk, if_neg hk]
      cases hz : s.rows[k]? with
      | none => rfl
      | some z =>
        have hlist := hothers k z (fun h => hk h.symm) hz
        rw [Option.map_some, Option.map_some, Shelf.view, Shelf.view, Shelf.columns,
          Shelf.columns, hlist]
  headings := by
    unfold Shelf.headings
    rw [hheads]
    refine List.map_congr_left fun place hplace => ?_
    rw [hresults place hplace]

/-- Whether the list is changed or copied, it is another one for the row alone. -/
theorem edits_changeColumns (hsound : s.IsSound) (hx : s.rows[i]? = some x)
    (change : List String → List String) (cells : List Cell) :
    s.Edits i ⟨change (s.columns x), cells⟩ (s.changeColumns i x change cells) := by
  have hplace : x.place < s.lists.length := hsound.rows x (List.mem_of_getElem? hx)
  unfold changeColumns
  split
  next hone =>
    have hrow : 0 < s.rows.countP (·.place == x.place) :=
      List.countP_pos_iff.2 ⟨x, List.mem_of_getElem? hx, beq_self_eq_true _⟩
    rw [owners] at hone
    have hsame : ∀ place, place ≠ x.place →
        (s.lists.modify x.place change)[place]? = s.lists[place]? := fun place hne => by
      simp [Ne.symm hne]
    refine edits_of_lists hsound ?_ ?_ ?_ rfl rfl (fun k z hk hz => ?_) fun place hmem => ?_
    · rw [List.length_modify]
      exact hplace
    · exact Nat.le_of_eq (List.length_modify ..).symm
    · simp [view, columns, List.getElem?_eq_getElem hplace]
    · refine hsame z.place fun heq => hk ?_
      exact index_unique (p := (·.place == x.place)) (by omega) hz hx (by simp [heq]) (by simp)
    · refine hsame place fun heq => ?_
      have hnone : s.heads.count x.place = 0 := by omega
      exact absurd (heq ▸ hmem) (List.count_eq_zero.1 hnone)
  next =>
    have hsame : ∀ place, place < s.lists.length →
        (s.lists ++ [change (s.columns x)])[place]? = s.lists[place]? :=
      fun place hlt => List.getElem?_append_left hlt
    refine edits_of_lists hsound ?_ ?_ ?_ rfl rfl (fun k z _ hz => ?_) fun place hmem => ?_
    · rw [List.length_append]
      exact Nat.lt_succ_self _
    · rw [List.length_append]
      exact Nat.le_add_right ..
    · simp [view, columns]
    · exact hsame z.place (hsound.rows z (List.mem_of_getElem? hz))
    · exact hsame place (hsound.heads place hmem)

/-- A row that is put back as it was is no change. -/
theorem edits_self (hsound : s.IsSound) (hr : s.views[i]? = some r) : s.Edits i r s :=
  ⟨hsound, (set_of_getElem? hr).symm, rfl⟩

/-- Of two edits of a row the second one counts. -/
theorem Edits.trans {s₁ s₂ : Shelf} {r₁ r₂ : Row} (h₁ : s.Edits i r₁ s₁) (h₂ : s₁.Edits i r₂ s₂) :
    s.Edits i r₂ s₂ where
  isSound := h₂.isSound
  views := by rw [h₂.views, h₁.views, List.set_set]
  headings := h₂.headings.trans h₁.headings

/-- What is seen of the edited row. -/
theorem Edits.getElem?_self (h : s.Edits i r' s') (hr : s.views[i]? = some r) :
    s'.views[i]? = some r' := by
  obtain ⟨hi, -⟩ := List.getElem?_eq_some_iff.1 hr
  rw [h.views, List.getElem?_set_self hi]

/-- To set a cell of one row is seen in this row only, whatever it shares with others. -/
theorem exists_set (hsound : s.IsSound) (hr : s.views[i]? = some r) {column : String} {c : Cell}
    (hset : r.set column c = .ok r') : ∃ s', s.set i column c = .ok s' ∧ s.Edits i r' s' := by
  obtain ⟨x, hx, rfl⟩ := exists_row hr
  cases hposition : (s.view x).position? column with
  | none =>
    simp only [Row.set, hposition] at hset
    obtain rfl := Except.ok.inj hset
    exact ⟨_, by simp only [Shelf.set, hx, hposition],
      edits_changeColumns hsound hx (· ++ [column]) (x.cells ++ [c])⟩
  | some p =>
    simp only [Row.set, hposition] at hset
    split at hset
    next hlt =>
      obtain rfl := Except.ok.inj hset
      have hlt' : p < x.cells.length := hlt
      -- the row has the column, so that no list is touched
      refine ⟨{ s with rows := s.rows.set i { x with cells := x.cells.set p c } }, ?_,
        edits_of_lists (y := { x with cells := x.cells.set p c }) hsound
          (hsound.rows x (List.mem_of_getElem? hx)) (Nat.le_refl _) rfl rfl rfl
          (fun _ _ _ _ => rfl) fun _ _ => rfl⟩
      simp only [Shelf.set, hx, hposition, if_pos hlt']
    next => cases hset

/-- To take a column out of one row is seen in this row only. -/
theorem exists_remove (hsound : s.IsSound) (hr : s.views[i]? = some r) {column : String}
    {taken : Option Cell} (hremove : r.remove column = .ok (taken, r')) :
    ∃ s', s.remove i column = .ok (taken, s') ∧ s.Edits i r' s' := by
  obtain ⟨x, hx, rfl⟩ := exists_row hr
  cases hposition : (s.view x).position? column with
  | none =>
    simp only [Row.remove, hposition] at hremove
    obtain ⟨rfl, rfl⟩ := Prod.mk.inj (Except.ok.inj hremove)
    exact ⟨s, by simp only [Shelf.remove, hx, hposition], edits_self hsound hr⟩
  | some p =>
    cases hat : x.cells[p]? with
    | none =>
      have hat' : (s.view x).at? p = none := hat
      simp only [Row.remove, hposition, hat'] at hremove
      cases hremove
    | some c =>
      have hat' : (s.view x).at? p = some c := hat
      simp only [Row.remove, hposition, hat'] at hremove
      obtain ⟨rfl, rfl⟩ := Prod.mk.inj (Except.ok.inj hremove)
      exact ⟨_, by simp only [Shelf.remove, hx, hposition, hat],
        edits_changeColumns hsound hx (·.eraseIdx p) (x.cells.eraseIdx p)⟩

/-- The cells that are read between the edits are the ones that the other row had at first. -/
theorem exists_mergeAt {other : Row} (hne : i ≠ j) {places : List Nat} (hsound : s.IsSound)
    (hr : s.views[i]? = some r) (hother : s.views[j]? = some other)
    (hset : r.setAll (places.filterMap (other.pairs[·]?)) = .ok r') :
    ∃ s', s.mergeAt i j places = .ok s' ∧ s.Edits i r' s' := by
  induction places generalizing s r with
  | nil =>
    obtain rfl := Except.ok.inj hset
    exact ⟨s, rfl, edits_self hsound hr⟩
  | cons k places ih =>
    rw [mergeAt, pairsOf_of_getElem? hother]
    cases hk : other.pairs[k]? with
    | none =>
      rw [List.filterMap_cons_none hk] at hset
      exact ih hsound hr hother hset
    | some p =>
      obtain ⟨column, c⟩ := p
      rw [List.filterMap_cons_some hk, Row.setAll] at hset
      obtain ⟨r₁, h₁, hrest⟩ := bind_eq_ok.1 hset
      obtain ⟨s₁, hs₁, hedit₁⟩ := exists_set hsound hr h₁
      have hother₁ : s₁.views[j]? = some other := by
        rw [hedit₁.views, List.getElem?_set_ne hne, hother]
      obtain ⟨s', hs', hedit⟩ := ih hedit₁.isSound (hedit₁.getElem?_self hr) hother₁ hrest
      refine ⟨s', ?_, hedit₁.trans hedit⟩
      show (s.set i column c >>= fun s₁ => s₁.mergeAt i j places) = .ok s'
      rw [hs₁]
      exact hs'

theorem filterMap_range {α : Type} (as : List α) :
    (List.range as.length).filterMap (as[·]?) = as := by
  induction as with
  | nil => rfl
  | cons a as ih =>
    rw [List.length_cons, List.range_succ_eq_map]
    show a :: ((List.range as.length).map Nat.succ).filterMap ((a :: as)[·]?) = a :: as
    rw [List.filterMap_map]
    exact congrArg (a :: ·) ih

/-- Merging another row of the shelf changes the row as the merge of the two rows does, and leaves
every other row, the other one included. -/
theorem exists_merge {other : Row} (hsound : s.IsSound) (hne : i ≠ j) (hr : s.views[i]? = some r)
    (hother : s.views[j]? = some other) (hmerge : r.merge other = .ok r') :
    ∃ s', s.merge i j = .ok s' ∧ s.Edits i r' s' := by
  refine exists_mergeAt hne hsound hr hother ?_
  rw [pairsOf_of_getElem? hother, filterMap_range]
  exact hmerge

/-- A copy shows what the row shows. -/
theorem views_clone : (s.clone i).views = s.views ++ s.views[i]?.toList := by
  rw [views_getElem?]
  show (s.rows ++ s.rows[i]?.toList).map s.view = _
  rw [List.map_append]
  cases s.rows[i]? <;> rfl

end

end Shelf

/-! ## Runs of edits -/

/-- A change to the rows of a shelf. -/
inductive ShelfEdit where
  | clone (i : Nat)
  | set (i : Nat) (column : String) (c : Cell)
  | remove (i : Nat) (column : String)
  | merge (i j : Nat)

namespace ShelfEdit

/-- Makes the change on a shelf. -/
def apply (s : Shelf) : ShelfEdit → Except Error Shelf
  | clone i => .ok (s.clone i)
  | set i column c => s.set i column c
  | remove i column => (s.remove i column).map Prod.snd
  | merge i j => s.merge i j

/-- Changes one of several rows that share nothing. -/
def editAt (rows : List Row) (i : Nat) (edit : RowEdit) : Except Error (List Row) :=
  match rows[i]? with
  | none => .error .brokenOff
  | some r => (edit.apply r).map (rows.set i)

/-- Makes the change on rows that share nothing. -/
def onRows (rows : List Row) : ShelfEdit → Except Error (List Row)
  | clone i => .ok (rows ++ rows[i]?.toList)
  | set i column c => editAt rows i (.set column c)
  | remove i column => editAt rows i (.remove column)
  | merge i j => editAt rows i (.merge (rows[j]?.getD .empty))

/-- The row that is changed. -/
def target? : ShelfEdit → Option Nat
  | clone _ => none
  | set i .. | remove i _ | merge i _ => some i

/-- The change is one of rows that are there. A row is not merged into itself. -/
def Fits (n : Nat) : ShelfEdit → Prop
  | clone i | set i .. | remove i _ => i < n
  | merge i j => i < n ∧ j < n ∧ i ≠ j

/-- The number of rows after the change. -/
def count (n : Nat) : ShelfEdit → Nat
  | clone _ => n + 1
  | set .. | remove .. | merge .. => n

/-- Each change of a run is one of rows that are there by then. -/
def AllFit (n : Nat) : List ShelfEdit → Prop
  | [] => True
  | edit :: edits => edit.Fits n ∧ AllFit (edit.count n) edits

section

variable {s : Shelf} {rows rows' : List Row} {edit : ShelfEdit}

/-- An edit that succeeds replaces one row. -/
theorem editAt_eq_ok {i : Nat} {e : RowEdit} (h : editAt rows i e = .ok rows') :
    ∃ r r', rows[i]? = some r ∧ e.apply r = .ok r' ∧ rows' = rows.set i r' := by
  unfold editAt at h
  split at h
  next => cases h
  next r hr =>
    obtain ⟨r', hr', rfl⟩ := map_eq_ok.1 h
    exact ⟨r, r', hr, hr', rfl⟩

/-- On a shelf a change comes to what it comes to on rows that share nothing. -/
theorem exists_apply_of_onRows (hsound : s.IsSound) (hfits : edit.Fits s.views.length)
    (h : edit.onRows s.views = .ok rows) :
    ∃ s', edit.apply s = .ok s' ∧ s'.IsSound ∧ s'.views = rows ∧ s'.headings = s.headings := by
  cases edit with
  | clone i =>
    obtain rfl := Except.ok.inj h
    refine ⟨s.clone i, rfl, ⟨fun x hx => ?_, hsound.heads⟩, Shelf.views_clone, rfl⟩
    rcases List.mem_append.1 hx with hx | hx
    · exact hsound.rows x hx
    · exact hsound.rows x (List.mem_of_getElem? (Option.mem_toList.1 hx))
  | set i column c =>
    obtain ⟨r, r', hr, hset, rfl⟩ := editAt_eq_ok h
    obtain ⟨s', hs', hedit⟩ := Shelf.exists_set hsound hr hset
    exact ⟨s', hs', hedit.isSound, hedit.views, hedit.headings⟩
  | remove i column =>
    obtain ⟨r, r', hr, hedited, rfl⟩ := editAt_eq_ok h
    obtain ⟨⟨taken, left⟩, hremove, rfl⟩ := map_eq_ok.1 hedited
    obtain ⟨s', hs', hedit⟩ := Shelf.exists_remove hsound hr hremove
    exact ⟨s', by rw [apply, hs']; rfl, hedit.isSound, hedit.views, hedit.headings⟩
  | merge i j =>
    obtain ⟨r, r', hr, hmerge, rfl⟩ := editAt_eq_ok h
    obtain ⟨-, hj, hne⟩ := hfits
    rw [List.getElem?_eq_getElem hj, Option.getD_some] at hmerge
    obtain ⟨s', hs', hedit⟩ :=
      Shelf.exists_merge hsound hne hr (List.getElem?_eq_getElem hj) hmerge
    exact ⟨s', hs', hedit.isSound, hedit.views, hedit.headings⟩

/-- Well-formed edits of well-formed rows succeed, and leave the rows well-formed and all others as
they were. -/
theorem exists_editAt (hrows : ∀ r ∈ rows, r.IsWellFormed) {i : Nat} (hi : i < rows.length)
    {e : RowEdit} (he : e.IsWellFormed) :
    ∃ rows', editAt rows i e = .ok rows' ∧ (∀ r ∈ rows', r.IsWellFormed) ∧
      rows'.length = rows.length ∧ ∀ k, k ≠ i → rows'[k]? = rows[k]? := by
  obtain ⟨r', hr', hwell, -⟩ := RowEdit.exists_apply (hrows _ (List.getElem_mem hi)) he
  refine ⟨rows.set i r', ?_, fun r hr => ?_, List.length_set, fun k hk => ?_⟩
  · rw [editAt, List.getElem?_eq_getElem hi]
    dsimp only
    rw [hr']
    rfl
  · rcases List.mem_or_eq_of_mem_set hr with hr | rfl
    · exact hrows r hr
    · exact hwell
  · exact List.getElem?_set_ne fun h => hk h.symm

/-- Rows of this shape keep it, and all but the one that is changed stay what they are. -/
theorem exists_onRows (hrows : ∀ r ∈ rows, r.IsWellFormed) (hfits : edit.Fits rows.length) :
    ∃ rows', edit.onRows rows = .ok rows' ∧ (∀ r ∈ rows', r.IsWellFormed) ∧
      rows'.length = edit.count rows.length ∧
      ∀ k, k < rows.length → edit.target? ≠ some k → rows'[k]? = rows[k]? := by
  have hother : ∀ {i k : Nat}, some i ≠ some k → k ≠ i := fun h heq => h (congrArg some heq.symm)
  cases edit with
  | clone i =>
    have hi : rows[i]? = some rows[i] := List.getElem?_eq_getElem hfits
    refine ⟨rows ++ [rows[i]], by rw [onRows, hi]; rfl, fun r hr => ?_, List.length_append,
      fun k hk _ => List.getElem?_append_left hk⟩
    rcases List.mem_append.1 hr with hr | hr
    · exact hrows r hr
    · rw [List.mem_singleton.1 hr]
      exact hrows _ (List.getElem_mem hfits)
  | set i column c =>
    obtain ⟨rows', h, hwell, hlength, hsame⟩ :=
      exists_editAt (e := .set column c) hrows hfits trivial
    exact ⟨rows', h, hwell, hlength, fun k _ hk => hsame k (hother hk)⟩
  | remove i column =>
    obtain ⟨rows', h, hwell, hlength, hsame⟩ :=
      exists_editAt (e := .remove column) hrows hfits trivial
    exact ⟨rows', h, hwell, hlength, fun k _ hk => hsame k (hother hk)⟩
  | merge i j =>
    have hj : (rows[j]?.getD .empty).IsWellFormed := by
      rw [List.getElem?_eq_getElem hfits.2.1, Option.getD_some]
      exact hrows _ (List.getElem_mem hfits.2.1)
    obtain ⟨rows', h, hwell, hlength, hsame⟩ :=
      exists_editAt (e := .merge (rows[j]?.getD .empty)) hrows hfits.1 hj
    exact ⟨rows', h, hwell, hlength, fun k _ hk => hsame k (hother hk)⟩

/-- What a run of changes comes to. -/
theorem exists_run {edits : List ShelfEdit} (hsound : s.IsSound)
    (hrows : ∀ r ∈ s.views, r.IsWellFormed) (hfit : AllFit s.views.length edits) :
    ∃ s', edits.foldlM apply s = .ok s' ∧ s'.IsSound ∧ (∀ r ∈ s'.views, r.IsWellFormed) ∧
      edits.foldlM onRows s.views = .ok s'.views ∧ s'.headings = s.headings ∧
      ∀ k, k < s.views.length → (∀ edit ∈ edits, edit.target? ≠ some k) →
        s'.views[k]? = s.views[k]? := by
  induction edits generalizing s with
  | nil => exact ⟨s, rfl, hsound, hrows, rfl, rfl, fun _ _ _ => rfl⟩
  | cons edit edits ih =>
    obtain ⟨hfits, hrest⟩ := hfit
    obtain ⟨rows₁, hrows₁, hwell₁, hlength₁, hsame₁⟩ := exists_onRows hrows hfits
    obtain ⟨s₁, hs₁, hsound₁, rfl, hhead₁⟩ := exists_apply_of_onRows hsound hfits hrows₁
    obtain ⟨s', hs', hsound', hwell', hrun, hhead, hsame⟩ :=
      ih hsound₁ hwell₁ (by rw [hlength₁]; exact hrest)
    refine ⟨s', ?_, hsound', hwell', ?_, hhead.trans hhead₁, fun k hk htarget => ?_⟩
    · rw [List.foldlM_cons, hs₁]
      exact hs'
    · rw [List.foldlM_cons, hrows₁]
      exact hrun
    · have hk₁ : k < s₁.views.length := by
        rw [hlength₁]
        cases edit with
        | clone => exact Nat.lt_succ_of_lt hk
        | set | remove | merge => exact hk
      rw [hsame k hk₁ fun e he => htarget e (List.mem_cons_of_mem _ he),
        hsame₁ k hk (htarget edit (List.mem_cons_self ..))]

end

end ShelfEdit

/-- Rows are ordered finite maps, also where they share their columns.

Edits of a row do not break off, keep its shape, and leave each column with what was said of it
last. Merging keeps the columns that are there in their places, adds the new ones in the other
row's order, and prefers the other row's cells; it is idempotent and associative. Rows that share
their columns come to what they come to by themselves, and a row that is not itself changed, be it
one that is merged or a copy made before, stays what it is. -/
theorem rows_are_ordered_maps {r other third : Row} (h : r.IsWellFormed)
    (hother : other.IsWellFormed) (hthird : third.IsWellFormed) {changes : List RowEdit}
    (hchanges : ∀ edit ∈ changes, edit.IsWellFormed) {s : Shelf} (hsound : s.IsSound)
    (hrows : ∀ r ∈ s.views, r.IsWellFormed) {edits : List ShelfEdit}
    (hfit : ShelfEdit.AllFit s.views.length edits) :
    Row.empty.IsWellFormed ∧
    (∀ column, r.find? column = .ok (r.cell? column) ∧
      other.find? column = .ok (other.cell? column)) ∧
    (∃ r', r.editAll changes = .ok r' ∧ r'.IsWellFormed ∧ ∀ column, r'.find? column =
      .ok ((changes.reverse.findSome? (·.told? column)).getD (r.cell? column))) ∧
    (∃ m, r.merge other = .ok m ∧
      m.columns = r.columns ++ other.columns.filter (· ∉ r.columns) ∧
      (∀ column, m.find? column = .ok ((other.cell? column).or (r.cell? column))) ∧
      m.merge other = .ok m) ∧
    r.merge r = .ok r ∧
    (r.merge other >>= (·.merge third)) = (other.merge third >>= r.merge) ∧
    ∃ s', edits.foldlM ShelfEdit.apply s = .ok s' ∧ (∀ r ∈ s'.views, r.IsWellFormed) ∧
      edits.foldlM ShelfEdit.onRows s.views = .ok s'.views ∧ s'.headings = s.headings ∧
      ∀ k, k < s.views.length → (∀ edit ∈ edits, edit.target? ≠ some k) →
        s'.views[k]? = s.views[k]? := by
  refine ⟨Row.isWellFormed_empty, fun column =>
    ⟨Row.find?_eq h.isFull column, Row.find?_eq hother.isFull column⟩, ?_, ?_, Row.merge_self h,
    Row.merge_merge h hother hthird, ?_⟩
  · obtain ⟨r', hr', hwell, hcell⟩ := Row.exists_editAll h hchanges
    exact ⟨r', hr', hwell, fun column => by rw [Row.find?_eq hwell.isFull, hcell]⟩
  · obtain ⟨m, hm, hwell, hcolumns, hcell⟩ := Row.exists_merge h hother
    exact ⟨m, hm, hcolumns, fun column => by rw [Row.find?_eq hwell.isFull, hcell],
      Row.merge_again h hother hm⟩
  · obtain ⟨s', hs', -, hwell, hrun, hheadings, hsame⟩ := ShelfEdit.exists_run hsound hrows hfit
    exact ⟨s', hs', hwell, hrun, hheadings, hsame⟩

/-- A cached row that is copied, laid under an update and freed of a column. -/
def cachedRow : Row :=
  .ofPairs [("id", some (.int 100)), ("name", some (.text "Ada")), ("age", none)]

/-- The update that is laid over it. -/
def updatedRow : Row := .ofPairs [("age", some (.int 34)), ("email", some (.text "a@b"))]

theorem merged_row_differs_from_its_copy :
    let s : Shelf :=
      ⟨[cachedRow.columns, updatedRow.columns], [⟨0, cachedRow.cells⟩, ⟨1, updatedRow.cells⟩], [0]⟩
    ∃ s', [.clone 0, .merge 0 1, .remove 0 "email", .remove 0 "email"].foldlM
        ShelfEdit.apply s = .ok s' ∧
      s'.views[0]? = some (.ofPairs
        [("id", some (.int 100)), ("name", some (.text "Ada")), ("age", some (.int 34))]) ∧
      s'.views[1]? = some updatedRow ∧ s'.views[2]? = some cachedRow ∧
      s'.headings = [cachedRow.columns] ∧
      ∃ m, cachedRow.merge updatedRow = .ok m ∧ m.columns = ["id", "name", "age", "email"] ∧
        m.find? "age" = .ok (some (some (.int 34))) ∧ m.merge updatedRow = .ok m := by
  have hcached : cachedRow.IsWellFormed := ⟨by decide, rfl⟩
  have hupdated : updatedRow.IsWellFormed := ⟨by decide, rfl⟩
  intro s
  have hchanges : ∀ edit ∈ [RowEdit.merge updatedRow, .remove "email"], edit.IsWellFormed := by
    rintro edit (_ | ⟨_, _ | ⟨_, ⟨⟩⟩⟩)
    · exact hupdated
    · trivial
  have hrows : ∀ r ∈ s.views, r.IsWellFormed := by
    rintro r (_ | ⟨_, _ | ⟨_, ⟨⟩⟩⟩)
    · exact hcached
    · exact hupdated
  have hsound : s.IsSound := ⟨by decide, by decide⟩
  have hfit : ShelfEdit.AllFit s.views.length
      [.clone 0, .merge 0 1, .remove 0 "email", .remove 0 "email"] :=
    ⟨(by decide : 0 < 2), ⟨by decide, by decide, by decide⟩, (by decide : 0 < 3),
      (by decide : 0 < 3), trivial⟩
  obtain ⟨-, -, -, ⟨m, hm, hcolumns, hcell, hagain⟩, -, -, s', hs', -, hrun, hheadings, -⟩ :=
    rows_are_ordered_maps hcached hupdated Row.isWellFormed_empty hchanges hsound hrows hfit
  obtain hviews := Except.ok.inj hrun
  refine ⟨s', hs', ?_, ?_, ?_, hheadings, m, hm, hcolumns, hcell "age", hagain⟩ <;>
    rw [← hviews] <;> rfl

end WideRow
