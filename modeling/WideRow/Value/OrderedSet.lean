/-!
# Sets kept in order

A finite set as the strictly ascending list of its elements, so that equal sets are equal
values. `OrderedSet.ofList_items` is the law that reading a set's own elements gives the set
back.
-/

namespace WideRow

/-- A finite set: its elements in strictly ascending order. -/
structure OrderedSet (α : Type) [Ord α] where
  items : List α
  ascending : items.Pairwise (compare · · = .lt)

namespace OrderedSet

variable {α : Type} [Ord α]

/-- Puts an element at its place; one that is there already stays. -/
def place (x : α) : List α → List α
  | [] => [x]
  | y :: ys =>
    match compare x y with
    | .lt => x :: y :: ys
    | .eq => y :: ys
    | .gt => y :: place x ys

theorem mem_of_mem_place {x z : α} {ys : List α} (h : z ∈ place x ys) : z = x ∨ z ∈ ys := by
  induction ys with
  | nil => simpa [place] using h
  | cons y ys ih =>
    unfold place at h
    split at h
    · simpa using h
    · exact .inr h
    · rcases List.mem_cons.1 h with rfl | h
      · exact .inr (List.mem_cons_self ..)
      · exact (ih h).imp_right (List.mem_cons_of_mem _)

/-- An item that is placed stands between the smaller and the greater ones. -/
theorem pairwise_place [Std.TransOrd α] (x : α) {ys : List α}
    (h : ys.Pairwise (compare · · = .lt)) : (place x ys).Pairwise (compare · · = .lt) := by
  induction ys with
  | nil => simp [place]
  | cons y ys ih =>
    obtain ⟨hy, hys⟩ := List.pairwise_cons.1 h
    unfold place
    split
    next hxy =>
      refine List.pairwise_cons.2 ⟨fun z hz => ?_, h⟩
      rcases List.mem_cons.1 hz with rfl | hz
      · exact hxy
      · exact Std.TransCmp.lt_trans hxy (hy z hz)
    next => exact h
    next hxy =>
      refine List.pairwise_cons.2 ⟨fun z hz => ?_, ih hys⟩
      rcases mem_of_mem_place hz with rfl | hz
      · exact Std.OrientedCmp.lt_of_gt hxy
      · exact hy z hz

/-- The elements of a list as a set. -/
def ofList [Std.TransOrd α] (xs : List α) : OrderedSet α :=
  ⟨xs.foldr place [], by
    induction xs with
    | nil => exact .nil
    | cons x xs ih => exact pairwise_place x ih⟩

/-- Items in order are placed where they are. -/
theorem foldr_place_of_ascending {xs : List α} (h : xs.Pairwise (compare · · = .lt)) :
    xs.foldr place [] = xs := by
  induction xs with
  | nil => rfl
  | cons x xs ih =>
    obtain ⟨hx, hxs⟩ := List.pairwise_cons.1 h
    rw [List.foldr_cons, ih hxs]
    cases xs with
    | nil => rfl
    | cons y ys => simp [place, hx y (List.mem_cons_self ..)]

/-- A set is the set of its elements. -/
theorem ofList_items [Std.TransOrd α] (s : OrderedSet α) : ofList s.items = s := by
  obtain ⟨items, h⟩ := s
  simp [ofList, foldr_place_of_ascending h]

/-- Sets are ordered as the lists of their elements. -/
instance : Ord (OrderedSet α) := ⟨fun a b => compare a.items b.items⟩

instance [Std.TransOrd α] : Std.TransOrd (OrderedSet α) where
  eq_swap := fun {a b} => Std.OrientedOrd.eq_swap (a := a.items) (b := b.items)
  isLE_trans := fun {a b c} =>
    Std.TransOrd.isLE_trans (a := a.items) (b := b.items) (c := c.items)

end OrderedSet

end WideRow
