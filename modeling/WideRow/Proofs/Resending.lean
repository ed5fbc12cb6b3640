import WideRow.Proofs.KeyedTable
import WideRow.Proofs.OneTable
import WideRow.Proofs.Refusals

/-!
# Writes that may be sent again

A statement says of itself whether it may be sent again where it is not known if it was carried
out. An UPDATE says so if each of its assignments by itself leaves nothing more to do. That this is
enough for all of them together, several on one column among them, has a reason: whatever setting,
adding and removing come to, one after the other, is one of three effects (`Storage.Effect`), and
each of these leaves nothing more to do either.

> `apply_andThen`, `apply_apply`: an effect followed by an assignment is an effect, and to have an
> effect twice is to have it once.
>
> `execute_execute`: a statement that may be sent again comes to the same when it is, on every
> table, as long as it changes no column of the key.
>
> `resend`: so it is with what operations build. An operation says that it may be sent again exactly
> if it has no condition, is not the emptying of a table, and does not count, append or prepend.
-/

namespace WideRow

namespace Storage

variable {D : Storage}

/-! ## Sets -/

/-- The element of a list that its set has is the first of those that are equal to it. -/
theorem get?_foldl_insert (x : Value) : ∀ (vs : List Value) (S : D.Elements),
    (vs.foldl (fun S v => S.insert v) S).get? x =
      (S.get? x).or (vs.find? fun v => D.order.compare v x == .eq)
  | [], S => by simp
  | v :: vs, S => by
    rw [List.foldl_cons, get?_foldl_insert x vs, Std.ExtTreeSet.get?_insert, List.find?_cons]
    by_cases hv : D.order.compare v x = .eq
    · -- an equal element that is there already stays, and `v` is not put in its place
      have hcongr : S.get? v = S.get? x := Std.ExtTreeSet.get?_congr hv
      by_cases hmem : v ∈ S
      · obtain ⟨y, hy⟩ := Option.isSome_iff_exists.1 (Std.ExtTreeSet.mem_iff_isSome_get?.1 hmem)
        rw [if_neg (by simp [hmem]), ← hcongr, hy]
        rfl
      · have hnone : S.get? x = none := by
          rw [← hcongr]
          exact Std.ExtTreeSet.get?_eq_none hmem
        rw [if_pos ⟨hv, hmem⟩, hnone, hv]
        rfl
    · have hne : (D.order.compare v x == .eq) = false := by simpa using hv
      rw [if_neg fun h => hv h.1, hne]

/-- Of items that are the same, the first one is the element. -/
theorem get?_elements (vs : List Value) (x : Value) :
    (D.elements vs).get? x = vs.find? fun v => D.order.compare v x == .eq := by
  rw [elements, Std.ExtTreeSet.ofList_eq_foldl, get?_foldl_insert]
  simp

theorem find?_toList (S : D.Elements) (x : Value) :
    (S.toList.find? fun v => D.order.compare v x == .eq) = S.get? x := by
  -- the library says it of maps, and a set is a map to nothing
  have hkeys : S.toList = S.inner.toList.map Prod.fst :=
    Std.ExtTreeMap.map_fst_toList_eq_keys.symm
  rw [hkeys, List.find?_map]
  cases hx : S.get? x with
  | none =>
    have hnot : ¬ x ∈ S := by
      rw [Std.ExtTreeSet.mem_iff_isSome_get?, hx]
      simp
    have hfind := Std.ExtTreeMap.find?_toList_eq_none_iff_not_mem.2 hnot
    exact congrArg (Option.map Prod.fst) hfind
  | some y =>
    have hmem : x ∈ S := by
      rw [Std.ExtTreeSet.mem_iff_isSome_get?, hx]
      rfl
    obtain ⟨u, hu⟩ := Option.isSome_iff_exists.1 (Std.ExtTreeMap.mem_iff_isSome_getElem?.1 hmem)
    have hfind :=
      Std.ExtTreeMap.find?_toList_eq_some_iff_getKey?_eq_some_and_getElem?_eq_some.2 ⟨hx, hu⟩
    exact congrArg (Option.map Prod.fst) hfind

/-- A set is the set of its elements. -/
theorem elements_toList (S : D.Elements) : D.elements S.toList = S := by
  refine Std.ExtTreeSet.ext_get? fun x => ?_
  rw [get?_elements, find?_toList]

section

variable {p : Value → Bool}

/-- A set of which elements are kept or left out along with all that are equal to them. -/
theorem get?_filter_of_congr (hp : ∀ x y, D.order.compare x y = .eq → p x = p y) (S : D.Elements)
    (x : Value) : (S.filter p).get? x = if p x = true then S.get? x else none := by
  rw [Std.ExtTreeSet.get?_filter]
  cases hx : S.get? x with
  | none => simp
  | some y =>
    have hself := Std.ExtTreeSet.compare_get?_self (t := S) (k := x)
    rw [hx, Option.all_some, decide_eq_true_iff] at hself
    rw [Option.filter_some, hp y x hself]

/-- A condition that does not tell equal items apart may be applied before or after. -/
theorem elements_filter (hp : ∀ x y, D.order.compare x y = .eq → p x = p y) (vs : List Value) :
    D.elements (vs.filter p) = (D.elements vs).filter p := by
  refine Std.ExtTreeSet.ext_get? fun x => ?_
  rw [get?_filter_of_congr hp, get?_elements, get?_elements, List.find?_filter]
  cases hx : p x with
  | true =>
    rw [if_pos rfl]
    congr 1
    funext v
    cases hv : D.order.compare v x == .eq with
    | false => simp
    | true => simp [hp v x (by simpa using hv), hx]
  | false =>
    rw [if_neg (by simp), List.find?_eq_none]
    intro v _ hv
    rw [decide_eq_true_iff, beq_iff_eq] at hv
    rw [hp v x hv.2, hx] at hv
    exact absurd hv.1 (by simp)

/-- It may also be applied to each of two sets. -/
theorem filter_union (hp : ∀ x y, D.order.compare x y = .eq → p x = p y) (S T : D.Elements) :
    (S ∪ T).filter p = S.filter p ∪ T.filter p := by
  refine Std.ExtTreeSet.ext_get? fun x => ?_
  simp only [get?_filter_of_congr hp, Std.ExtTreeSet.get?_union]
  split <;> simp

end

/-- The first set has precedence, however the sets are grouped. -/
theorem union_assoc (S T U : D.Elements) : S ∪ T ∪ U = S ∪ (T ∪ U) := by
  refine Std.ExtTreeSet.ext_get? fun x => ?_
  simp only [Std.ExtTreeSet.get?_union, Option.or_assoc]

/-- Equal items are among the same ones. -/
theorem among_congr (vs : List Value) {x y : Value} (h : D.order.compare x y = .eq) :
    D.among vs x = D.among vs y := by
  unfold among
  congr 1
  funext v
  rw [Std.TransCmp.congr_left h]

theorem among_append (vs ws : List Value) (x : Value) :
    D.among (vs ++ ws) x = (D.among vs x || D.among ws x) := List.any_append

/-! ## Cells -/

/-- To take items out of a cell keeps the others in their order. -/
theorem items_without (vs : List Value) (c : Cell) :
    Cell.items (D.without vs c) = (Cell.items c).filter fun x => !D.among vs x := by
  cases c with
  | none => rfl
  | some x => cases x <;> rfl

/-- To take out values and then others is to take out all of them. -/
theorem without_without (vs ws : List Value) (c : Cell) :
    D.without ws (D.without vs c) = D.without (vs ++ ws) c := by
  have hfilter : ∀ xs : List Value, ((xs.filter fun x => !D.among vs x).filter fun x =>
      !D.among ws x) = xs.filter fun x => !D.among (vs ++ ws) x := by
    intro xs
    rw [List.filter_filter]
    congr 1
    funext x
    rw [among_append, Bool.not_or, Bool.and_comm]
  cases c with
  | none => rfl
  | some x =>
    cases x with
    | list xs => exact congrArg (fun ys => some (Value.list ys)) (hfilter xs)
    | set xs => exact congrArg (fun ys => some (Value.set ys)) (hfilter xs)
    | _ => rfl

/-! ## Effects -/

/-- What assignments come to that set a cell, add to a set, and take out of a collection. -/
inductive Effect (D : Storage) where
  /-- The cell is what it is set to. -/
  | replaced (c : Cell)
  /-- Values are taken out. -/
  | reduced (out : List Value)
  /-- The cell is a set of what is left when values were taken out, and more. -/
  | rebuilt (out : List Value) (more : D.Elements)

namespace Effect

/-- The elements of a collection that are left when values were taken out. -/
def left (D : Storage) (out : List Value) (c : Cell) : D.Elements :=
  (D.elements (Cell.items c)).filter fun x => !D.among out x

/-- The cell on which assignments had an effect. -/
def apply : Effect D → Cell → Cell
  | replaced c, _ => c
  | reduced out, c => D.without out c
  | rebuilt out more, c => some (.set (left D out c ∪ more).toList)

/-- The effect of one more assignment, of those that may be made again. -/
def andThen : Effect D → Assignment → Effect D
  | _, .set _ c => replaced c
  | replaced c, a => replaced (D.cellAfter a c)
  | reduced out, .add _ v => rebuilt out (D.elements (Cell.items (some v)))
  | reduced out, .remove _ v => reduced (out ++ Cell.items (some v))
  | rebuilt out more, .add _ v => rebuilt out (more ∪ D.elements (Cell.items (some v)))
  | rebuilt out more, .remove _ v =>
    rebuilt (out ++ Cell.items (some v)) (more.filter fun x => !D.among (Cell.items (some v)) x)
  | e, _ => e

/-- Items that are taken out one after the other are taken out together. -/
theorem filter_left (out vs : List Value) (c : Cell) :
    (left D out c).filter (fun x => !D.among vs x) = left D (out ++ vs) c := by
  refine Std.ExtTreeSet.ext_get? fun x => ?_
  simp only [left, Std.ExtTreeSet.get?_filter, Option.filter_filter]
  congr 1
  funext y
  rw [among_append, Bool.not_or, Bool.and_comm]

/-- To take the same items out again takes out nothing. -/
theorem left_twice (out : List Value) (c : Cell) : left D (out ++ out) c = left D out c := by
  simp only [left, among_append, Bool.or_self]

theorem not_among_congr (vs : List Value) (x y : Value) (h : D.order.compare x y = .eq) :
    (!D.among vs x) = !D.among vs y := by
  rw [among_congr vs h]

/-- An effect followed by an assignment is an effect. -/
theorem apply_andThen (e : Effect D) {a : Assignment} (ha : a.isIdempotent = true) (c : Cell) :
    (e.andThen a).apply c = D.cellAfter a (e.apply c) := by
  cases a with
  | set column x => rfl
  | increment | decrement | append | prepend => exact absurd ha (by simp [Assignment.isIdempotent])
  | add column v =>
    cases e with
    | replaced c => rfl
    | reduced out =>
      show some (Value.set (left D out c ∪ D.elements (Cell.items (some v))).toList) =
        D.united (Cell.items (some v)) (D.without out c)
      rw [united, items_without, elements_filter (not_among_congr out)]
      rfl
    | rebuilt out more =>
      show some (Value.set (left D out c ∪ (more ∪ D.elements (Cell.items (some v)))).toList) =
        D.united (Cell.items (some v)) (some (.set (left D out c ∪ more).toList))
      rw [united, Cell.items, elements_toList, union_assoc]
  | remove column v =>
    cases e with
    | replaced c => rfl
    | reduced out => exact (without_without out _ c).symm
    | rebuilt out more =>
      show some (Value.set (left D (out ++ Cell.items (some v)) c ∪
        more.filter fun x => !D.among (Cell.items (some v)) x).toList) =
          some (.set ((left D out c ∪ more).toList.filter
            fun x => !D.among (Cell.items (some v)) x))
      rw [← Std.ExtTreeSet.toList_filter, filter_union (not_among_congr _), filter_left]

/-- To have an effect twice is to have it once. -/
theorem apply_apply (e : Effect D) (c : Cell) : e.apply (e.apply c) = e.apply c := by
  cases e with
  | replaced c => rfl
  | reduced out =>
    show D.without out (D.without out c) = D.without out c
    have htwice : D.among (out ++ out) = D.among out := by
      funext x
      rw [among_append, Bool.or_self]
    rw [without_without]
    simp only [without, htwice]
  | rebuilt out more =>
    -- of what was added, the second time takes some out, and adds all of it again
    have hleft : left D out (some (.set (left D out c ∪ more).toList)) =
        left D out c ∪ more.filter fun x => !D.among out x := by
      rw [left, Cell.items, elements_toList, filter_union (not_among_congr out), filter_left,
        left_twice]
    have hmore : (more.filter fun x => !D.among out x) ∪ more = more := by
      refine Std.ExtTreeSet.ext_get? fun x => ?_
      rw [Std.ExtTreeSet.get?_union, Std.ExtTreeSet.get?_filter]
      cases more.get? x <;> simp
    show some (Value.set (left D out (some (.set (left D out c ∪ more).toList)) ∪ more).toList) =
      some (.set (left D out c ∪ more).toList)
    rw [hleft, union_assoc, hmore]

/-- Taking out nothing leaves a cell as it is. -/
theorem apply_reduced_nil (c : Cell) : (reduced [] : Effect D).apply c = c := by
  have hall : ∀ xs : List Value, (xs.filter fun x => !D.among [] x) = xs :=
    fun xs => List.filter_eq_self.2 fun _ _ => rfl
  cases c with
  | none => rfl
  | some x =>
    cases x with
    | list xs => exact congrArg (fun ys => some (Value.list ys)) (hall xs)
    | set xs => exact congrArg (fun ys => some (Value.set ys)) (hall xs)
    | _ => rfl

/-- Assignments after an effect are an effect together, if each of them may be made again. -/
theorem exists_foldl : ∀ {as : List Assignment} (e : Effect D),
    (∀ a ∈ as, a.isIdempotent = true) →
      ∃ e' : Effect D, ∀ c, as.foldl (fun c a => D.cellAfter a c) (e.apply c) = e'.apply c
  | [], e, _ => ⟨e, fun _ => rfl⟩
  | a :: as, e, h => by
    obtain ⟨ha, has⟩ := List.forall_mem_cons.1 h
    -- for every effect before them: the first assignment becomes part of it
    obtain ⟨e', he'⟩ := exists_foldl (e.andThen a) has
    refine ⟨e', fun c => ?_⟩
    rw [List.foldl_cons, ← apply_andThen e ha, he']

end Effect

/-! ## Records -/

/-- A column is changed by the assignments to it, in their order. -/
theorem assign_eq (column : String) : ∀ (as : List Assignment) (ρ : Record),
    D.assign as ρ column = (as.filter fun a => Identifier.read a.column == column).foldl
      (fun c a => D.cellAfter a c) (ρ column)
  | [], _ => rfl
  | a :: as, ρ => by
    rw [assign, List.foldl_cons]
    show D.assign as _ column = _
    rw [assign_eq column as, List.filter_cons, Record.set]
    by_cases hc : column = Identifier.read a.column
    · rw [if_pos hc, if_pos (by simp [hc]), List.foldl_cons, hc]
    · rw [if_neg hc, if_neg (by simpa using Ne.symm hc)]

/-- Assignments change the columns that they name. -/
theorem assign_of_not_mem {column : String} {as : List Assignment}
    (h : ∀ a ∈ as, Identifier.read a.column ≠ column) (ρ : Record) :
    D.assign as ρ column = ρ column := by
  have hnone : (as.filter fun a => Identifier.read a.column == column) = [] :=
    List.filter_eq_nil_iff.2 fun a ha => by simpa using h a ha
  rw [assign_eq, hnone, List.foldl_nil]

/-- Assignments that may be made again come to the same when all of them are. -/
theorem assign_assign {as : List Assignment} (h : ∀ a ∈ as, a.isIdempotent = true) (ρ : Record) :
    D.assign as (D.assign as ρ) = D.assign as ρ := by
  funext column
  have hassigned : ∀ a ∈ as.filter fun a => Identifier.read a.column == column,
      a.isIdempotent = true := fun a ha => h a (List.mem_filter.1 ha).1
  obtain ⟨e, he⟩ := Effect.exists_foldl (D := D) (.reduced []) hassigned
  simp only [Effect.apply_reduced_nil] at he
  rw [assign_eq, assign_eq, he, he, e.apply_apply]

/-- To write the same values again changes nothing. -/
theorem write_write (values : List (String × Cell)) (ρ : Record) :
    (ρ.write values).write values = ρ.write values := by
  funext column
  rw [Record.write_eq, Record.write_eq]
  cases (values.map fun p => (Identifier.read p.1, p.2)).reverse.lookup column <;> rfl

/-! ## Tables -/

/-- To make rows and change a table comes to the same when it is done again, if the change does, and
leaves every row the key of whatever was made. -/
theorem made_twice (ρs : List Record) {f : Record → Record}
    (hkeys : ∀ ρ ∈ ρs, ∀ σ, D.sameKey ρ (f σ) = D.sameKey ρ σ) (hf : ∀ σ, f (f σ) = f σ)
    (t : Table) : (ρs.foldl D.ensure ((ρs.foldl D.ensure t).map f)).map f =
      (ρs.foldl D.ensure t).map f := by
  -- the rows are there the second time, changed but under their keys
  have hthere : ρs.foldl D.ensure ((ρs.foldl D.ensure t).map f) = (ρs.foldl D.ensure t).map f := by
    refine ensure_all fun ρ hρ => ?_
    have hsame : D.sameKey ρ ∘ f = D.sameKey ρ := funext (hkeys ρ hρ)
    rw [List.any_map, hsame]
    exact any_ensure_all hρ
  have htwice : f ∘ f = f := funext hf
  rw [hthere, List.map_map, htwice]

/-- An update of idempotent assignments that comes twice does what it does once: it finds the same
record, and each column ends up the same. -/
theorem update_update {s : Update} (halways : s.conditional.isAlways = true)
    (has : ∀ a ∈ s.assignments, a.isIdempotent = true)
    (hkey : ∀ a ∈ s.assignments, Identifier.read a.column ∉ D.key) (t : Table) :
    D.update s (D.update s t) = D.update s t := by
  unfold update
  rw [if_pos halways, if_pos halways]
  refine made_twice _ (fun ρ _ σ => sameKey_congr fun c hc => ?_) (fun σ => ?_) t
  · split
    next => exact assign_of_not_mem (fun a ha he => hkey a ha (he ▸ hc)) σ
    next => rfl
  · -- a row may be selected no longer, as when a filter is on a column that is assigned to; if it
    -- still is, it is assigned to once more
    by_cases hσ : (D.selects s.filters σ && D.allows s.conditional σ) = true
    · rw [if_pos hσ]
      split
      next => exact assign_assign has σ
      next => rfl
    · rw [if_neg hσ, if_neg hσ]

/-- A row on which all values of an INSERT were written has its key. -/
theorem sameKey_write {s : Insert}
    (hkey : D.key.all (fun c => (Record.write (fun _ => none) s.values c).isSome) = true)
    (σ : Record) : D.sameKey (Record.write (fun _ => none) s.values) (σ.write s.values) = true := by
  refine sameKey_of_eq fun c hc => ?_
  have hsome := List.all_eq_true.1 hkey c hc
  rw [Record.write_eq] at hsome ⊢
  rw [Record.write_eq]
  cases hlookup : (s.values.map fun p => (Identifier.read p.1, p.2)).reverse.lookup c with
  | none =>
    rw [hlookup] at hsome
    exact absurd hsome (by simp)
  | some x => rfl

/-- An insert that comes twice finds the record that it wrote. -/
theorem insert_insert {s : Insert} (hnew : s.ifNotExists = false) (t : Table) :
    D.insert s (D.insert s t) = D.insert s t := by
  unfold insert
  simp only [hnew, Bool.false_and, Bool.not_false, Bool.and_true]
  split
  next hkey =>
    refine made_twice [Record.write (fun _ => none) s.values] (fun ρ hρ σ => ?_) (fun σ => ?_) t
    · rw [List.mem_singleton.1 hρ]
      split
      next hσ => rw [sameKey_write hkey, hσ]
      next => rfl
    · by_cases hσ : D.sameKey (Record.write (fun _ => none) s.values) σ = true
      · rw [if_pos hσ, if_pos (sameKey_write hkey σ), write_write]
      · rw [if_neg hσ, if_neg hσ]
  next => rfl

/-- A delete that comes twice finds nothing left to delete. -/
theorem delete_delete (s : Delete) (t : Table) : D.delete s (D.delete s t) = D.delete s t := by
  rw [delete, delete, List.filter_filter]
  simp only [Bool.and_self]

end Storage

/-- The assignments of a statement. -/
def Statement.assignments : Statement → List Assignment
  | .update s => s.assignments
  | .select _ | .insert _ | .delete _ | .truncate _ | .text _ _ => []

/-- A statement that may be sent again comes to the same when it is, if it changes no column of the
key. -/
theorem Storage.execute_execute (D : Storage) {st : Statement} (h : st.isIdempotent = true)
    (hkey : ∀ a ∈ st.assignments, Identifier.read a.column ∉ D.key) (t : Table) :
    D.execute st (D.execute st t) = D.execute st t := by
  cases st with
  | update s =>
    obtain ⟨halways, has⟩ := Bool.and_eq_true_iff.1 h
    exact update_update halways (List.all_eq_true.1 has) hkey t
  | insert s => exact insert_insert (by simpa [Statement.isIdempotent] using h) t
  | delete s => exact delete_delete s t
  | select s => rfl
  | truncate table => rfl
  | text cql b => rfl

/-! ## Operations -/

/-- Whether a change may be made again. -/
def Change.isIdempotent : Change → Bool
  | set _ | discard _ | add _ | remove _ => true
  | increment _ | decrement _ | append _ | prepend _ => false

@[simp] theorem Change.isIdempotent_assignment (n : Node) (prepare : ValuePreparer) (x : Change) :
    (x.assignment n prepare).isIdempotent = x.isIdempotent := by
  cases x <;> rfl

namespace Write

/-- The changes that a write makes to columns. -/
def changes : Write → List (Node × Change)
  | update u => u.changes
  | insert _ | delete _ => []

/-- Whether a write has a condition. -/
def isConditional : Write → Bool
  | insert x => x.requiresNoRow
  | update u => u.requiresRow || !u.conditions.onlyIf.isEmpty
  | delete d => d.requiresRow || !d.conditions.onlyIf.isEmpty

/-- Whether a write empties its table. -/
def isTruncate : Write → Bool
  | insert _ | update _ => false
  | delete d => d.isTruncate

end Write

section

variable {prepare : ValuePreparer} {st : Statement}

/-- A write without conditions is carried out in any case. -/
theorem isAlways_conditional {c : Conditions} {clauses : List Clause}
    (h : c.onlyIfClauses prepare = .ok clauses) (requiresRow : Bool) :
    (RowUpdate.conditional requiresRow clauses).isAlways =
      !(requiresRow || !c.onlyIf.isEmpty) := by
  have hempty : clauses.isEmpty = c.onlyIf.isEmpty := by
    obtain ⟨hfrom, hto⟩ := mapM_eq_ok h
    cases honly : c.onlyIf with
    | nil =>
      rw [honly] at hfrom
      cases clauses with
      | nil => rfl
      | cons clause clauses => exact absurd (hfrom clause (List.mem_cons_self ..)) (by simp)
    | cons f fs =>
      rw [honly] at hto
      obtain ⟨clause, hclause, -⟩ := hto f (List.mem_cons_self ..)
      cases clauses with
      | nil => exact absurd hclause (by simp)
      | cons clause clauses => rfl
  unfold RowUpdate.conditional
  rw [hempty]
  cases requiresRow <;> cases c.onlyIf.isEmpty <;> rfl

/-- The statement of a write says that it may be sent again exactly if the write has no condition,
does not empty its table, and does not count, append or prepend. -/
theorem Write.isIdempotent_iff {x : Write} (hst : x.call.statement prepare = .ok st) :
    st.isIdempotent = true ↔
      x.isConditional = false ∧ x.isTruncate = false ∧
        ∀ p ∈ x.changes, p.2.isIdempotent = true := by
  cases x with
  | insert x =>
    obtain ⟨e, -, rfl⟩ := RowInsert.of_statement hst
    simp [Statement.isIdempotent, isConditional, isTruncate, changes]
  | update u =>
    obtain ⟨e, clauses, onlyIf, -, -, -, honlyIf, -, -, rfl⟩ := RowUpdate.eq_of_statement hst
    simp [Statement.isIdempotent, isAlways_conditional honlyIf, isConditional, isTruncate, changes]
  | delete d =>
    obtain ⟨-, ⟨htruncate, rfl⟩ | ⟨clauses, onlyIf, hrows, -, honlyIf, -, rfl⟩⟩ :=
      RowDelete.eq_of_statement hst
    · simp [Statement.isIdempotent, isTruncate, htruncate]
    · simp [Statement.isIdempotent, isAlways_conditional honlyIf, isConditional, isTruncate,
        changes, hrows]

/-- A statement assigns to the columns that its write changes. -/
theorem Write.exists_change {x : Write} (hst : x.call.statement prepare = .ok st) {a : Assignment}
    (ha : a ∈ st.assignments) : ∃ p ∈ x.changes, Identifier.read a.column = p.1.column.name := by
  cases x with
  | insert x =>
    obtain ⟨e, -, rfl⟩ := RowInsert.of_statement hst
    exact absurd ha (by simp [Statement.assignments])
  | update u =>
    obtain ⟨e, clauses, conditional, -, -, -, -, rfl⟩ := RowUpdate.of_statement hst
    obtain ⟨p, hp, rfl⟩ := List.mem_map.1 ha
    refine ⟨p, hp, ?_⟩
    rw [Change.column_assignment, Identifier.read_cql]
  | delete d =>
    obtain ⟨-, ⟨-, rfl⟩ | ⟨clauses, onlyIf, -, -, -, -, rfl⟩⟩ := RowDelete.eq_of_statement hst
    · exact absurd ha (by simp [Statement.assignments])
    · exact absurd ha (by simp [Statement.assignments])

/-- The statement of an INSERT, UPDATE or DELETE says that it may be sent again exactly if the
write has no condition, does not empty its table, and does not count, append or prepend. Then, if
the write changes no column of the key, which for the table of an entity is its primary key
(`Storage.of`), it comes to the same to execute it once or twice, on every table and in every order
of values. -/
theorem resend {x : Write} (hst : x.call.statement prepare = .ok st) :
    (st.isIdempotent = true ↔ x.isConditional = false ∧ x.isTruncate = false ∧
      ∀ p ∈ x.changes, p.2.isIdempotent = true) ∧
    (st.isIdempotent = true → ∀ D : Storage, (∀ p ∈ x.changes, p.1.column.name ∉ D.key) →
      ∀ t : Table, D.execute st (D.execute st t) = D.execute st t) := by
  refine ⟨Write.isIdempotent_iff hst, fun h D hkey t => D.execute_execute h (fun a ha => ?_) t⟩
  obtain ⟨p, hp, hcolumn⟩ := Write.exists_change hst ha
  rw [hcolumn]
  exact hkey p hp

end

/-! ## Tags that are added again -/

/-- Values in the order of their full forms. -/
@[reducible] def Value.byForm : Ord Value := ⟨fun a b => compare a.debug b.debug⟩

theorem Value.trans_byForm : Std.TransCmp Value.byForm.compare where
  eq_swap := fun {a b} => Std.OrientedOrd.eq_swap (a := a.debug) (b := b.debug)
  isLE_trans := fun {a b c} =>
    Std.TransOrd.isLE_trans (a := a.debug) (b := b.debug) (c := c.debug)

namespace Account

/-- Accounts in the order of their values' forms. -/
def storage : Storage := .of entity Value.byForm Value.trans_byForm

/-- Adds a tag, takes another one out and puts it back, and adds a third one. -/
def retag (id : Uuid) : RowUpdate :=
  let tags : Getter (.set .text) := ⟨entity, "tags"⟩
  Restricted.whereEq (((((({} : RowUpdate).add tags "b").remove tags "a").add tags "a").add tags
    "c")) (t := .uuid) ⟨entity, "id"⟩ id

/-- An account with tags that stand in no order. -/
def disordered : Table := [fun c =>
  if c = "id" then some (.uuid ⟨7⟩)
  else if c = "tags" then some (.set [.text "z", .text "a"])
  else none]

/-- The account has its tags and the new ones, in their order and none of them twice, and has them
again when the statement is sent once more. -/
theorem retag_twice : ∃ st, (Write.update (retag ⟨7⟩)).call.statement .identity = .ok st ∧
    st.isIdempotent = true ∧
    ((storage.execute st disordered).map fun ρ => (Cell.items (ρ "tags")).map Value.display) =
      [["a", "b", "c", "z"]] ∧
    storage.execute st (storage.execute st disordered) = storage.execute st disordered := by
  obtain ⟨st, hst⟩ : ∃ st, (Write.update (retag ⟨7⟩)).call.statement .identity = .ok st :=
    ⟨_, rfl⟩
  obtain ⟨hmarked, htwice⟩ := resend hst
  have hidempotent : st.isIdempotent = true := hmarked.2 ⟨rfl, rfl, by decide +kernel⟩
  refine ⟨st, hst, hidempotent, ?_, htwice hidempotent storage (by decide +kernel) disordered⟩
  obtain rfl := Except.ok.inj hst
  decide +kernel

end Account

end WideRow
