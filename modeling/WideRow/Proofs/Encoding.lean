import WideRow.Proofs.Statements
import WideRow.Value.Codec

/-!
# Values that become cells

A typed value has a cell unless a null stands in a collection inside it. Which null that is can be
read off the value: `ColumnType.nullElements` lists the null elements in the order in which they are
come upon, and the first of them is what `ColumnType.encode` complains of.

> `encode_eq_error_iff`: encoding fails with the first null element, and only where there is one.
>
> `cell_eq`: the cell of a value is what encoding gives, and null where it fails.
>
> `decode_cell_iff`: what is read back from the cell of a value is the value, exactly if it has an
> encoding, in every type in which no option stands directly inside an option.

Reading knows only one null, so an option in an option loses the inner null
(`decode_cell_nested`). A collection that has no encoding comes back empty.
-/

namespace WideRow

/-- A traversal of items that match other items, of which each tells what comes of its match. -/
theorem mapM_of_map_eq {ε α β γ δ : Type} {f : α → γ} {g : β → γ} {k : α → Except ε δ} {l : β → δ}
    (hk : ∀ a b, f a = g b → k a = .ok (l b)) : ∀ {as : List α} {bs : List β},
      as.map f = bs.map g → as.mapM k = .ok (bs.map l)
  | [], [], _ => rfl
  | [], _ :: _, h => absurd h (by simp)
  | _ :: _, [], h => absurd h (by simp)
  | a :: as, b :: bs, h => by
    rw [List.map_cons, List.map_cons, List.cons.injEq] at h
    rw [List.mapM_cons, hk a b h.1, mapM_of_map_eq hk h.2]
    rfl

/-- The error of a null element. -/
def ValueError.ofNull (at_ : Collection × Nat) : ValueError := .nullElement at_.1 at_.2

namespace ColumnType

/-- No option stands directly inside an option. -/
def hasPlainOptions : ColumnType → Bool
  | .option (.option _) => false
  | .option t | .list t | .set t => t.hasPlainOptions
  | _ => true

/-- Whether a value is null. -/
def isNull : (t : ColumnType) → t.Carrier → Bool
  | .option t, v =>
    match (v : Option t.Carrier) with
    | none => true
    | some x => t.isNull x
  | _, _ => false

/-- The null elements of a collection together with those inside its elements, which are numbered
from `index` on. -/
def nullsAmong {α : Type} (collection : Collection) (isNull : α → Bool)
    (inside : α → List (Collection × Nat)) (index : Nat) (xs : List α) : List (Collection × Nat) :=
  (xs.zipIdx index).flatMap fun p => if isNull p.1 then [(collection, p.2)] else inside p.1

/-- The null elements of all collections inside a value, depth first: the kind of the collection,
and the place of the element in it. -/
def nullElements : (t : ColumnType) → t.Carrier → List (Collection × Nat)
  | .option t, v =>
    match (v : Option t.Carrier) with
    | none => []
    | some x => t.nullElements x
  | .list t, v => nullsAmong .list t.isNull t.nullElements 0 (v : List t.Carrier)
  | .set t, v => nullsAmong .set t.isNull t.nullElements 0 (v : OrderedSet t.Carrier).items
  | _, _ => []

/-! ## Elements -/

section

variable {α : Type} {k : Collection} {i : Nat}

/-- A collection is encoded if each element is, and none of them is empty. -/
theorem elements_eq_ok : ∀ {i : Nat} {rs : List (Except ValueError Cell)} {vs : List Value},
    elements k i rs = .ok vs ↔ rs = vs.map fun v => .ok (some v)
  | _, [], vs => by
    rw [elements, Except.ok.injEq]
    cases vs with
    | nil => simp
    | cons v vs => simp
  | _, .error e :: rs, vs => by cases vs <;> simp [elements]
  | _, .ok none :: rs, vs => by cases vs <;> simp [elements]
  | i, .ok (some v) :: rs, vs => by
    -- for all lists of values: what is left of `vs` after its first is another one
    have ih : ∀ vs, elements k (i + 1) rs = .ok vs ↔ rs = vs.map fun v => .ok (some v) :=
      fun _ => elements_eq_ok
    rw [elements]
    cases hrest : elements k (i + 1) rs with
    | error e =>
      cases vs with
      | nil => simp [Except.map]
      | cons w ws =>
        have hnot := mt (ih ws).2 (by rw [hrest]; simp)
        simp [Except.map, hnot]
    | ok found =>
      have hfound := (ih found).1 hrest
      cases vs with
      | nil => simp [Except.map]
      | cons w ws =>
        have hrs : found = ws ↔ rs = ws.map fun v => .ok (some v) := by
          rw [← ih ws, hrest, Except.ok.injEq]
        simp [Except.map, hrs]

/-- The elements of a collection fail with the first null among them or inside them. -/
theorem elements_eq_error {encode : α → Except ValueError Cell} {isNull : α → Bool}
    {inside : α → List (Collection × Nat)} (hnull : ∀ x, encode x = .ok none ↔ isNull x = true)
    (hinside : ∀ x e, encode x = .error e ↔ (inside x).head?.map ValueError.ofNull = some e)
    {e : ValueError} : ∀ {i : Nat} {xs : List α}, elements k i (xs.map encode) = .error e ↔
      (nullsAmong k isNull inside i xs).head?.map ValueError.ofNull = some e
  | _, [] => by simp [elements, nullsAmong]
  | i, x :: xs => by
    have ih : elements k (i + 1) (xs.map encode) = .error e ↔
        (nullsAmong k isNull inside (i + 1) xs).head?.map ValueError.ofNull = some e :=
      elements_eq_error hnull hinside
    rw [nullsAmong, List.zipIdx_cons, List.flatMap_cons, ← nullsAmong, List.map_cons]
    cases hx : encode x with
    | error e' =>
      have hnot : isNull x = false := by
        rw [← Bool.not_eq_true, ← hnull, hx]
        simp
      obtain ⟨first, hfirst, rfl⟩ := Option.map_eq_some_iff.1 ((hinside x e').1 hx)
      simp [elements, hnot, hfirst]
    | ok c =>
      cases c with
      | none =>
        rw [elements, (hnull x).1 hx]
        simp [ValueError.ofNull]
      | some v =>
        have hnot : isNull x = false := by
          rw [← Bool.not_eq_true, ← hnull, hx]
          simp
        -- an element that is encoded has no null inside: its first one would be an error
        have hnone : inside x = [] := by
          cases hfirst : inside x with
          | nil => rfl
          | cons first rest =>
            have herror := (hinside x (.ofNull first)).2 (by rw [hfirst]; rfl)
            rw [hx] at herror
            exact absurd herror (by simp)
        simp only [hnot, hnone, Bool.false_eq_true, if_false, List.nil_append, ← ih, elements]
        cases elements k (i + 1) (xs.map encode) <;> simp [Except.map]

/-- Elements that come back one by one come back as a list. -/
theorem mapM_decode {encode : α → Except ValueError Cell} {decode : Cell → Except ValueError α}
    (hback : ∀ x c, encode x = .ok c → decode c = .ok x) {xs : List α} {vs : List Value}
    (h : xs.map encode = vs.map fun v => .ok (some v)) :
    (vs.mapM fun v => decode (some v)) = .ok xs := by
  have hall := mapM_of_map_eq (k := fun v => decode (some v)) (l := id)
    (fun v x hx => hback x (some v) hx.symm) h.symm
  rwa [List.map_id] at hall

end

/-! ## Encoding -/

variable {t : ColumnType}

theorem encode_list (v : (list t).Carrier) : (list t).encode v =
    (elements .list 0 (List.map t.encode (v : List t.Carrier))).map (some ∘ Value.list) := rfl

theorem encode_set (v : (set t).Carrier) : (set t).encode v =
    (elements .set 0 (List.map t.encode (v : OrderedSet t.Carrier).items)).map
      (some ∘ Value.set) := rfl

/-- A value is encoded as null if it is null. -/
theorem encode_eq_none_iff : ∀ (t : ColumnType) (v : t.Carrier),
    t.encode v = .ok none ↔ t.isNull v = true
  | .option t, none => by simp [encode, isNull]
  | .option t, some x => encode_eq_none_iff t x
  | .list t, v => by
    rw [encode_list, map_eq_ok]
    simp [isNull]
  | .set t, v => by
    rw [encode_set, map_eq_ok]
    simp [isNull]
  | .boolean, _ | .tinyint, _ | .smallint, _ | .int, _ | .bigint, _ | .float, _ | .double, _
  | .uuid, _ | .text, _ | .value, _ => by simp [encode, isNull]

/-- Encoding fails with the first null element of a collection inside the value, and only there. -/
theorem encode_eq_error_iff : ∀ (t : ColumnType) (v : t.Carrier) (e : ValueError),
    t.encode v = .error e ↔ (t.nullElements v).head?.map ValueError.ofNull = some e
  | .option t, none, e => by simp [encode, nullElements]
  | .option t, some x, e => encode_eq_error_iff t x e
  | .list t, v, e => by
    rw [encode_list, map_eq_error]
    exact elements_eq_error (encode_eq_none_iff t) (encode_eq_error_iff t)
  | .set t, v, e => by
    rw [encode_set, map_eq_error]
    exact elements_eq_error (encode_eq_none_iff t) (encode_eq_error_iff t)
  | .boolean, _, _ | .tinyint, _, _ | .smallint, _, _ | .int, _, _ | .bigint, _, _ | .float, _, _
  | .double, _, _ | .uuid, _, _ | .text, _, _ | .value, _, _ => by simp [encode, nullElements]

/-- The cell of a value is what encoding gives, null where it fails. -/
theorem cell_eq : ∀ (t : ColumnType) (v : t.Carrier), t.cell v = (t.encode v).toOption.join
  | .option _, none => rfl
  | .option t, some x => cell_eq t x
  | .list _, _ | .set _, _ => rfl
  | .boolean, _ | .tinyint, _ | .smallint, _ | .int, _ | .bigint, _ | .float, _ | .double, _
  | .uuid, _ | .text, _ | .value, _ => rfl

/-- A value that can be encoded is bound as its cell. -/
theorem cell_of_encode {v : t.Carrier} {c : Cell} (h : t.encode v = .ok c) : t.cell v = c := by
  rw [cell_eq, h]
  rfl

/-! ## Reading back -/

/-- Where no option stands directly inside an option, what is inside one is not null. -/
theorem isNull_inside (h : (option t).hasPlainOptions = true) (x : t.Carrier) :
    t.isNull x = false := by
  cases t with
  | option t => exact absurd h (by simp [hasPlainOptions])
  | _ => rfl

theorem hasPlainOptions_inside (h : (option t).hasPlainOptions = true) :
    t.hasPlainOptions = true := by
  cases t with
  | option t => exact absurd h (by simp [hasPlainOptions])
  | _ => exact h

/-- An encoded value is read back as it was. -/
theorem decode_of_encode : ∀ {t : ColumnType}, t.hasPlainOptions = true →
    ∀ (v : t.Carrier) (c : Cell), t.encode v = .ok c → t.decode c = .ok v
  | .option t, _, none, c, h => by
    rw [← Except.ok.inj h]
    rfl
  | .option t, ht, some x, none, h => by
    -- the null would be read as no value at all, but nothing inside an option is encoded as one
    have hnull := (encode_eq_none_iff t x).1 h
    rw [isNull_inside ht] at hnull
    exact absurd hnull (by simp)
  | .option t, ht, some x, some c, h => by
    have hx : t.decode (some c) = .ok x := decode_of_encode (hasPlainOptions_inside ht) x (some c) h
    show (t.decode (some c)).map some = .ok (some x)
    rw [hx]
    rfl
  | .list t, ht, v, c, h => by
    rw [encode_list, map_eq_ok] at h
    obtain ⟨vs, hvs, rfl⟩ := h
    exact mapM_decode (decode_of_encode (t := t) ht) (elements_eq_ok.1 hvs)
  | .set t, ht, v, c, h => by
    rw [encode_set, map_eq_ok] at h
    obtain ⟨vs, hvs, rfl⟩ := h
    have hitems := mapM_decode (decode_of_encode (t := t) ht) (elements_eq_ok.1 hvs)
    -- a set that is built from its own elements is in the same order
    show (vs.mapM fun v => t.decode (some v)).map OrderedSet.ofList = .ok v
    rw [hitems]
    exact congrArg Except.ok v.ofList_items
  | .boolean, _, _, _, h | .tinyint, _, _, _, h | .smallint, _, _, _, h | .int, _, _, _, h
  | .bigint, _, _, _, h | .float, _, _, _, h | .double, _, _, _, h | .uuid, _, _, _, h
  | .text, _, _, _, h | .value, _, _, _, h => by
    rw [← Except.ok.inj h]
    rfl

/-- What a null is read as has an encoding: it is null, or an empty collection. -/
theorem exists_encode_of_decode_none (v : t.Carrier) (h : t.decode none = .ok v) :
    ∃ c, t.encode v = .ok c := by
  cases t with
  | option t =>
    rw [← Except.ok.inj h]
    exact ⟨none, rfl⟩
  | list t =>
    rw [← Except.ok.inj h]
    exact ⟨some (.list []), rfl⟩
  | set t =>
    rw [← Except.ok.inj h]
    exact ⟨some (.set []), rfl⟩
  | _ => nomatch h

/-- A value comes back from its cell exactly if it has an encoding, in every type without an option
directly inside an option. It comes back as it was: collections with all their elements in their
order, sets with no element twice, numbers bit for bit. -/
theorem decode_cell_iff (ht : t.hasPlainOptions = true) (v : t.Carrier) :
    t.decode (t.cell v) = .ok v ↔ ∃ c, t.encode v = .ok c := by
  constructor
  · intro h
    cases hv : t.encode v with
    | ok c => exact ⟨c, rfl⟩
    | error e =>
      -- a value without an encoding has the null as its cell
      rw [cell_eq, hv] at h
      obtain ⟨c, hc⟩ := exists_encode_of_decode_none v h
      rw [hv] at hc
      exact absurd hc (by simp)
  · rintro ⟨c, hc⟩
    rw [cell_of_encode hc]
    exact decode_of_encode ht v c hc

/-- Lists of sets come back, empty ones among them, and a list that holds a null does not. -/
theorem decode_cell_nested_list :
    (option (list (set .text))).decode ((option (list (set .text))).cell
      (some [OrderedSet.ofList ["b", "a", "b"], OrderedSet.ofList []])) =
        .ok (some [OrderedSet.ofList ["b", "a", "b"], OrderedSet.ofList []]) ∧
    (list (option .text)).decode ((list (option .text)).cell [some "a", none]) ≠
      .ok [some "a", none] := by
  constructor
  · exact (decode_cell_iff (t := option (list (set .text))) rfl _).2
      ⟨some (.list [.set [.text "a", .text "b"], .set []]), rfl⟩
  · intro h
    obtain ⟨c, hc⟩ := (decode_cell_iff (t := list (option .text)) rfl _).1 h
    have hfails : (list (option .text)).encode [some "a", none] = .error (.nullElement .list 1) :=
      rfl
    rw [hfails] at hc
    exact absurd hc (by simp)

/-- A null in an option in an option is lost. -/
theorem decode_cell_nested (t : ColumnType) :
    (option (option t)).decode ((option (option t)).cell (some none)) = .ok none := rfl

end ColumnType

end WideRow
