import Std.Data.String.ToInt
import WideRow.Value.Shown

/-!
# What the text of a key value tells

A cache key holds the short form of a value, `Value.display`, so two rows stay apart in a cache
only as far as that text tells their key values apart. It does for integers, booleans, texts and
identifiers, and for lists and sets of those other than texts: the items of a collection are
joined by commas, and of these only a text can hold a comma or be empty.

> `ValueKind.textTells`: within a kind that is told, equal texts are texts of equal values.

The list of `a` and `b` and the list of the one text `a,b` are both `[a,b]`, which is why
`ValueKind.isTold` leaves out collections of texts.
-/

namespace WideRow

/-- The kinds without items. -/
inductive ScalarKind where
  | int
  | bigint
  | boolean
  | text
  | uuid
  deriving DecidableEq

namespace ScalarKind

/-- Whether a value is of the kind. -/
def holds : ScalarKind → Value → Bool
  | int, .int _ => true
  | bigint, .bigint _ => true
  | boolean, .boolean _ => true
  | text, .text _ => true
  | uuid, .uuid _ => true
  | _, _ => false

end ScalarKind

/-- One kind of values: of scalars, or of collections of them. -/
inductive ValueKind where
  | scalar (k : ScalarKind)
  | list (k : ScalarKind)
  | set (k : ScalarKind)
  deriving DecidableEq

namespace ValueKind

/-- Whether a value is of the kind. -/
def holds : ValueKind → Value → Bool
  | scalar k, v => k.holds v
  | list k, .list items => items.all k.holds
  | set k, .set items => items.all k.holds
  | _, _ => false

/-- Whether the texts of the kind's values tell them apart. -/
def isTold : ValueKind → Bool
  | scalar _ => true
  | list k | set k => k != .text

end ValueKind

/-- Values with which nothing agrees but themselves. -/
structure ExactOn (P : Value → Prop) : Prop where
  refl : ∀ {v}, P v → v.agrees v = true
  exact : ∀ {v x}, P v → x.agrees v = true → x = v

/-- Fewer values can be told all the more. -/
theorem ExactOn.mono {P Q : Value → Prop} (hQ : ExactOn Q) (h : ∀ v, P v → Q v) : ExactOn P where
  refl hv := hQ.refl (h _ hv)
  exact hv hx := hQ.exact (h _ hv) hx

/-- Values that their texts tell apart. -/
def TextTells (P : Value → Prop) : Prop := ∀ v w, P v → P w → v.display = w.display → v = w

/-! ## Agreeing -/

/-- Scalar values of one kind agree if they are the same. -/
theorem ScalarKind.agrees_iff {k : ScalarKind} {v x : Value} (h : k.holds v = true) :
    x.agrees v = true ↔ x = v := by
  cases k <;> cases v <;> simp only [ScalarKind.holds, Bool.false_eq_true] at h <;>
    cases x <;> simp [Value.agrees]

/-- So do lists of them. -/
theorem agreesItems_iff {k : ScalarKind} :
    ∀ {vs xs : List Value}, vs.all k.holds = true →
      (Value.agreesItems xs vs = true ↔ xs = vs)
  | [], [], _ => by simp [Value.agreesItems]
  | [], _ :: _, _ => by simp [Value.agreesItems]
  | _ :: _, [], _ => by simp [Value.agreesItems]
  | v :: vs, x :: xs, h => by
    rw [List.all_cons, Bool.and_eq_true] at h
    obtain ⟨hv, hvs⟩ := h
    rw [Value.agreesItems, Bool.and_eq_true, ScalarKind.agrees_iff hv, agreesItems_iff hvs,
      List.cons.injEq]

/-- A value agrees with one of these kinds only if it is that value. -/
theorem ValueKind.agrees_iff {k : ValueKind} {v x : Value} (h : k.holds v = true) :
    x.agrees v = true ↔ x = v := by
  cases k with
  | scalar k => exact ScalarKind.agrees_iff h
  | list k =>
    cases v <;> simp only [holds, Bool.false_eq_true] at h
    cases x <;> simp [Value.agrees, agreesItems_iff h]
  | set k =>
    cases v <;> simp only [holds, Bool.false_eq_true] at h
    cases x <;> simp [Value.agrees, agreesItems_iff h]

/-! ## Identifiers -/

namespace Uuid

/-- Hexadecimal numbers are filled up with zeros. -/
theorem length_hexDigits (k n : Nat) : (hexDigits k n).length = k := by
  induction k generalizing n with
  | zero => rfl
  | succ k ih => simp [hexDigits, ih]

/-- The digits of a number are those of its remainder and of what is left. -/
theorem hexDigits_injective : ∀ (k : Nat) {n m : Nat}, n < Nat.pow 16 k → m < Nat.pow 16 k →
    hexDigits k n = hexDigits k m → n = m
  | 0, n, m, hn, hm, _ => by
    have hn' : n < 1 := hn
    have hm' : m < 1 := hm
    omega
  | k + 1, n, m, hn, hm, h => by
    have hn' : n < Nat.pow 16 k * 16 := hn
    have hm' : m < Nat.pow 16 k * 16 := hm
    rw [hexDigits, hexDigits] at h
    have hlen : (hexDigits k (n / 16)).length = (hexDigits k (m / 16)).length := by
      rw [length_hexDigits, length_hexDigits]
    obtain ⟨hrest, hlast⟩ := List.append_inj h hlen
    have hdiv : n / 16 = m / 16 :=
      hexDigits_injective k (by omega) (by omega) hrest
    have hmod : n % 16 = m % 16 := by
      have hdigit : ∀ i < 16, ∀ j < 16, Nat.digitChar i = Nat.digitChar j → i = j := by decide
      exact hdigit _ (Nat.mod_lt _ (by decide)) _ (Nat.mod_lt _ (by decide)) (by simpa using hlast)
    omega

theorem digit_ne {n : Nat} (hn : n < 16) : Nat.digitChar n ≠ '-' ∧ Nat.digitChar n ≠ ',' := by
  have hall : ∀ i < 16, Nat.digitChar i ≠ '-' ∧ Nat.digitChar i ≠ ',' := by decide
  exact hall n hn

theorem mem_hexDigits {c : Char} : ∀ {k n : Nat}, c ∈ hexDigits k n → c ≠ '-' ∧ c ≠ ','
  | 0, _, h => by simp [hexDigits] at h
  | k + 1, n, h => by
    rw [hexDigits, List.mem_append, List.mem_singleton] at h
    rcases h with h | rfl
    · exact mem_hexDigits h
    · exact digit_ne (Nat.mod_lt n (by decide))

/-- The characters of the hyphenated form. -/
theorem toList_text (u : Uuid) : u.text.toList =
    let ds := hexDigits 32 u.bits.toNat
    ds.take 8 ++ '-' :: ((ds.drop 8).take 4 ++ '-' :: ((ds.drop 12).take 4 ++
      '-' :: ((ds.drop 16).take 4 ++ '-' :: (ds.drop 20).take 12))) := by
  simp [text]

/-- Without its hyphens the text is the digits. -/
theorem filter_text (u : Uuid) :
    u.text.toList.filter (· != '-') = hexDigits 32 u.bits.toNat := by
  have hlen := length_hexDigits 32 u.bits.toNat
  have hkeep : ∀ l : List Char, (∀ c ∈ l, c ∈ hexDigits 32 u.bits.toNat) →
      l.filter (· != '-') = l := by
    intro l hl
    refine List.filter_eq_self.2 fun c hc => ?_
    simpa using (mem_hexDigits (hl c hc)).1
  rw [toList_text]
  generalize hexDigits 32 u.bits.toNat = ds at *
  have hpart : ∀ i j, ∀ c ∈ (ds.drop i).take j, c ∈ ds := fun i j c hc =>
    List.mem_of_mem_drop (List.mem_of_mem_take hc)
  have hsplit : ds = ds.take 8 ++ ((ds.drop 8).take 4 ++ ((ds.drop 12).take 4 ++
      ((ds.drop 16).take 4 ++ (ds.drop 20).take 12))) := by
    have h20 : (ds.drop 20).take 12 = ds.drop 20 := List.take_of_length_le (by simp [hlen])
    have hstep : ∀ i j, (ds.drop i).take j ++ ds.drop (i + j) = ds.drop i := fun i j => by
      rw [← List.drop_drop, List.take_append_drop]
    rw [h20, hstep 16 4, hstep 12 4, hstep 8 4, List.take_append_drop]
  simp only [List.filter_append, List.filter_cons, bne_self_eq_false, Bool.false_eq_true, if_false]
  rw [hkeep _ (hpart 8 4), hkeep _ (hpart 12 4), hkeep _ (hpart 16 4), hkeep _ (hpart 20 12),
    hkeep _ (fun c hc => List.mem_of_mem_take hc)]
  exact hsplit.symm

/-- An identifier can be read from its text. -/
theorem text_injective {u v : Uuid} (h : u.text = v.text) : u = v := by
  have hdigits : hexDigits 32 u.bits.toNat = hexDigits 32 v.bits.toNat := by
    rw [← filter_text, ← filter_text, h]
  have hbits := hexDigits_injective 32 u.bits.isLt v.bits.isLt hdigits
  exact congrArg Uuid.mk (BitVec.eq_of_toNat_eq hbits)

end Uuid

/-! ## Texts of scalars -/

/-- A number has digits and a sign. -/
theorem mem_repr_int {n : Int} {c : Char} (h : c ∈ n.repr.toList) : c.isDigit = true ∨ c = '-' := by
  have hdigits : ∀ {m : Nat}, c ∈ m.repr.toList → c.isDigit = true := by
    intro m hm
    rw [Nat.repr, String.toList_ofList] at hm
    exact Nat.isDigit_of_mem_toDigits (by decide) (by decide) hm
  rw [Int.repr_eq_if] at h
  split at h
  · exact .inl (hdigits h)
  · rw [String.toList_append, List.mem_append] at h
    rcases h with h | h
    · exact .inr (by simpa using h)
    · exact .inl (hdigits h)

theorem repr_int_ne_empty (n : Int) : n.repr.toList ≠ [] := by
  rw [Int.repr_eq_if]
  split
  · rw [Nat.repr, String.toList_ofList]
    exact Nat.toDigits_ne_nil
  · simp

namespace ScalarKind

/-- Equal texts of scalars of one kind are texts of equal values. -/
theorem display_injective {k : ScalarKind} {v w : Value} (hv : k.holds v = true)
    (hw : k.holds w = true) (h : v.display = w.display) : v = w := by
  cases k <;> cases v <;> simp only [holds, Bool.false_eq_true] at hv <;>
    cases w <;> simp only [holds, Bool.false_eq_true] at hw <;>
    simp only [Value.display, Int.toString_eq_repr] at h
  case int.int.int => rw [Int32.toInt_inj.1 (Int.repr_injective h)]
  case bigint.bigint.bigint => rw [Int64.toInt_inj.1 (Int.repr_injective h)]
  case boolean.boolean.boolean a b =>
    cases a <;> cases b <;> first | rfl | exact absurd h (by decide)
  case text.text.text => rw [h]
  case uuid.uuid.uuid => rw [Uuid.text_injective h]

/-- Only texts can be empty or hold a comma. -/
theorem display_item {k : ScalarKind} (hk : k ≠ .text) {v : Value} (hv : k.holds v = true) :
    v.display.toList ≠ [] ∧ ',' ∉ v.display.toList := by
  cases k <;> cases v <;> simp only [holds, Bool.false_eq_true] at hv <;>
    simp only [Value.display, Int.toString_eq_repr]
  case int.int => exact ⟨repr_int_ne_empty _, fun h => absurd (mem_repr_int h) (by decide)⟩
  case bigint.bigint => exact ⟨repr_int_ne_empty _, fun h => absurd (mem_repr_int h) (by decide)⟩
  case boolean.boolean b => cases b <;> decide
  case text.text => exact absurd rfl hk
  case uuid.uuid u =>
    rw [Uuid.toList_text]
    refine ⟨by simp, fun h => ?_⟩
    simp only [List.mem_append, List.mem_cons] at h
    have hnot : ∀ i j, ',' ∉ ((Uuid.hexDigits 32 u.bits.toNat).drop i).take j := fun i j hc =>
      (Uuid.mem_hexDigits (List.mem_of_mem_drop (List.mem_of_mem_take hc))).2 rfl
    have hfirst : ',' ∉ (Uuid.hexDigits 32 u.bits.toNat).take 8 := fun hc =>
      (Uuid.mem_hexDigits (List.mem_of_mem_take hc)).2 rfl
    simp [hnot, hfirst] at h

end ScalarKind

/-! ## Texts of collections -/

theorem displayItems_eq (vs : List Value) : Value.displayItems vs = vs.map Value.display := by
  induction vs with
  | nil => rfl
  | cons v vs ih => rw [Value.displayItems, ih, List.map_cons]

/-- Texts without the separator that are not empty can be read off their joined text. -/
theorem intercalate_injective {sep : String} {c : Char} (hsep : sep.toList = [c])
    {xs ys : List String} (hx : ∀ x ∈ xs, x.toList ≠ [] ∧ c ∉ x.toList)
    (hy : ∀ y ∈ ys, y.toList ≠ [] ∧ c ∉ y.toList)
    (h : String.intercalate sep xs = String.intercalate sep ys) : xs = ys := by
  have hchars : List.intercalate [c] (xs.map String.toList) =
      List.intercalate [c] (ys.map String.toList) := by
    have := congrArg String.toList h
    rwa [String.toList_intercalate, String.toList_intercalate, hsep] at this
  have hread : ∀ {zs : List String}, (∀ z ∈ zs, z.toList ≠ [] ∧ c ∉ z.toList) → zs ≠ [] →
      (List.intercalate [c] (zs.map String.toList)).splitOn c = zs.map String.toList ∧
        zs.map String.toList ≠ [[]] := by
    intro zs hz hne
    constructor
    · refine List.splitOn_intercalate _ (fun l hl => ?_) (by simpa using hne)
      obtain ⟨z, hmem, rfl⟩ := List.mem_map.1 hl
      exact (hz z hmem).2
    · intro he
      cases zs with
      | nil => simp at he
      | cons z zs =>
        rw [List.map_cons, List.cons.injEq] at he
        exact (hz z (List.mem_cons_self ..)).1 he.1
  -- no items and one empty item have the same joined text, so the empty lists stand apart
  have hmap : xs.map String.toList = ys.map String.toList := by
    by_cases hxs : xs = [] <;> by_cases hys : ys = []
    · rw [hxs, hys]
    · obtain ⟨hsplit, hne⟩ := hread hy hys
      rw [← hchars, hxs] at hsplit
      exact absurd hsplit.symm hne
    · obtain ⟨hsplit, hne⟩ := hread hx hxs
      rw [hchars, hys] at hsplit
      exact absurd hsplit.symm hne
    · rw [← (hread hx hxs).1, hchars, (hread hy hys).1]
  exact (List.map_inj_right fun _ _ => String.toList_inj.1).1 hmap

namespace ValueKind

/-- Equal texts of items joined by commas are texts of equal items. -/
theorem displayItems_injective {k : ScalarKind} (hk : k ≠ .text) {vs ws : List Value}
    (hv : vs.all k.holds = true) (hw : ws.all k.holds = true)
    (h : String.intercalate "," (Value.displayItems vs) =
      String.intercalate "," (Value.displayItems ws)) : vs = ws := by
  rw [displayItems_eq, displayItems_eq] at h
  have hitem : ∀ {us : List Value}, us.all k.holds = true → ∀ x ∈ us.map Value.display,
      x.toList ≠ [] ∧ ',' ∉ x.toList := by
    intro us hu x hx
    obtain ⟨v, hmem, rfl⟩ := List.mem_map.1 hx
    exact ScalarKind.display_item hk (List.all_eq_true.1 hu v hmem)
  have hmap := intercalate_injective rfl (hitem hv) (hitem hw) h
  -- the joined text is of no use for shorter lists, so it goes before the induction
  clear h
  induction vs generalizing ws with
  | nil => exact (List.map_eq_nil_iff.1 hmap.symm).symm
  | cons v vs ih =>
    cases ws with
    | nil => simp at hmap
    | cons w ws =>
      rw [List.all_cons, Bool.and_eq_true] at hv hw
      rw [List.map_cons, List.map_cons, List.cons.injEq] at hmap
      rw [ScalarKind.display_injective hv.1 hw.1 hmap.1, ih hv.2 hw.2 hmap.2]

/-- Values of one told kind have different texts. -/
theorem display_injective {k : ValueKind} (hk : k.isTold = true) {v w : Value}
    (hv : k.holds v = true) (hw : k.holds w = true) (h : v.display = w.display) : v = w := by
  cases k with
  | scalar k => exact ScalarKind.display_injective hv hw h
  | list k =>
    cases v <;> simp only [holds, Bool.false_eq_true] at hv
    cases w <;> simp only [holds, Bool.false_eq_true] at hw
    simp only [Value.display, String.append_left_inj, String.append_right_inj] at h
    rw [displayItems_injective (by simpa [isTold] using hk) hv hw h]
  | set k =>
    cases v <;> simp only [holds, Bool.false_eq_true] at hv
    cases w <;> simp only [holds, Bool.false_eq_true] at hw
    simp only [Value.display, String.append_left_inj, String.append_right_inj] at h
    rw [displayItems_injective (by simpa [isTold] using hk) hv hw h]

/-- Of such values, agreement and texts are as good as equality. -/
theorem exactOn (k : ValueKind) : ExactOn fun v => k.holds v = true where
  refl hv := (agrees_iff hv).2 rfl
  exact hv h := (agrees_iff hv).1 h

/-- Within a kind that is told, equal texts are texts of equal values. -/
theorem textTells {k : ValueKind} (hk : k.isTold = true) : TextTells fun v => k.holds v = true :=
  fun _ _ hv hw h => display_injective hk hv hw h

end ValueKind

example : (Value.list [.text "a", .text "b"]).display = (Value.list [.text "a,b"]).display := by
  decide

end WideRow
