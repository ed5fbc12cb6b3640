import WideRow.Proofs.ScalarTexts

/-!
# Texts of internet addresses

The longer form leaves out a run of zero groups without saying how many there were. That number
is known all the same: an address has eight groups, so `expandFields` puts the missing zeros
back where the text has its double colon.

> `Inet.text_inj`: two addresses with one text are the same address.
-/

namespace WideRow

namespace Text

/-- A list of texts has only such characters as the texts and the separator have. -/
theorem all_intercalate {p : Char → Bool} {sep : String} (hsep : sep.toList.all p = true) :
    ∀ {items : List String}, (∀ s ∈ items, s.toList.all p = true) →
      (String.intercalate sep items).toList.all p = true
  | [], _ => rfl
  | [s], h => by
    rw [String.intercalate_singleton]
    exact h s (List.mem_singleton_self s)
  | s :: t :: items, h => by
    rw [String.intercalate_cons_cons, String.toList_append, String.toList_append, List.all_append,
      List.all_append, Bool.and_eq_true, Bool.and_eq_true]
    exact ⟨⟨h s (List.mem_cons_self ..), hsep⟩,
      all_intercalate hsep fun u hu => h u (List.mem_cons_of_mem _ hu)⟩

end Text

namespace Inet

open Text

/-- Four bytes or eight groups. -/
def isWhole : Inet → Bool
  | v4 bytes => bytes.length == 4
  | v6 groups => groups.length == 8

/-- The text of eight groups, as long as they do not embed an address of four bytes. -/
def compressed (gs : List UInt16) : String :=
  if (longestZeroRun gs).2 ≤ 1 then groupsText gs
  else groupsText (gs.take (longestZeroRun gs).1) ++ "::" ++
    groupsText (gs.drop ((longestZeroRun gs).1 + (longestZeroRun gs).2))

/-- The four bytes of two groups. -/
def embedded (a b : UInt16) : List UInt8 :=
  [(a / 256).toUInt8, a.toUInt8, (b / 256).toUInt8, b.toUInt8]

/-- An address of eight groups is written with four bytes at the end, if it stands for one of four
bytes, and in groups otherwise. -/
theorem text_v6 (gs : List UInt16) :
    (∃ a b, gs = [0, 0, 0, 0, 0, 0xffff, a, b] ∧
      (v6 gs).text = "::ffff:" ++ v4Text (embedded a b)) ∨ (v6 gs).text = compressed gs := by
  simp only [text]
  split
  case h_1 a b => exact .inl ⟨a, b, rfl, rfl⟩
  case h_2 => exact .inr rfl

/-! ## Characters -/

/-- The characters of an address without dots and colons. -/
theorem all_v4Text {p : Char → Bool} (hdot : p '.' = true)
    (hdigit : ∀ c : Char, c.isDigit = true → p c = true) (bs : List UInt8) :
    (v4Text bs).toList.all p = true := by
  refine all_intercalate (by simp [hdot]) fun s hs => ?_
  obtain ⟨b, -, rfl⟩ := List.mem_map.1 hs
  rw [Nat.toString_eq_repr, Nat.repr, String.toList_ofList]
  exact List.all_eq_true.2 fun c hc =>
    hdigit c (Nat.isDigit_of_mem_toDigits (by decide) (by decide) hc)

/-- A group is written in hexadecimal digits. -/
theorem all_hexText {p : Char → Bool} (hdigit : ∀ i < 16, p (Nat.digitChar i) = true) (g : UInt16) :
    (hexText g).toList.all p = true := by
  rw [hexText, String.toList_ofList]
  refine List.all_eq_true.2 fun c hc => ?_
  obtain ⟨i, hi, rfl⟩ := mem_toDigits (by decide) hc
  exact hdigit i hi

theorem all_groupsText {p : Char → Bool} (hcolon : p ':' = true)
    (hdigit : ∀ i < 16, p (Nat.digitChar i) = true) (gs : List UInt16) :
    (groupsText gs).toList.all p = true := by
  refine all_intercalate (by simp [hcolon]) fun s hs => ?_
  obtain ⟨g, -, rfl⟩ := List.mem_map.1 hs
  exact all_hexText hdigit g

/-- Eight groups are written in hexadecimal digits and colons. -/
theorem all_compressed {p : Char → Bool} (hcolon : p ':' = true)
    (hdigit : ∀ i < 16, p (Nat.digitChar i) = true) (gs : List UInt16) :
    (compressed gs).toList.all p = true := by
  have hgroups := all_groupsText hcolon hdigit
  unfold compressed
  split
  · exact hgroups _
  · rw [String.toList_append, String.toList_append, List.all_append, List.all_append, hgroups,
      hgroups]
    simp [hcolon]

/-- Addresses have no brackets, commas and quotes. -/
theorem closed_text (a : Inet) : Closed a.text := by
  have hdigit : ∀ c : Char, c.isDigit = true → isOrdinary c = true := fun c hc =>
    isOrdinary_of_isAlphanum (by simp [Char.isAlphanum, hc])
  cases a with
  | v4 bytes => exact closedAt_of_ordinary (all_v4Text rfl hdigit bytes)
  | v6 gs =>
    rcases text_v6 gs with ⟨a, b, -, h⟩ | h
    · rw [h]
      exact (closedAt_of_ordinary rfl).append (closedAt_of_ordinary (all_v4Text rfl hdigit _))
    · rw [h]
      exact closedAt_of_ordinary (all_compressed rfl
        (fun i hi => isOrdinary_of_isAlphanum (digitChar_isAlphanum hi)) gs)

/-! ## Four bytes -/

/-- Bytes can be told, as none of them has a dot in it. -/
theorem v4Text_inj {bs cs : List UInt8} (h : v4Text bs = v4Text cs) : bs = cs := by
  have hitem : ∀ bs : List UInt8, ∀ s ∈ bs.map fun b => toString b.toNat,
      s.toList ≠ [] ∧ '.' ∉ s.toList := by
    intro bs s hs
    obtain ⟨b, -, rfl⟩ := List.mem_map.1 hs
    rw [Nat.toString_eq_repr, Nat.repr, String.toList_ofList]
    refine ⟨Nat.toDigits_ne_nil, fun hc => ?_⟩
    exact absurd (Nat.isDigit_of_mem_toDigits (by decide) (by decide) hc) (by decide)
  have hmap := intercalate_injective (c := '.') rfl (hitem bs) (hitem cs) h
  refine (List.map_inj_right fun b c hbc => ?_).1 hmap
  exact UInt8.toNat_inj.1 (Nat.repr_injective hbc)

/-- Two groups are four bytes. -/
theorem embedded_inj {a b c d : UInt16} (h : embedded a b = embedded c d) : a = c ∧ b = d := by
  have hgroup : ∀ {x y : UInt16}, (x / 256).toUInt8 = (y / 256).toUInt8 → x.toUInt8 = y.toUInt8 →
      x = y := by
    intro x y hhigh hlow
    have hhigh' := congrArg UInt8.toNat hhigh
    have hlow' := congrArg UInt8.toNat hlow
    have h256 : (256 : UInt16).toNat = 256 := rfl
    rw [UInt16.toNat_toUInt8, UInt16.toNat_toUInt8, UInt16.toNat_div, UInt16.toNat_div, h256]
      at hhigh'
    rw [UInt16.toNat_toUInt8, UInt16.toNat_toUInt8] at hlow'
    have hx := x.toNat_lt
    have hy := y.toNat_lt
    exact UInt16.toNat_inj.1 (by omega)
  simp only [embedded, List.cons.injEq, and_true] at h
  obtain ⟨ha, ha', hb, hb'⟩ := h
  exact ⟨hgroup ha ha', hgroup hb hb'⟩

/-! ## Eight groups -/

/-- The digits of groups. -/
def fields (gs : List UInt16) : List (List Char) := gs.map fun g => (hexText g).toList

theorem fields_inj {gs hs : List UInt16} (h : fields gs = fields hs) : gs = hs := by
  refine (List.map_inj_right fun g g' hg => ?_).1 h
  rw [hexText, hexText, String.toList_ofList, String.toList_ofList] at hg
  exact UInt16.toNat_inj.1 (toDigits_sixteen_injective hg)

/-- A group has digits, and no colon. -/
theorem mem_fields {gs : List UInt16} {l : List Char} (h : l ∈ fields gs) : l ≠ [] ∧ ':' ∉ l := by
  obtain ⟨g, -, rfl⟩ := List.mem_map.1 h
  constructor
  · rw [hexText, String.toList_ofList]
    exact Nat.toDigits_ne_nil
  · intro hc
    have hall := List.all_eq_true.1 (all_hexText (p := (· != ':')) (by decide) g) ':' hc
    simp at hall

theorem toList_groupsText (gs : List UInt16) :
    (groupsText gs).toList = List.intercalate [':'] (fields gs) := by
  simp [groupsText, fields, String.toList_intercalate, List.map_map, Function.comp_def]

/-- A text with the separator in it is split on both sides. -/
theorem splitOn_append (c : Char) (cs ds : List Char) :
    (cs ++ c :: ds).splitOn c = cs.splitOn c ++ ds.splitOn c :=
  List.splitOnP_append_cons cs ds (by simp)

/-- What stands between the colons of joined groups. -/
theorem splitOn_groupsText (gs : List UInt16) :
    (groupsText gs).toList.splitOn ':' = if gs = [] then [[]] else fields gs := by
  rw [toList_groupsText]
  split
  case isTrue h => rw [h]; rfl
  case isFalse h =>
    exact List.splitOn_intercalate _ (fun l hl => (mem_fields hl).2) (by simpa [fields] using h)

/-- The fields in front of the first empty one. -/
def filled (ls : List (List Char)) : List (List Char) := ls.takeWhile (· != [])

/-- The fields up to the first empty one are taken. -/
theorem filled_of_forall {ls : List (List Char)} (h : ∀ l ∈ ls, l ≠ [])
    (rest : List (List Char)) :
    filled (ls ++ [] :: rest) = ls := by
  rw [filled, List.takeWhile_append_of_pos fun l hl => by simpa using h l hl]
  simp

/-- In front of the gap stand the groups before it, or an empty field if there are none. -/
theorem filled_groups (gs : List UInt16) (rest : List (List Char)) :
    filled ((if gs = [] then [[]] else fields gs) ++ [] :: rest) = fields gs := by
  split
  case isTrue h =>
    subst h
    exact filled_of_forall (List.forall_mem_nil _) rest
  case isFalse => exact filled_of_forall (fun l hl => (mem_fields hl).1) rest

/-- Behind the gap stand the groups after it. -/
theorem filled_groups_reverse (gs : List UInt16) (rest : List (List Char)) :
    filled ((if gs = [] then [[]] else fields gs).reverse ++ [] :: rest) = (fields gs).reverse := by
  split
  case isTrue h =>
    subst h
    exact filled_of_forall (List.forall_mem_nil _) rest
  case isFalse => exact filled_of_forall (fun l hl => (mem_fields (List.mem_reverse.1 hl)).1) rest

/-- The digits of all eight groups, from what stands between the colons of a text. -/
def expandFields (ls : List (List Char)) : List (List Char) :=
  let front := filled ls
  let back := (filled ls.reverse).reverse
  if [] ∈ ls then front ++ List.replicate (8 - front.length - back.length) ['0'] ++ back else ls

/-- A run of zeros is that many zero groups. -/
theorem take_eq_replicate {n : Nat} :
    ∀ {gs : List UInt16}, n ≤ zeroRun gs → gs.take n = List.replicate n 0 := by
  induction n with
  | zero => simp
  | succ n ih =>
    rintro (_ | ⟨g, gs⟩) h
    · simp [zeroRun] at h
    · rw [zeroRun, List.takeWhile_cons] at h
      split at h
      case isTrue hg =>
        rw [List.take_succ_cons, List.replicate_succ, ih (Nat.le_of_succ_le_succ h),
          eq_of_beq hg]
      case isFalse => simp at h

/-- The longest run is a run of zeros. -/
theorem longestZeroRun_le (gs : List UInt16) :
    (longestZeroRun gs).2 ≤ zeroRun (gs.drop (longestZeroRun gs).1) := by
  have hfold : ∀ (is : List Nat) (best : Nat × Nat), best.2 ≤ zeroRun (gs.drop best.1) →
      (is.foldl (fun best i => let n := zeroRun (gs.drop i); if best.2 < n then (i, n) else best)
        best).2 ≤ zeroRun (gs.drop (is.foldl (fun best i => let n := zeroRun (gs.drop i)
          if best.2 < n then (i, n) else best) best).1) := by
    intro is
    induction is with
    | nil => exact fun _ h => h
    | cons i is ih =>
      intro best h
      rw [List.foldl_cons]
      refine ih _ ?_
      dsimp only
      split
      · exact Nat.le_refl _
      · exact h
  exact hfold _ _ (Nat.zero_le _)

/-- What the longest run leaves out. -/
theorem eq_around_zeros (gs : List UInt16) :
    gs = gs.take (longestZeroRun gs).1 ++ (List.replicate (longestZeroRun gs).2 0 ++
      gs.drop ((longestZeroRun gs).1 + (longestZeroRun gs).2)) := by
  rw [← take_eq_replicate (longestZeroRun_le gs), ← List.drop_drop, List.take_append_drop,
    List.take_append_drop]

/-- The eight groups can be read back from their text. -/
theorem expandFields_compressed {gs : List UInt16} (hlen : gs.length = 8) :
    expandFields ((compressed gs).toList.splitOn ':') = fields gs := by
  unfold compressed
  split
  case isTrue =>
    have hne : gs ≠ [] := by
      rintro rfl
      cases hlen
    rw [splitOn_groupsText, if_neg hne, expandFields, if_neg fun h => (mem_fields h).1 rfl]
  case isFalse =>
    have hgs := eq_around_zeros gs
    generalize gs.take (longestZeroRun gs).1 = front at hgs ⊢
    generalize gs.drop ((longestZeroRun gs).1 + (longestZeroRun gs).2) = back at hgs ⊢
    generalize (longestZeroRun gs).2 = n at hgs
    have hsplit : (groupsText front ++ "::" ++ groupsText back).toList.splitOn ':' =
        (if front = [] then [[]] else fields front) ++
          [] :: (if back = [] then [[]] else fields back) := by
      have hchars : (groupsText front ++ "::" ++ groupsText back).toList =
          (groupsText front).toList ++ ':' :: ([] ++ ':' :: (groupsText back).toList) := by simp
      rw [hchars, splitOn_append, splitOn_append, splitOn_groupsText, splitOn_groupsText]
      rfl
    have hmem : [] ∈ (if front = [] then [[]] else fields front) ++
        [] :: (if back = [] then [[]] else fields back) := by simp
    have hback : filled ((if front = [] then [[]] else fields front) ++
        [] :: (if back = [] then [[]] else fields back)).reverse = (fields back).reverse := by
      rw [List.reverse_append, List.reverse_cons, List.append_assoc, List.singleton_append,
        filled_groups_reverse]
    have hn : 8 - (fields front).length - (fields back).length = n := by
      rw [hgs] at hlen
      simp only [List.length_append, List.length_replicate] at hlen
      simp only [fields, List.length_map]
      omega
    rw [hsplit, expandFields, if_pos hmem, filled_groups, hback, List.reverse_reverse, hn, hgs]
    simp [fields, hexText]

/-! ## Addresses -/

/-- Eight groups are never written without a colon, unlike four bytes. -/
theorem colon_mem_compressed {gs : List UInt16} (hlen : gs.length = 8) :
    ':' ∈ (compressed gs).toList := by
  unfold compressed
  split
  · match gs, hlen with
    | g :: g' :: gs, _ =>
      rw [groupsText, List.map_cons, List.map_cons, String.intercalate_cons_cons]
      simp
  · simp

/-- Only the longer form has colons. -/
theorem v4Text_ne_text {bytes : List UInt8} {gs : List UInt16} (hlen : gs.length = 8) :
    v4Text bytes ≠ (v6 gs).text := by
  intro h
  have hall : (v6 gs).text.toList.all (· != ':') = true :=
    h ▸ all_v4Text (by decide) (fun c hc => by
      rw [bne_iff_ne]
      rintro rfl
      cases hc) bytes
  have hcolon : ':' ∈ (v6 gs).text.toList := by
    rcases text_v6 gs with ⟨a, b, -, h⟩ | h
    · rw [h]
      simp
    · rw [h]
      exact colon_mem_compressed hlen
  have hne := List.all_eq_true.1 hall ':' hcolon
  simp at hne

/-- Only an embedded address has dots. -/
theorem embedded_ne_compressed (a b : UInt16) (gs : List UInt16) :
    "::ffff:" ++ v4Text (embedded a b) ≠ compressed gs := by
  intro h
  have hall := all_compressed (p := (· != '.')) (by decide) (by decide) gs
  have hdot : '.' ∈ (compressed gs).toList := by
    rw [← h, v4Text, embedded, List.map_cons, List.map_cons, String.intercalate_cons_cons]
    simp
  have hne := List.all_eq_true.1 hall '.' hdot
  simp at hne

/-- Two addresses with one text are the same address. -/
theorem text_inj {a b : Inet} (ha : a.isWhole = true) (hb : b.isWhole = true)
    (h : a.text = b.text) : a = b := by
  cases a with
  | v4 bytes =>
    cases b with
    | v4 bytes' => rw [v4Text_inj h]
    | v6 gs => exact absurd h (v4Text_ne_text (eq_of_beq hb))
  | v6 gs =>
    cases b with
    | v4 bytes => exact absurd h.symm (v4Text_ne_text (eq_of_beq ha))
    | v6 gs' =>
      rcases text_v6 gs with ⟨x, y, rfl, hgs⟩ | hgs <;>
        rcases text_v6 gs' with ⟨x', y', rfl, hgs'⟩ | hgs' <;> rw [hgs, hgs'] at h
      · obtain ⟨rfl, rfl⟩ := embedded_inj (v4Text_inj ((String.append_right_inj _).1 h))
        rfl
      · exact absurd h (embedded_ne_compressed x y gs')
      · exact absurd h.symm (embedded_ne_compressed x' y' gs)
      · have hread := expandFields_compressed (eq_of_beq ha)
        rw [h, expandFields_compressed (eq_of_beq hb)] at hread
        rw [fields_inj hread]

end Inet

end WideRow
