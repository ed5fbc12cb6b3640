import Mathlib.Data.List.Basic
import WideRow.Proofs.ClosedTexts
import WideRow.Proofs.KeyText

/-!
# Texts of numbers, bytes and quoted texts

What the texts of values are made of: decimal and hexadecimal numbers, identifiers, bytes in
brackets and texts in quotes. All of them are closed, and each tells what it is the text of.

> `Text.quoted_inj`: a quoted text tells the text inside, since every character can be read back
> from its quoted form (`Text.unquoteChar?_quotedChar`).
-/

namespace WideRow

namespace Text

/-- Letters and digits are ordinary. -/
theorem isOrdinary_of_isAlphanum {c : Char} (h : c.isAlphanum = true) : isOrdinary c = true := by
  by_contra hne
  have hspecial : c ∈ ['"', '(', '[', '\x7b', ')', ']', '\x7d', ',', ';', '=', '\\'] := by
    simp only [isOrdinary, isOpening, isClosing, isReserved, Bool.and_eq_true, Bool.not_eq_true',
      bne_iff_ne, Bool.or_eq_false_iff, beq_eq_false_iff_ne, not_and_or, not_not] at hne
    simp only [List.mem_cons, List.not_mem_nil, or_false]
    tauto
  have hall : ['"', '(', '[', '\x7b', ')', ']', '\x7d', ',', ';', '=', '\\'].all
      (fun d => !d.isAlphanum) = true := rfl
  have hnot := List.all_eq_true.1 hall c hspecial
  rw [h] at hnot
  cases hnot

/-! ## Numbers -/

/-- The characters of a number are digits. -/
theorem mem_toDigits {b : Nat} (hb : 1 < b) {c : Char} {n : Nat} (h : c ∈ Nat.toDigits b n) :
    ∃ i < b, c = Nat.digitChar i := by
  induction n using Nat.strongRecOn with
  | ind n ih =>
    rw [Nat.toDigits_eq_if hb] at h
    split at h
    case isTrue hlt => exact ⟨n, hlt, by simpa using h⟩
    case isFalse hge =>
      rcases List.mem_append.1 h with h | h
      · exact ih (n / b) (Nat.div_lt_self (by omega) hb) h
      · exact ⟨n % b, Nat.mod_lt n (by omega), by simpa using h⟩

/-- The number that hexadecimal digits name. -/
def hexNumber (cs : List Char) : Nat :=
  cs.foldl (fun n c => 16 * n + (Uuid.hexValue? c).getD 0) 0

/-- Hexadecimal digits can be read back. -/
theorem hexNumber_toDigits (n : Nat) : hexNumber (Nat.toDigits 16 n) = n := by
  have hvalue : ∀ i < 16, Uuid.hexValue? (Nat.digitChar i) = some i := by decide
  induction n using Nat.strongRecOn with
  | ind n ih =>
    rw [Nat.toDigits_eq_if (by decide)]
    split
    case isTrue hlt => simp [hexNumber, hvalue n hlt]
    case isFalse hge =>
      have hrest := ih (n / 16) (Nat.div_lt_self (by omega) (by decide))
      rw [hexNumber] at hrest ⊢
      rw [List.foldl_append, hrest, List.foldl_cons, List.foldl_nil,
        hvalue _ (Nat.mod_lt n (by decide)), Option.getD_some]
      omega

theorem toDigits_sixteen_injective {n m : Nat} (h : Nat.toDigits 16 n = Nat.toDigits 16 m) :
    n = m := by
  rw [← hexNumber_toDigits n, h, hexNumber_toDigits]

theorem digitChar_isAlphanum {i : Nat} (hi : i < 16) : (Nat.digitChar i).isAlphanum = true := by
  have hall : ∀ i < 16, (Nat.digitChar i).isAlphanum = true := by decide
  exact hall i hi

/-- A number has digits and a sign. -/
theorem isItem_int (n : Int) : IsItem (toString n) := by
  rw [Int.toString_eq_repr]
  refine ⟨closedAt_of_ordinary (List.all_eq_true.2 fun c hc => ?_), fun h => ?_⟩
  · rcases mem_repr_int hc with h | rfl
    · exact isOrdinary_of_isAlphanum (by simp [Char.isAlphanum, h])
    · rfl
  · exact repr_int_ne_empty n (by rw [h]; rfl)

theorem isItem_nat (n : Nat) : IsItem (toString n) := isItem_int n

theorem isItem_bool (b : Bool) : IsItem (toString b) := by
  cases b <;> exact ⟨closedAt_of_ordinary rfl, by decide⟩

/-- An identifier has hexadecimal digits and hyphens. -/
theorem isItem_uuid (u : Uuid) : IsItem u.text := by
  have hdigits : ∀ {k n : Nat} {c : Char}, c ∈ Uuid.hexDigits k n → isOrdinary c = true := by
    intro k n c hc
    induction k generalizing n with
    | zero => simp [Uuid.hexDigits] at hc
    | succ k ih =>
      rw [Uuid.hexDigits, List.mem_append, List.mem_singleton] at hc
      rcases hc with hc | rfl
      · exact ih hc
      · exact isOrdinary_of_isAlphanum (digitChar_isAlphanum (Nat.mod_lt n (by decide)))
  have hne : u.text ≠ "" := by
    intro h
    have hnil := congrArg String.toList h
    simp [Uuid.toList_text] at hnil
  refine ⟨closedAt_of_ordinary (List.all_eq_true.2 fun c hc => ?_), hne⟩
  rw [Uuid.toList_text] at hc
  simp only [List.mem_append, List.mem_cons] at hc
  have hpart : ∀ i j, c ∈ ((Uuid.hexDigits 32 u.bits.toNat).drop i).take j → isOrdinary c = true :=
    fun i j h => hdigits (List.mem_of_mem_drop (List.mem_of_mem_take h))
  rcases hc with h | rfl | h | rfl | h | rfl | h | rfl | h
  · exact hdigits (List.mem_of_mem_take h)
  all_goals first | rfl | exact hpart _ _ h

/-! ## Quoted texts -/

/-- Reads the quoted form of a character back, with what follows. -/
def unquoteChar? : List Char → Option (Char × List Char)
  | [] => none
  | '\\' :: '0' :: cs => some ('\x00', cs)
  | '\\' :: 't' :: cs => some ('\t', cs)
  | '\\' :: 'r' :: cs => some ('\r', cs)
  | '\\' :: 'n' :: cs => some ('\n', cs)
  | '\\' :: 'u' :: '\x7b' :: cs =>
    some (Char.ofNat (hexNumber (cs.takeWhile (· != '\x7d'))),
      (cs.dropWhile (· != '\x7d')).tail)
  | '\\' :: c :: cs => some (c, cs)
  | c :: cs => some (c, cs)

theorem toList_codeEscape (c : Char) :
    (codeEscape c).toList = '\\' :: 'u' :: '\x7b' :: (Nat.toDigits 16 c.toNat ++ ['\x7d']) := by
  simp [codeEscape]

/-- A character can be read back from its quoted form. -/
theorem unquoteChar?_quotedChar (c : Char) (cs : List Char) :
    unquoteChar? ((quotedChar c).toList ++ cs) = some (c, cs) := by
  have hhex : ∀ d ∈ Nat.toDigits 16 c.toNat, (d != '\x7d') = true := by
    intro d hd
    obtain ⟨i, hi, rfl⟩ := mem_toDigits (by decide) hd
    have hall : ∀ i < 16, (Nat.digitChar i != '\x7d') = true := by decide
    exact hall i hi
  unfold quotedChar
  split
  case h_7 h0 ht hr hn hq hb =>
    split
    · rw [toList_codeEscape]
      simp only [List.cons_append, List.append_assoc, List.nil_append, unquoteChar?]
      rw [List.takeWhile_append_of_pos hhex, List.dropWhile_append_of_pos hhex]
      simp [hexNumber_toDigits]
    · rw [String.toList_singleton, List.singleton_append]
      unfold unquoteChar?
      split <;> simp_all
  all_goals rfl

/-- Escaped characters can be told at the front of any text: an escape ends where it says. -/
theorem quotedChar_append_inj {c d : Char} {cs ds : List Char}
    (h : (quotedChar c).toList ++ cs = (quotedChar d).toList ++ ds) : c = d ∧ cs = ds := by
  have hread := congrArg unquoteChar? h
  rw [unquoteChar?_quotedChar, unquoteChar?_quotedChar] at hread
  simpa using hread

theorem quotedChar_ne_nil (c : Char) : (quotedChar c).toList ≠ [] := by
  intro h
  have hread := unquoteChar?_quotedChar c []
  rw [h] at hread
  cases hread

theorem toList_quoted (s : String) :
    (quoted s).toList = '"' :: (s.toList.flatMap fun c => (quotedChar c).toList) ++ ['"'] := by
  simp [quoted, List.flatMap_map]

/-- A quoted text tells the text inside. -/
theorem quoted_inj {s t : String} (h : quoted s = quoted t) : s = t := by
  have hflat : ∀ cs ds : List Char, (cs.flatMap fun c => (quotedChar c).toList) =
      (ds.flatMap fun c => (quotedChar c).toList) → cs = ds := by
    intro cs
    induction cs with
    | nil =>
      rintro (_ | ⟨d, ds⟩) h
      · rfl
      · exact absurd (List.append_eq_nil_iff.1 h.symm).1 (quotedChar_ne_nil d)
    | cons c cs ih =>
      rintro (_ | ⟨d, ds⟩) h
      · exact absurd (List.append_eq_nil_iff.1 h).1 (quotedChar_ne_nil c)
      · obtain ⟨rfl, hrest⟩ := quotedChar_append_inj h
        rw [ih ds hrest]
  have hchars := congrArg String.toList h
  rw [toList_quoted, toList_quoted, List.cons_append, List.cons_append, List.cons.injEq,
    List.append_left_inj] at hchars
  exact String.toList_inj.1 (hflat _ _ hchars.2)

/-- The quoted form of a character stays inside the quotes. -/
theorem read_quotedChar (depth : Nat) (c : Char) :
    read (depth, .inside) (quotedChar c).toList = some (depth, .inside) := by
  have hplain : ∀ {d : Char}, d ≠ '"' → d ≠ '\\' →
      readChar (depth, .inside) d = some (depth, .inside) := by
    intro d hq hb
    simp [readChar, hq, hb]
  have hhex : ∀ ds : List Char, (∀ d ∈ ds, d ≠ '"' ∧ d ≠ '\\') →
      read (depth, .inside) ds = some (depth, .inside) := by
    intro ds hds
    induction ds with
    | nil => rfl
    | cons d ds ih =>
      have hd := hds d (List.mem_cons_self ..)
      rw [read_cons, hplain hd.1 hd.2]
      exact ih fun e he => hds e (List.mem_cons_of_mem _ he)
  unfold quotedChar
  split
  case h_7 h0 ht hr hn hq hb =>
    split
    · have hescape : readChar (depth, .inside) '\\' = some (depth, .escaped) := rfl
      have hletter : readChar (depth, .escaped) 'u' = some (depth, .inside) := rfl
      rw [toList_codeEscape, read_cons, hescape, Option.bind_some, read_cons, hletter,
        Option.bind_some]
      refine hhex _ fun d hd => ?_
      rw [List.mem_cons, List.mem_append, List.mem_singleton] at hd
      rcases hd with rfl | hd | rfl
      · decide
      · obtain ⟨i, hi, rfl⟩ := mem_toDigits (by decide) hd
        have hall : ∀ i < 16, Nat.digitChar i ≠ '"' ∧ Nat.digitChar i ≠ '\\' := by decide
        exact hall i hi
      · decide
    · rw [String.toList_singleton]
      exact hhex _ fun d hd => by
        rw [List.mem_singleton.1 hd]
        exact ⟨hq, hb⟩
  all_goals rfl

/-- Inside quotes, brackets and commas mean nothing, and a quote is escaped. -/
theorem isItem_quoted (s : String) : IsItem (quoted s) := by
  have hflat : ∀ (cs : List Char) (depth : Nat), read (depth, .inside)
      (cs.flatMap fun c => (quotedChar c).toList) = some (depth, .inside) := by
    intro cs depth
    induction cs with
    | nil => rfl
    | cons c cs ih => rw [List.flatMap_cons, read_append, read_quotedChar, Option.bind_some, ih]
  refine ⟨fun depth => ?_, fun h => ?_⟩
  · have hopen : readChar (0 + depth, .outside) '"' = some (0 + depth, .inside) := rfl
    rw [toList_quoted, List.cons_append, read_cons, hopen, Option.bind_some, read_append, hflat]
    rfl
  · have hnil := congrArg String.toList h
    simp [toList_quoted] at hnil

end Text

/-! ## Bytes -/

namespace Shown

open Text

theorem isItem_byte {bs : List UInt8} {s : String} (hs : s ∈ bs.map fun b => toString b.toNat) :
    IsItem s := by
  obtain ⟨b, -, rfl⟩ := List.mem_map.1 hs
  exact isItem_nat b.toNat

/-- Bytes are a list of numbers. -/
theorem isItem_bytes (bs : List UInt8) : IsItem (bytes bs) :=
  isItem_bracketed fun _ hs => (isItem_byte hs).closed

/-- Bytes can be told from their list. -/
theorem bytes_inj {bs cs : List UInt8} (h : bytes bs = bytes cs) : bs = cs := by
  have hmap := bracketed_inj (fun _ => isItem_byte) (fun _ => isItem_byte) h
  refine (List.map_inj_right fun b c hbc => ?_).1 hmap
  exact UInt8.toNat_inj.1 (Nat.repr_injective hbc)

end Shown

end WideRow
