import Std.Data.String.ToInt
import WideRow.Decimal.Layout
import WideRow.Proofs.ScalarTexts
import WideRow.Proofs.ShortestDecimals

/-!
# What the text of a floating-point number tells

The text of a number is its shortest decimal, laid out with a point, zeros or an exponent. The
decimal can be read back from it (`Numeral.named_eq`), and it rounds to no other number, so
different numbers have different texts; only the bit patterns that stand for no number share one.

> `write_single_inj`, `write_double_inj`: a text is of one number.
-/

namespace WideRow.Decimal

open Text

/-! ## Bit patterns -/

/-- Whether a bit pattern stands for a number, be it an infinite one. -/
def BinaryFormat.isNumber (f : BinaryFormat) (bits : Nat) : Bool := f.decode bits != .nan

/-- A bit pattern is put together from its parts. -/
theorem eq_of_parts {P E a b : Nat} (ha : a < P * E * 2) (hb : b < P * E * 2)
    (hfraction : a % P = b % P) (hexponent : a / P % E = b / P % E)
    (hsign : a / (P * E) % 2 = b / (P * E) % 2) : a = b := by
  have hsmall : ∀ {c : Nat}, c < P * E * 2 → c / (P * E) < 2 := fun hc =>
    Nat.div_lt_of_lt_mul hc
  rw [Nat.mod_eq_of_lt (hsmall ha), Nat.mod_eq_of_lt (hsmall hb), ← Nat.div_div_eq_div_mul,
    ← Nat.div_div_eq_div_mul] at hsign
  have hrest : a / P = b / P := by
    rw [← Nat.div_add_mod (a / P) E, hsign, hexponent, Nat.div_add_mod]
  rw [← Nat.div_add_mod a P, hrest, hfraction, Nat.div_add_mod]

section

variable {f : BinaryFormat} {bits : Nat}

/-- What is read from a bit pattern is a normal fraction. -/
theorem isNormal_of_decode {negative narrowBelow : Bool} {m : Nat} {q : Int}
    (h : f.decode bits = .finite negative m q narrowBelow) : IsNormal f m q narrowBelow := by
  have hfraction : bits % 2 ^ f.mantissaBits < 2 ^ f.mantissaBits :=
    Nat.mod_lt _ (Nat.two_pow_pos _)
  unfold BinaryFormat.decode at h
  simp only [Nat.pow_eq] at h
  generalize bits % 2 ^ f.mantissaBits = fraction at *
  generalize bits / 2 ^ f.mantissaBits % 2 ^ f.exponentBits = exponent at *
  split at h
  case isTrue => split at h <;> cases h
  case isFalse =>
    split at h
    case isTrue h0 =>
      cases h
      refine ⟨by rw [pow_succ]; omega, le_rfl, fun hlt => absurd hlt (lt_irrefl _), ?_⟩
      simp
    case isFalse h0 =>
      cases h
      refine ⟨by rw [pow_succ]; omega, by omega, fun _ => by omega, ?_⟩
      simp only [Bool.and_eq_true, beq_iff_eq, bne_iff_ne]
      omega

/-- The parts of a number can be told from it. -/
theorem parts_of_decode {a b : Nat} (hnumber : f.isNumber a = true) (h : f.decode a = f.decode b) :
    a % 2 ^ f.mantissaBits = b % 2 ^ f.mantissaBits ∧
      a / 2 ^ f.mantissaBits % 2 ^ f.exponentBits = b / 2 ^ f.mantissaBits % 2 ^ f.exponentBits ∧
      (a / 2 ^ (f.mantissaBits + f.exponentBits) % 2 == 1) =
        (b / 2 ^ (f.mantissaBits + f.exponentBits) % 2 == 1) := by
  have hfraction := Nat.mod_lt a (Nat.two_pow_pos f.mantissaBits)
  have hfraction' := Nat.mod_lt b (Nat.two_pow_pos f.mantissaBits)
  simp only [BinaryFormat.isNumber, bne_iff_ne, ne_eq] at hnumber
  unfold BinaryFormat.decode at h hnumber
  simp only [Nat.pow_eq] at h hnumber
  generalize a % 2 ^ f.mantissaBits = fraction at *
  generalize b % 2 ^ f.mantissaBits = fraction' at *
  generalize a / 2 ^ f.mantissaBits % 2 ^ f.exponentBits = exponent at *
  generalize b / 2 ^ f.mantissaBits % 2 ^ f.exponentBits = exponent' at *
  generalize (a / 2 ^ (f.mantissaBits + f.exponentBits) % 2 == 1) = negative at *
  generalize (b / 2 ^ (f.mantissaBits + f.exponentBits) % 2 == 1) = negative' at *
  split at h
  case isTrue he =>
    split at h
    case isFalse hf => simp [he, hf] at hnumber
    case isTrue hf =>
      split at h
      case isFalse => split at h <;> cases h
      case isTrue he' =>
        split at h <;> cases h
        case isTrue.refl hf' => exact ⟨hf.trans hf'.symm, he.trans he'.symm, rfl⟩
  case isFalse he =>
    split at h <;> split at h <;> try split at h
    all_goals simp only [Binary.finite.injEq, reduceCtorEq] at h
    all_goals exact ⟨by omega, by omega, h.1⟩

/-- A number has one bit pattern. -/
theorem decode_inj {a b : Nat} (ha : a < 2 ^ f.mantissaBits * 2 ^ f.exponentBits * 2)
    (hb : b < 2 ^ f.mantissaBits * 2 ^ f.exponentBits * 2) (hnumber : f.isNumber a = true)
    (h : f.decode a = f.decode b) : a = b := by
  obtain ⟨hfraction, hexponent, hsign⟩ := parts_of_decode hnumber h
  refine eq_of_parts ha hb hfraction hexponent ?_
  rw [← pow_add]
  rw [Bool.eq_iff_iff, beq_iff_eq, beq_iff_eq] at hsign
  omega

end

/-! ## Numerals -/

/-- How a fraction is attached to the digits before it. -/
inductive Fraction : List Char → List Char → Prop
  | none : Fraction [] []
  | point (digits : List Char) : Fraction digits ('.' :: digits)

/-- How an exponent is attached. -/
inductive Exponent : Int → List Char → Prop
  | none : Exponent 0 []
  | power (x : Int) : Exponent x ('e' :: x.repr.toList)

/-- The texts of decimals with their values: digits, perhaps a point and more digits, and perhaps
an exponent. -/
inductive Numeral : ℚ → List Char → Prop
  | mk {whole digits fraction exponent : List Char} {x : Int} (hne : whole ≠ [])
      (hdigit : ∀ c ∈ whole ++ digits, c.isDigit = true) (hfraction : Fraction digits fraction)
      (hexponent : Exponent x exponent) :
      Numeral (Nat.ofDigitChars 10 (whole ++ digits) 0 * 10 ^ (x - digits.length))
        (whole ++ fraction ++ exponent)

/-- The value of a numeral, read from its characters. -/
def named (cs : List Char) : ℚ :=
  let mantissa := cs.takeWhile (· != 'e')
  let digits := (mantissa.dropWhile (· != '.')).tail
  let exponent : Int := match cs.dropWhile (· != 'e') with
    | [] => 0
    | _ :: power => (String.ofList power).toInt?.getD 0
  Nat.ofDigitChars 10 (mantissa.takeWhile (· != '.') ++ digits) 0 * 10 ^ (exponent - digits.length)

theorem ne_of_isDigit {c d : Char} (hc : c.isDigit = true) (hd : d.isDigit = false) :
    (c != d) = true := by
  rw [bne_iff_ne]
  rintro rfl
  rw [hd] at hc
  cases hc

theorem Numeral.named_eq {x : ℚ} {cs : List Char} (h : Numeral x cs) : named cs = x := by
  obtain ⟨hne, hdigit, hfraction, hexponent⟩ := h
  rename_i whole digits fraction exponent x
  have hdot : ∀ c ∈ whole, (c != '.') = true := fun c hc =>
    ne_of_isDigit (hdigit c (List.mem_append_left _ hc)) rfl
  have he : ∀ c ∈ whole ++ fraction, (c != 'e') = true := by
    intro c hc
    rcases List.mem_append.1 hc with hc | hc
    · exact ne_of_isDigit (hdigit c (List.mem_append_left _ hc)) rfl
    · cases hfraction with
      | none => cases hc
      | point =>
        rcases List.mem_cons.1 hc with rfl | hc
        · rfl
        · exact ne_of_isDigit (hdigit c (List.mem_append_right _ hc)) rfl
  have hmantissa : (whole ++ fraction ++ exponent).takeWhile (· != 'e') = whole ++ fraction := by
    rw [List.takeWhile_append_of_pos he]
    cases hexponent <;> simp
  have hpower : (whole ++ fraction ++ exponent).dropWhile (· != 'e') = exponent := by
    rw [List.dropWhile_append_of_pos he]
    cases hexponent <;> simp
  have hwhole : (whole ++ fraction).takeWhile (· != '.') = whole := by
    rw [List.takeWhile_append_of_pos hdot]
    cases hfraction <;> simp
  have hdigits : ((whole ++ fraction).dropWhile (· != '.')).tail = digits := by
    rw [List.dropWhile_append_of_pos hdot]
    cases hfraction <;> simp
  rw [named, hmantissa, hpower, hwhole, hdigits]
  cases hexponent with
  | none => rfl
  | power x => simp [Int.toInt?_repr]

/-- A numeral begins with a digit. -/
theorem Numeral.exists_cons {x : ℚ} {cs : List Char} (h : Numeral x cs) :
    ∃ c rest, cs = c :: rest ∧ c.isDigit = true := by
  obtain ⟨hne, hdigit, -, -⟩ := h
  rename_i whole digits fraction exponent x
  obtain ⟨c, rest, rfl⟩ := List.exists_cons_of_ne_nil hne
  exact ⟨c, rest ++ fraction ++ exponent, by simp, hdigit c (by simp)⟩

/-- A numeral has digits, a point, a sign and the letter of the exponent, and none of them ends a
closed text. -/
theorem Numeral.isOrdinary {x : ℚ} {cs : List Char} (h : Numeral x cs) {c : Char} (hc : c ∈ cs) :
    Text.isOrdinary c = true := by
  obtain ⟨-, hdigit, hfraction, hexponent⟩ := h
  rename_i whole digits fraction exponent x
  have hordinary : ∀ {c : Char}, c.isDigit = true → Text.isOrdinary c = true := fun h =>
    isOrdinary_of_isAlphanum (by simp [Char.isAlphanum, h])
  rcases List.mem_append.1 hc with hc | hc
  · rcases List.mem_append.1 hc with hc | hc
    · exact hordinary (hdigit c (List.mem_append_left _ hc))
    · cases hfraction with
      | none => cases hc
      | point =>
        rcases List.mem_cons.1 hc with rfl | hc
        · rfl
        · exact hordinary (hdigit c (List.mem_append_right _ hc))
  · cases hexponent with
    | none => cases hc
    | power x =>
      rcases List.mem_cons.1 hc with rfl | hc
      · rfl
      · rcases mem_repr_int hc with h | rfl
        · exact hordinary h
        · rfl

/-! ## The text of a decimal -/

section

variable {l : Layout}

/-- What follows an integer is an empty fraction. -/
theorem fraction_integerTail (hl : l = plain ∨ l = exact) :
    ∃ n, Fraction (List.replicate n '0') l.integerTail.toList := by
  rcases hl with rfl | rfl
  · exact ⟨0, .none⟩
  · exact ⟨1, .point ['0']⟩

theorem isDigit_toDigits {n : Nat} {c : Char} (h : c ∈ Nat.toDigits 10 n) : c.isDigit = true :=
  Nat.isDigit_of_mem_toDigits (by decide) (by decide) h

theorem isDigit_replicate {n : Nat} {c : Char} (h : c ∈ List.replicate n '0') :
    c.isDigit = true := by
  rw [List.eq_of_mem_replicate h]
  rfl

/-- The text of an integer with zeros after its digits. -/
theorem numeral_integer (hl : l = plain ∨ l = exact) (d n : Nat) :
    Numeral (d * 10 ^ n) (Nat.toDigits 10 d ++ List.replicate n '0' ++ l.integerTail.toList) := by
  obtain ⟨k, hk⟩ := fraction_integerTail hl
  have hne : Nat.toDigits 10 d ++ List.replicate n '0' ≠ [] := by simp
  have hdigit : ∀ c ∈ Nat.toDigits 10 d ++ List.replicate n '0' ++ List.replicate k '0',
      c.isDigit = true := by
    intro c hc
    simp only [List.mem_append] at hc
    rcases hc with (hc | hc) | hc
    · exact isDigit_toDigits hc
    · exact isDigit_replicate hc
    · exact isDigit_replicate hc
  have hnumeral := Numeral.mk hne hdigit hk .none
  rw [List.append_nil, Nat.ofDigitChars_append, Nat.ofDigitChars_append,
    Nat.ofDigitChars_ten_toDigits, Nat.ofDigitChars_replicate_zero,
    Nat.ofDigitChars_replicate_zero] at hnumeral
  convert hnumeral using 1
  rw [List.length_replicate, zero_sub, zpow_neg, zpow_natCast]
  push_cast
  rw [mul_comm ((10 : ℚ) ^ k), mul_assoc, mul_inv_cancel₀ (by positivity), mul_one, mul_comm]

/-- Digits with a point, behind which there are as many as there are places. -/
theorem numeral_point {whole fraction : List Char} {digits places : Nat} (hne : whole ≠ [])
    (hdigit : ∀ c ∈ whole ++ fraction, c.isDigit = true) (hlength : fraction.length = places)
    (hdigits : Nat.ofDigitChars 10 (whole ++ fraction) 0 = digits) :
    Numeral (Digits.mk digits (-places)).value (whole ++ '.' :: fraction) := by
  have hnumeral := Numeral.mk hne hdigit (.point fraction) .none
  rwa [hlength, hdigits, zero_sub, List.append_nil] at hnumeral

/-- Digits with a point stand for the decimal, wherever the point is. -/
theorem numeral_positionalText (hl : l = plain ∨ l = exact) (d : Digits) :
    Numeral d.value (l.positionalText (Nat.toDigits 10 d.digits) d.exponent).toList := by
  obtain ⟨digits, exponent⟩ := d
  unfold Layout.positionalText
  dsimp only
  split
  case isTrue h =>
    have hvalue : (Digits.mk digits exponent).value = digits * 10 ^ exponent.toNat := by
      rw [Digits.value, ← zpow_natCast, Int.toNat_of_nonneg h]
    rw [hvalue]
    simpa [zeros] using numeral_integer hl digits exponent.toNat
  case isFalse h =>
    obtain ⟨places, rfl⟩ : ∃ places : Nat, exponent = -places := ⟨(-exponent).toNat, by omega⟩
    rw [neg_neg, Int.toNat_natCast]
    split
    case isTrue hlt =>
      -- the point is inside the digits
      generalize hn : (Nat.toDigits 10 digits).length - places = n
      have hparts := List.take_append_drop n (Nat.toDigits 10 digits)
      have hne : (Nat.toDigits 10 digits).take n ≠ [] := by
        rw [← List.length_pos_iff, List.length_take]
        omega
      have hlength : ((Nat.toDigits 10 digits).drop n).length = places := by
        rw [List.length_drop]
        omega
      have hvalue : Nat.ofDigitChars 10
          ((Nat.toDigits 10 digits).take n ++ (Nat.toDigits 10 digits).drop n) 0 = digits := by
        rw [hparts, Nat.ofDigitChars_ten_toDigits]
      simpa using numeral_point hne (fun c hc => isDigit_toDigits (hparts ▸ hc)) hlength hvalue
    case isFalse hge =>
      -- the point is before the digits, and zeros fill the gap
      generalize hn : places - (Nat.toDigits 10 digits).length = n
      have hlength : (List.replicate n '0' ++ Nat.toDigits 10 digits).length = places := by
        rw [List.length_append, List.length_replicate]
        omega
      have hdigit : ∀ c ∈ ['0'] ++ (List.replicate n '0' ++ Nat.toDigits 10 digits),
          c.isDigit = true := by
        intro c hc
        simp only [List.mem_append, List.mem_singleton] at hc
        rcases hc with rfl | hc | hc
        · rfl
        · exact isDigit_replicate hc
        · exact isDigit_toDigits hc
      have hvalue : Nat.ofDigitChars 10
          (['0'] ++ (List.replicate n '0' ++ Nat.toDigits 10 digits)) 0 = digits := by
        rw [Nat.ofDigitChars_append, Nat.ofDigitChars_append, Nat.ofDigitChars_replicate_zero]
        exact Nat.ofDigitChars_ten_toDigits
      simpa [zeros] using numeral_point (List.cons_ne_nil '0' []) hdigit hlength hvalue

/-- Digits with an exponent stand for the decimal. -/
theorem numeral_exponentText (d : Digits) : Numeral d.value (exponentText (Nat.toDigits 10 d.digits)
    (d.exponent + (Nat.toDigits 10 d.digits).length - 1)).toList := by
  obtain ⟨digits, exponent⟩ := d
  have hdigit : ∀ c ∈ Nat.toDigits 10 digits, c.isDigit = true := fun c hc => isDigit_toDigits hc
  have hnumber : Nat.ofDigitChars 10 (Nat.toDigits 10 digits) 0 = digits :=
    Nat.ofDigitChars_ten_toDigits
  have hne : Nat.toDigits 10 digits ≠ [] := Nat.toDigits_ne_nil
  rw [Digits.value]
  dsimp only
  generalize Nat.toDigits 10 digits = ds at *
  unfold exponentText
  rw [← hnumber, Int.toString_eq_repr]
  obtain ⟨c, rest, rfl⟩ := List.exists_cons_of_ne_nil hne
  cases rest with
  | nil =>
    have hnumeral := Numeral.mk (List.cons_ne_nil c []) (by simpa using hdigit) .none
      (.power exponent)
    simpa using hnumeral
  | cons c' rest =>
    have hnumeral := Numeral.mk (List.cons_ne_nil c []) hdigit (.point (c' :: rest))
      (.power (exponent + (c :: c' :: rest).length - 1))
    have hpower : exponent + ((c :: c' :: rest).length : Int) - 1 - ((c' :: rest).length : Int) =
        exponent := by
      simp only [List.length_cons]
      omega
    rw [hpower] at hnumeral
    simpa using hnumeral

/-- In either layout, a decimal is written as a numeral of its value. -/
theorem numeral_text (hl : l = plain ∨ l = exact) (d : Digits) :
    Numeral d.value (l.text d).toList := by
  unfold Layout.text
  dsimp only
  split
  · exact numeral_positionalText hl d
  · exact numeral_exponentText d

/-! ## The text of a bit pattern -/

/-- The sign of a number. -/
def Binary.sign : Binary → List Char
  | .nan => []
  | .infinite negative | .finite negative _ _ _ => if negative then ['-'] else []

/-- The text of a number without its sign. -/
def Layout.magnitude (l : Layout) (f : BinaryFormat) : Binary → String
  | .nan => "NaN"
  | .infinite _ => "inf"
  | .finite _ 0 _ _ => "0" ++ l.integerTail
  | .finite _ m q narrow => l.text (shortest f m q narrow)

/-- A bit pattern is written with its sign first. -/
theorem toList_write (f : BinaryFormat) (bits : Nat) :
    (l.write f bits).toList = (f.decode bits).sign ++ (l.magnitude f (f.decode bits)).toList := by
  have hsigned : ∀ (negative : Bool) (text : String),
      (if negative = true then "-" ++ text else text).toList =
        (if negative = true then ['-'] else []) ++ text.toList := by
    intro negative text
    cases negative <;> simp
  unfold Layout.write Layout.magnitude
  dsimp only
  generalize f.decode bits = number
  match number with
  | .nan => rfl
  | .infinite negative => exact hsigned ..
  | .finite negative 0 _ _ => exact hsigned ..
  | .finite negative (m + 1) q narrow => exact hsigned ..

/-- The decimal that stands for the magnitude of a finite number. -/
def magnitudeValue (f : BinaryFormat) (m : Nat) (q : Int) (narrowBelow : Bool) : ℚ :=
  if m = 0 then 0 else (shortest f m q narrowBelow).value

/-- A finite number is written as a numeral of the shortest decimal. -/
theorem numeral_magnitude (hl : l = plain ∨ l = exact) (f : BinaryFormat) (negative : Bool)
    (m : Nat) (q : Int) (narrowBelow : Bool) :
    Numeral (magnitudeValue f m q narrowBelow)
      (l.magnitude f (.finite negative m q narrowBelow)).toList := by
  unfold Layout.magnitude magnitudeValue
  cases m with
  | zero => simpa using numeral_integer hl 0 0
  | succ m => exact numeral_text hl _

/-- A magnitude does not begin like a sign. -/
theorem magnitude_head (hl : l = plain ∨ l = exact) (f : BinaryFormat) (number : Binary) :
    ∃ c rest, (l.magnitude f number).toList = c :: rest ∧ c ≠ '-' := by
  match number with
  | .nan => exact ⟨'N', ['a', 'N'], by simp [Layout.magnitude], by decide⟩
  | .infinite _ => exact ⟨'i', ['n', 'f'], by simp [Layout.magnitude], by decide⟩
  | .finite negative m q narrow =>
    obtain ⟨c, rest, hcons, hdigit⟩ := (numeral_magnitude hl f negative m q narrow).exists_cons
    exact ⟨c, rest, hcons, bne_iff_ne.1 (ne_of_isDigit hdigit rfl)⟩

/-- Numbers, infinities and what is no number have texts without brackets and commas. -/
theorem isItem_write (hl : l = plain ∨ l = exact) (f : BinaryFormat) (bits : Nat) :
    IsItem (l.write f bits) := by
  refine ⟨closedAt_of_ordinary (List.all_eq_true.2 fun c hc => ?_), fun h => ?_⟩
  · rw [toList_write, List.mem_append] at hc
    generalize f.decode bits = number at hc
    rcases hc with hc | hc
    · have hsign : c = '-' := by
        cases number <;> simp [Binary.sign] at hc <;> exact hc.2
      rw [hsign]
      rfl
    · match number, hc with
      | .nan, hc =>
        have hletters : "NaN".toList.all isOrdinary = true := rfl
        exact List.all_eq_true.1 hletters c hc
      | .infinite _, hc =>
        have hletters : "inf".toList.all isOrdinary = true := rfl
        exact List.all_eq_true.1 hletters c hc
      | .finite negative m q narrow, hc =>
        exact (numeral_magnitude hl f negative m q narrow).isOrdinary hc
  · obtain ⟨c, rest, hcons, -⟩ := magnitude_head hl f (f.decode bits)
    have hnil := congrArg String.toList h
    rw [toList_write, hcons] at hnil
    simp at hnil

/-- The sign of a number and its magnitude can be told from its text. -/
theorem sign_append_inj {s t : List Char} {x y : Bool}
    (hs : ∃ c rest, s = c :: rest ∧ c ≠ '-') (ht : ∃ c rest, t = c :: rest ∧ c ≠ '-')
    (h : (if x = true then ['-'] else []) ++ s = (if y = true then ['-'] else []) ++ t) :
    x = y ∧ s = t := by
  obtain ⟨c, rest, rfl, hc⟩ := hs
  obtain ⟨d, rest', rfl, hd⟩ := ht
  cases x <;> cases y <;> simp_all
  exact hd h.1.symm

section

variable {f : BinaryFormat} {m m' : Nat} {q q' : Int} {narrowBelow narrowBelow' : Bool}

/-- Only zero is written as zero. -/
theorem magnitudeValue_eq_zero (hf : f.HasDigits) (hn : IsNormal f m q narrowBelow) :
    magnitudeValue f m q narrowBelow = 0 ↔ m = 0 := by
  unfold magnitudeValue
  split
  case isTrue h => simp [h]
  case isFalse h =>
    refine iff_of_false (fun hzero => ?_) h
    have hlow := (rounds_shortest hf hn (Nat.pos_of_ne_zero h)).low
    have hreach : (reach narrowBelow : ℚ) < 4 * m := by
      exact_mod_cast reach_lt (Nat.pos_of_ne_zero h) narrowBelow
    have hpos : 0 < (4 * m - reach narrowBelow : ℚ) * quarter q :=
      mul_pos (by linarith) (quarter_pos q)
    linarith

/-- A finite number can be told from the decimal of its magnitude. -/
theorem eq_of_magnitudeValue (hf : f.HasDigits) (hn : IsNormal f m q narrowBelow)
    (hn' : IsNormal f m' q' narrowBelow')
    (h : magnitudeValue f m q narrowBelow = magnitudeValue f m' q' narrowBelow') :
    m = m' ∧ q = q' ∧ narrowBelow = narrowBelow' := by
  have hparts : m = m' ∧ q = q' := by
    rcases Nat.eq_zero_or_pos m with rfl | hm
    · have hm' : m' = 0 := by
        rw [← magnitudeValue_eq_zero hf hn', ← h, magnitudeValue_eq_zero hf hn]
      subst hm'
      have hleast : ∀ {q narrowBelow}, IsNormal f 0 q narrowBelow → q = f.minExponent := by
        intro q narrowBelow hn
        by_contra hne
        have := hn.full (lt_of_le_of_ne hn.ge (Ne.symm hne))
        have := Nat.two_pow_pos f.mantissaBits
        omega
      exact ⟨rfl, (hleast hn).trans (hleast hn').symm⟩
    · have hm' : 0 < m' := by
        rw [Nat.pos_iff_ne_zero, ne_eq, ← magnitudeValue_eq_zero hf hn', ← h,
          magnitudeValue_eq_zero hf hn]
        omega
      have hrounds := rounds_shortest hf hn hm
      rw [magnitudeValue, magnitudeValue, if_neg (by omega), if_neg (by omega)] at h
      rw [h] at hrounds
      exact Rounds.unique hn hn' hrounds (rounds_shortest hf hn' hm')
  obtain ⟨rfl, rfl⟩ := hparts
  exact ⟨rfl, rfl, by rw [Bool.eq_iff_iff, hn.narrow, hn'.narrow]⟩

end

/-- An infinite number has not the text of a finite one. -/
theorem magnitude_infinite_ne (hl : l = plain ∨ l = exact) (f : BinaryFormat)
    (negative negative' : Bool) (m : Nat) (q : Int) (narrowBelow : Bool) :
    (l.magnitude f (.infinite negative)).toList ≠
      (l.magnitude f (.finite negative' m q narrowBelow)).toList := by
  intro heq
  obtain ⟨c, rest, hcons, hdigit⟩ := (numeral_magnitude hl f negative' m q narrowBelow).exists_cons
  rw [hcons] at heq
  obtain ⟨rfl, -⟩ : 'i' = c ∧ ['n', 'f'] = rest := by simpa [Layout.magnitude] using heq
  cases hdigit

/-- Different numbers have different texts. -/
theorem decode_eq_of_write {f : BinaryFormat} (hf : f.HasDigits) (hl : l = plain ∨ l = exact)
    {a b : Nat} (ha : f.isNumber a = true) (hb : f.isNumber b = true)
    (h : l.write f a = l.write f b) : f.decode a = f.decode b := by
  have hchars := congrArg String.toList h
  rw [toList_write, toList_write] at hchars
  have hhead := fun number => magnitude_head hl f number
  cases hda : f.decode a with
  | nan => simp [BinaryFormat.isNumber, hda] at ha
  | infinite negative =>
    rw [hda] at hchars
    cases hdb : f.decode b with
    | nan => simp [BinaryFormat.isNumber, hdb] at hb
    | infinite negative' =>
      rw [hdb] at hchars
      rw [(sign_append_inj (hhead _) (hhead _) hchars).1]
    | finite negative' m' q' narrowBelow' =>
      rw [hdb] at hchars
      exact absurd (sign_append_inj (hhead _) (hhead _) hchars).2
        (magnitude_infinite_ne hl f _ _ _ _ _)
  | finite negative m q narrowBelow =>
    rw [hda] at hchars
    cases hdb : f.decode b with
    | nan => simp [BinaryFormat.isNumber, hdb] at hb
    | infinite negative' =>
      rw [hdb] at hchars
      exact absurd (sign_append_inj (hhead _) (hhead _) hchars).2.symm
        (magnitude_infinite_ne hl f _ _ _ _ _)
    | finite negative' m' q' narrowBelow' =>
      rw [hdb] at hchars
      obtain ⟨hsign, hmagnitude⟩ := sign_append_inj (hhead _) (hhead _) hchars
      have hvalue : magnitudeValue f m q narrowBelow = magnitudeValue f m' q' narrowBelow' := by
        rw [← (numeral_magnitude hl f negative m q narrowBelow).named_eq, hmagnitude,
          (numeral_magnitude hl f negative' m' q' narrowBelow').named_eq]
      obtain ⟨hm, hq, hnarrow⟩ := eq_of_magnitudeValue hf (isNormal_of_decode hda)
        (isNormal_of_decode hdb) hvalue
      rw [hsign, hm, hq, hnarrow]

/-- Different numbers of single precision have different texts. -/
theorem write_single_inj (hl : l = plain ∨ l = exact) {a b : UInt32}
    (ha : single.isNumber a.toNat = true) (hb : single.isNumber b.toNat = true)
    (h : l.write single a.toNat = l.write single b.toNat) : a = b :=
  UInt32.toNat_inj.1 (decode_inj (f := single) a.toNat_lt b.toNat_lt ha
    (decode_eq_of_write hasDigits_single hl ha hb h))

/-- Different numbers of double precision have different texts. -/
theorem write_double_inj (hl : l = plain ∨ l = exact) {a b : UInt64}
    (ha : double.isNumber a.toNat = true) (hb : double.isNumber b.toNat = true)
    (h : l.write double a.toNat = l.write double b.toNat) : a = b :=
  UInt64.toNat_inj.1 (decode_inj (f := double) a.toNat_lt b.toNat_lt ha
    (decode_eq_of_write hasDigits_double hl ha hb h))

end

end WideRow.Decimal
