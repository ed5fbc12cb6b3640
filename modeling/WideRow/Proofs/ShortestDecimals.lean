import Mathlib.Algebra.Order.Field.Power
import Mathlib.Data.Nat.Cast.Order.Field
import Mathlib.Data.Rat.Cast.Order
import Mathlib.Tactic.Linarith
import Mathlib.Tactic.Positivity
import Mathlib.Tactic.Ring
import WideRow.Decimal.Shortest

/-!
# The shortest decimal names its number

`shortest` looks for a decimal in the interval of the reals that round to a number, and falls back
to something else where it finds none. It always finds one: the last grid that it tries is finer
than the interval is wide. And a real rounds to one number only, a tie going to the even mantissa,
so the decimal names the number.

> `rounds_shortest`: the shortest decimal rounds to the number.

> `Rounds.unique`: no real rounds to two numbers of a format.

The unit of all comparisons is a quarter of the step between numbers, in which both ends of the
interval are whole.
-/

namespace WideRow.Decimal

/-- The value of a decimal. -/
def Digits.value (d : Digits) : ℚ := d.digits * 10 ^ d.exponent

/-- A quarter of the step of the numbers with this exponent. -/
def quarter (q : Int) : ℚ := 2 ^ (q - 2)

/-- The quarters by which the lower end of the interval is below the number. -/
def reach (narrowBelow : Bool) : Nat := if narrowBelow then 1 else 2

/-- The reals that round to `m · 2^q`: those of an interval around it, and its ends only if `m` is
even. -/
structure Rounds (m : Nat) (q : Int) (narrowBelow : Bool) (x : ℚ) : Prop where
  low : (4 * m - reach narrowBelow) * quarter q ≤ x
  high : x ≤ (4 * m + 2) * quarter q
  low_ne : m % 2 = 1 → x ≠ (4 * m - reach narrowBelow) * quarter q
  high_ne : m % 2 = 1 → x ≠ (4 * m + 2) * quarter q

theorem quarter_pos (q : Int) : 0 < quarter q := zpow_pos (by norm_num) _

/-! ## Ratios -/

theorem ratio_den_pos {m base : Nat} (hbase : 0 < base) (e : Int) : 0 < (ratio m base e).2 :=
  Nat.pow_pos hbase

theorem ratio_num_pos {m base : Nat} (hm : 0 < m) (hbase : 0 < base) (e : Int) :
    0 < (ratio m base e).1 := Nat.mul_pos hm (Nat.pow_pos hbase)

/-- Numerator and denominator are a power, wherever its exponent puts it. -/
theorem ratio_eq {m base : Nat} (hbase : 0 < base) (e : Int) :
    ((ratio m base e).1 : ℚ) / (ratio m base e).2 = m * base ^ e := by
  have hne : (base : ℚ) ≠ 0 := by positivity
  simp only [ratio, Nat.pow_eq, Nat.cast_mul, Nat.cast_pow]
  rw [mul_div_assoc, ← zpow_natCast, ← zpow_natCast, ← zpow_sub₀ hne]
  congr 2
  omega

/-! ## Intervals -/

/-- Fractions are compared by multiplying out. -/
theorem le_iff_div_le {a b c d : Nat} (hb : 0 < b) (hd : 0 < d) :
    a * d ≤ c * b ↔ (a / b : ℚ) ≤ c / d := by
  rw [div_le_div_iff₀ (by exact_mod_cast hb) (by exact_mod_cast hd)]
  norm_cast

theorem lt_iff_div_lt {a b c d : Nat} (hb : 0 < b) (hd : 0 < d) :
    a * d < c * b ↔ (a / b : ℚ) < c / d := by
  rw [div_lt_div_iff₀ (by exact_mod_cast hb) (by exact_mod_cast hd)]
  norm_cast

theorem reach_pos (narrowBelow : Bool) : 0 < reach narrowBelow := by
  cases narrowBelow <;> decide

/-- An interval reaches down by two quarters of a step, or by one where the numbers below lie
closer. -/
theorem reach_le_two (narrowBelow : Bool) : reach narrowBelow ≤ 2 := by
  cases narrowBelow <;> decide

/-- It does not reach down to zero. -/
theorem reach_lt {m : Nat} (hm : 0 < m) (narrowBelow : Bool) : reach narrowBelow < 4 * m := by
  have hreach := reach_le_two narrowBelow
  omega

section

variable {m : Nat} {q : Int} {narrowBelow : Bool}

theorem around_den_pos (m : Nat) (q : Int) (narrowBelow : Bool) :
    0 < (Interval.around m q narrowBelow).den :=
  ratio_den_pos (m := 1) (by decide) (q - 2)

/-- Quarters of a step have a common denominator. -/
theorem quarters_eq (n : Nat) : ((n * (ratio 1 2 (q - 2)).1 : Nat) : ℚ) / (ratio 1 2 (q - 2)).2 =
    n * quarter q := by
  rw [Nat.cast_mul, mul_div_assoc, ratio_eq (by decide), quarter]
  norm_num

/-- The lower end is half a step below the number, or a quarter. -/
theorem around_low (hm : 0 < m) (q : Int) (narrowBelow : Bool) :
    ((Interval.around m q narrowBelow).low : ℚ) /
    (Interval.around m q narrowBelow).den = (4 * m - reach narrowBelow) * quarter q := by
  have hlow := quarters_eq (q := q) (4 * m - reach narrowBelow)
  rw [Nat.cast_sub (reach_lt hm narrowBelow).le] at hlow
  exact_mod_cast hlow

/-- The number itself is a whole number of steps, each of four quarters. -/
theorem around_value (m : Nat) (q : Int) (narrowBelow : Bool) :
    ((Interval.around m q narrowBelow).value : ℚ) /
    (Interval.around m q narrowBelow).den = 4 * m * quarter q := by
  exact_mod_cast quarters_eq (q := q) (4 * m)

/-- The upper end is half a step above. -/
theorem around_high (m : Nat) (q : Int) (narrowBelow : Bool) :
    ((Interval.around m q narrowBelow).high : ℚ) /
    (Interval.around m q narrowBelow).den = (4 * m + 2) * quarter q := by
  exact_mod_cast quarters_eq (q := q) (4 * m + 2)

/-- The interval holds the reals that round to the number. -/
theorem contains_iff (hm : 0 < m) {k num den : Nat} (hden : 0 < den) :
    (Interval.around m q narrowBelow).contains k num den = true ↔
      Rounds m q narrowBelow (k * num / den) := by
  have hd := around_den_pos m q narrowBelow
  have hlow := around_low hm q narrowBelow
  have hhigh := around_high m q narrowBelow
  have hclosed : (Interval.around m q narrowBelow).closed = (m % 2 == 0) := rfl
  generalize Interval.around m q narrowBelow = i at *
  have hx : ((k * num : Nat) : ℚ) / den = k * num / den := by rw [Nat.cast_mul]
  unfold Interval.contains
  split
  case isTrue h =>
    rw [hclosed, beq_iff_eq] at h
    simp only [Bool.and_eq_true, decide_eq_true_eq]
    rw [le_iff_div_le hd hden, le_iff_div_le hden hd, hlow, hhigh, hx]
    exact ⟨fun ⟨h₁, h₂⟩ => ⟨h₁, h₂, by omega, by omega⟩, fun h => ⟨h.low, h.high⟩⟩
  case isFalse h =>
    rw [hclosed, beq_iff_eq] at h
    simp only [Bool.and_eq_true, decide_eq_true_eq]
    rw [lt_iff_div_lt hd hden, lt_iff_div_lt hden hd, hlow, hhigh, hx]
    constructor
    · exact fun ⟨h₁, h₂⟩ => ⟨h₁.le, h₂.le, fun _ => h₁.ne', fun _ => h₂.ne⟩
    · intro hr
      have hodd : m % 2 = 1 := by omega
      exact ⟨lt_of_le_of_ne hr.low (hr.low_ne hodd).symm, lt_of_le_of_ne hr.high (hr.high_ne hodd)⟩

/-! ## Grids -/

/-- A point of the grid that is found rounds to the number. -/
theorem rounds_of_onGrid? (hm : 0 < m) {e : Int} {d : Digits}
    (h : (Interval.around m q narrowBelow).onGrid? e = some d) :
    Rounds m q narrowBelow d.value := by
  have hden := ratio_den_pos (m := 1) (by decide : 0 < 10) e
  have hvalue : ∀ k : Nat, (Digits.mk k e).value =
      k * (ratio 1 10 e).1 / (ratio 1 10 e).2 := by
    intro k
    rw [mul_div_assoc, ratio_eq (by decide), Digits.value]
    norm_num
  unfold Interval.onGrid? at h
  dsimp only at h
  split at h <;> cases h <;> rw [hvalue]
  case h_1 hk hk' =>
    split
    · exact (contains_iff hm hden).1 hk
    · exact (contains_iff hm hden).1 hk'
  case h_2 hk _ => exact (contains_iff hm hden).1 hk
  case h_3 _ hk' => exact (contains_iff hm hden).1 hk'

/-- What is strictly inside the interval rounds to the number, be it even or odd. -/
theorem Rounds.of_lt {x : ℚ} (hlow : (4 * m - reach narrowBelow) * quarter q < x)
    (hhigh : x < (4 * m + 2) * quarter q) : Rounds m q narrowBelow x :=
  ⟨hlow.le, hhigh.le, fun _ => hlow.ne', fun _ => hhigh.ne⟩

/-- The number itself rounds to itself. -/
theorem value_between (m : Nat) (q : Int) (narrowBelow : Bool) :
    (4 * m - reach narrowBelow : ℚ) * quarter q < 4 * m * quarter q ∧
      4 * m * quarter q < (4 * m + 2) * quarter q := by
  have hq := quarter_pos q
  have hreach : (0 : ℚ) < reach narrowBelow := by exact_mod_cast reach_pos narrowBelow
  constructor <;> nlinarith

/-- The multiples of a step on both sides of a number. -/
theorem multiples_around (value : Nat) {d num den : Nat} (hd : 0 < d) (hnum : 0 < num)
    (hden : 0 < den) :
    ((value * den / (d * num) : Nat) : ℚ) * num / den ≤ value / d ∧
      (value / d : ℚ) < ((value * den / (d * num) + 1 : Nat) : ℚ) * num / den := by
  have hbelow := Nat.div_mul_le_self (value * den) (d * num)
  have habove := (Nat.div_lt_iff_lt_mul (Nat.mul_pos hd hnum)).1
    (Nat.lt_succ_self (value * den / (d * num)))
  rw [Nat.mul_comm d, ← Nat.mul_assoc] at hbelow habove
  rw [le_iff_div_le hden hd, Nat.cast_mul] at hbelow
  rw [lt_iff_div_lt hd hden, Nat.cast_mul] at habove
  rw [Nat.mul_comm d]
  exact ⟨hbelow, habove⟩

/-- A grid that is finer than the interval is wide has a point in it. -/
theorem exists_onGrid? (hm : 0 < m) {e : Int}
    (hfine : (10 : ℚ) ^ e < (2 + reach narrowBelow) * quarter q) :
    ∃ d, (Interval.around m q narrowBelow).onGrid? e = some d := by
  have hden := ratio_den_pos (m := 1) (by decide : 0 < 10) e
  have hnum := ratio_num_pos (by decide : 0 < 1) (by decide : 0 < 10) e
  have hd := around_den_pos m q narrowBelow
  have hstep : ((ratio 1 10 e).1 : ℚ) / (ratio 1 10 e).2 = 10 ^ e := by
    rw [ratio_eq (by decide)]
    norm_num
  have hcontains : ∀ k, (Interval.around m q narrowBelow).contains k (ratio 1 10 e).1
      (ratio 1 10 e).2 = true ↔
        Rounds m q narrowBelow (k * (ratio 1 10 e).1 / (ratio 1 10 e).2) := fun k =>
    contains_iff hm hden
  have hvalue := around_value m q narrowBelow
  obtain ⟨hlow, hhigh⟩ := value_between m q narrowBelow
  unfold Interval.onGrid?
  dsimp only
  generalize (ratio 1 10 e).1 = num at *
  generalize (ratio 1 10 e).2 = den at *
  generalize Interval.around m q narrowBelow = i at *
  have hpoint : ∀ k : Nat, (k : ℚ) * num / den = k * 10 ^ e := fun k => by
    rw [mul_div_assoc, hstep]
  simp only [hpoint] at hcontains
  obtain ⟨hbelow, habove⟩ := multiples_around i.value hd hnum hden
  rw [hvalue, hpoint] at hbelow habove
  generalize i.value * den / (i.den * num) = k at *
  split
  case h_1 => exact ⟨_, rfl⟩
  case h_2 => exact ⟨_, rfl⟩
  case h_3 => exact ⟨_, rfl⟩
  case h_4 hk hk' =>
    -- the two neighbours of the number are both outside, with the whole interval between them
    have hk₁ : (k : ℚ) * 10 ^ e ≤ (4 * m - reach narrowBelow) * quarter q := by
      by_contra hlt
      rw [(hcontains k).2 (.of_lt (not_le.1 hlt) (hbelow.trans_lt hhigh))] at hk
      cases hk
    have hk₂ : (4 * m + 2) * quarter q ≤ ((k + 1 : Nat) : ℚ) * 10 ^ e := by
      by_contra hlt
      rw [(hcontains (k + 1)).2 (.of_lt (hlow.trans habove) (not_le.1 hlt))] at hk'
      cases hk'
    push_cast at hk₂
    nlinarith

end

/-! ## The shortest decimal -/

/-- A number has at most so many digits if it is less than that power of ten. -/
theorem le_of_width {n k : Nat} (hk : 0 < k) : width n ≤ k ↔ n < 10 ^ k :=
  Nat.length_toDigits_le_iff (by decide) hk

theorem width_pos (n : Nat) : 0 < width n := Nat.length_toDigits_pos

/-- The first digit of a number is not zero. -/
theorem pow_le_of_width {n : Nat} (hn : 0 < n) : 10 ^ (width n - 1) ≤ n := by
  by_contra hlt
  rcases Nat.eq_zero_or_pos (width n - 1) with h | h
  · rw [h] at hlt
    omega
  · have hle := (le_of_width h).2 (Nat.lt_of_not_le hlt)
    omega

/-- The leading digit stands at a power of ten that is not above the number. -/
theorem leadingExponent_le {num den : Nat} (hnum : 0 < num) (hden : 0 < den) :
    (10 : ℚ) ^ leadingExponent num den ≤ num / den := by
  unfold leadingExponent
  split
  case isTrue h =>
    have hpos := Nat.div_pos h hden
    have hexp : ((width (num / den) : Int) - 1) = ((width (num / den) - 1 : Nat) : Int) := by
      have := width_pos (num / den)
      omega
    rw [hexp, zpow_natCast]
    calc (10 : ℚ) ^ (width (num / den) - 1) ≤ (num / den : Nat) := by
          exact_mod_cast pow_le_of_width hpos
      _ ≤ num / den := Nat.cast_div_le
  case isFalse h =>
    generalize hc : (den + num - 1) / num - 1 = c
    have hlt : c < 10 ^ width c := (le_of_width (width_pos c)).1 le_rfl
    have hle : den ≤ num * 10 ^ width c := by
      have hceil : den + num - 1 < num * ((den + num - 1) / num + 1) :=
        Nat.lt_mul_div_succ _ hnum
      have hmul : num * ((den + num - 1) / num) ≤ num * 10 ^ width c :=
        Nat.mul_le_mul_left _ (by omega)
      rw [Nat.mul_add, Nat.mul_one] at hceil
      omega
    have hleQ : (den : ℚ) ≤ num * 10 ^ width c := by exact_mod_cast hle
    rw [zpow_neg, zpow_natCast, inv_eq_one_div,
      div_le_div_iff₀ (by positivity) (by exact_mod_cast hden), one_mul]
    exact hleQ

/-- Zeros at the end go into the exponent. -/
theorem Digits.value_trim (n : Nat) (d : Digits) : (d.trim n).value = d.value := by
  induction n generalizing d with
  | zero => rfl
  | succ n ih =>
    unfold Digits.trim
    split
    case isTrue h =>
      have hten : ((d.digits : Nat) : ℚ) = 10 * (d.digits / 10 : Nat) := by
        exact_mod_cast (Nat.mul_div_cancel' (Nat.dvd_of_mod_eq_zero h)).symm
      rw [ih, Digits.value, Digits.value, zpow_add_one₀ (by norm_num), hten]
      ring
    case isFalse => rfl

/-- The number of digits that are tried is enough to tell mantissas apart. -/
structure BinaryFormat.HasDigits (f : BinaryFormat) : Prop where
  digits : 0 < f.maxDigits
  wide : 2 ^ (f.mantissaBits + 1) ≤ 10 ^ (f.maxDigits - 1)
  narrow : 4 * 2 ^ f.mantissaBits < 3 * 10 ^ (f.maxDigits - 1)

/-- Nine digits are enough for single precision. -/
theorem hasDigits_single : single.HasDigits := ⟨by decide, by decide, by decide⟩

/-- Seventeen digits are enough for double precision. -/
theorem hasDigits_double : double.HasDigits := ⟨by decide, by decide, by decide⟩

/-- The form in which a format has a number: the mantissa fills its bits unless the exponent is the
least, and only at the first of several numbers with one exponent the step below is narrower. -/
structure IsNormal (f : BinaryFormat) (m : Nat) (q : Int) (narrowBelow : Bool) : Prop where
  lt : m < 2 ^ (f.mantissaBits + 1)
  ge : f.minExponent ≤ q
  full : f.minExponent < q → 2 ^ f.mantissaBits ≤ m
  narrow : narrowBelow = true ↔ m = 2 ^ f.mantissaBits ∧ f.minExponent < q

section

variable {f : BinaryFormat} {m : Nat} {q : Int} {narrowBelow : Bool}

/-- The last grid is finer than the interval. -/
theorem fine_of_isNormal (hf : f.HasDigits) (hn : IsNormal f m q narrowBelow) {e : Int}
    (he : (10 : ℚ) ^ e ≤ 4 * m * quarter q) :
    (10 : ℚ) ^ (e - (f.maxDigits - 1 : Nat)) < (2 + reach narrowBelow) * quarter q := by
  have hwide : 4 * m < (2 + reach narrowBelow) * 10 ^ (f.maxDigits - 1) := by
    cases narrowBelow with
    | true =>
      rw [(hn.narrow.1 rfl).1]
      exact hf.narrow
    | false =>
      have hlt := hn.lt
      have hle := hf.wide
      show 4 * m < 4 * 10 ^ (f.maxDigits - 1)
      omega
  have hwideQ : (4 * m : ℚ) < (2 + reach narrowBelow) * 10 ^ (f.maxDigits - 1) := by
    exact_mod_cast hwide
  rw [zpow_sub₀ (by norm_num), zpow_natCast, div_lt_iff₀ (by positivity)]
  calc (10 : ℚ) ^ e ≤ 4 * m * quarter q := he
    _ < (2 + reach narrowBelow) * 10 ^ (f.maxDigits - 1) * quarter q :=
      mul_lt_mul_of_pos_right hwideQ (quarter_pos q)
    _ = (2 + reach narrowBelow) * quarter q * 10 ^ (f.maxDigits - 1) := by ring

/-- The shortest decimal rounds to the number. -/
theorem rounds_shortest (hf : f.HasDigits) (hn : IsNormal f m q narrowBelow) (hm : 0 < m) :
    Rounds m q narrowBelow (shortest f m q narrowBelow).value := by
  have hlead : (10 : ℚ) ^ leadingExponent (Interval.around m q narrowBelow).value
      (Interval.around m q narrowBelow).den ≤ 4 * m * quarter q := by
    rw [← around_value m q narrowBelow]
    exact leadingExponent_le (Nat.mul_pos (by omega)
      (ratio_num_pos (by decide) (by decide) (q - 2))) (around_den_pos m q narrowBelow)
  obtain ⟨d, hd⟩ := exists_onGrid? hm (fine_of_isNormal hf hn hlead)
  rw [shortest, Digits.value_trim]
  generalize leadingExponent (Interval.around m q narrowBelow).value
    (Interval.around m q narrowBelow).den = lead at *
  cases hhit : (List.range f.maxDigits).findSome? fun n : Nat =>
      (Interval.around m q narrowBelow).onGrid? (lead - n) with
  | none =>
    have hnone := List.findSome?_eq_none_iff.1 hhit (f.maxDigits - 1)
      (List.mem_range.2 (Nat.sub_lt hf.digits Nat.one_pos))
    rw [hd] at hnone
    cases hnone
  | some d' =>
    obtain ⟨n, -, hn⟩ := List.exists_of_findSome?_eq_some hhit
    exact rounds_of_onGrid? hm hn

end

/-! ## No real rounds to two numbers -/

section

variable {f : BinaryFormat} {m m' : Nat} {q q' : Int} {narrowBelow narrowBelow' : Bool} {x : ℚ}

/-- The ends of two intervals with one exponent. -/
theorem not_rounds_of_lt (hx : Rounds m q narrowBelow x) (hx' : Rounds m' q narrowBelow' x)
    (hlt : m < m') : False := by
  have hq := quarter_pos q
  have hends : (4 * m' - reach narrowBelow' : ℚ) ≤ 4 * m + 2 :=
    le_of_mul_le_mul_right (hx'.low.trans hx.high) hq
  have hreach := reach_le_two narrowBelow'
  have hends' : 4 * m' ≤ 4 * m + 2 + reach narrowBelow' := by
    have : (4 * m' : ℚ) ≤ 4 * m + 2 + reach narrowBelow' := by linarith
    exact_mod_cast this
  -- only the ends of neighbours meet, and then one of the mantissas is odd
  have hmeet : (4 * m' - reach narrowBelow' : ℚ) = 4 * m + 2 := by
    have : 4 * m' = 4 * m + 2 + reach narrowBelow' := by omega
    have hQ : (4 * m' : ℚ) = 4 * m + 2 + reach narrowBelow' := by exact_mod_cast this
    linarith
  have hxe : x = (4 * m + 2) * quarter q := le_antisymm hx.high (hmeet ▸ hx'.low)
  rcases Nat.mod_two_eq_zero_or_one m with heven | hodd
  · exact hx'.low_ne (by omega) (hmeet ▸ hxe)
  · exact hx.high_ne hodd hxe

/-- With each exponent the step doubles. -/
theorem quarter_add_succ (q : Int) (t : Nat) : quarter (q + (t + 1)) = 2 * 2 ^ t * quarter q := by
  have hexp : q + (t + 1 : Int) - 2 = (t + 1 : Nat) + (q - 2) := by
    push_cast
    ring
  rw [quarter, quarter, hexp, zpow_add₀ (by norm_num), zpow_natCast, pow_succ]
  ring

/-- The ends of two intervals with different exponents. -/
theorem not_rounds_of_exponent_lt (hn : IsNormal f m q narrowBelow)
    (hn' : IsNormal f m' q' narrowBelow') (hx : Rounds m q narrowBelow x)
    (hx' : Rounds m' q' narrowBelow' x) (hlt : q < q') : False := by
  have hq := quarter_pos q
  obtain ⟨t, rfl⟩ : ∃ t : Nat, q' = q + (t + 1) := ⟨(q' - q - 1).toNat, by omega⟩
  have hquarter := quarter_add_succ q t
  have hfull := hn'.full (hn.ge.trans_lt hlt)
  have hm := hn.lt
  rw [pow_succ] at hm
  have hends := hx'.low.trans hx.high
  rw [hquarter, ← mul_assoc] at hends
  have hends' : (4 * m' - reach narrowBelow' : ℚ) * (2 * 2 ^ t) ≤ 4 * m + 2 :=
    le_of_mul_le_mul_right hends hq
  have hone : (1 : ℚ) ≤ 2 ^ t := one_le_pow₀ (by norm_num)
  have hpos : (0 : ℚ) ≤ 4 * m' - reach narrowBelow' := by
    have hlt := reach_lt ((Nat.two_pow_pos _).trans_le hfull) narrowBelow'
    have : (reach narrowBelow' : ℚ) < 4 * m' := by exact_mod_cast hlt
    linarith
  have hdouble : 2 * (4 * m' - reach narrowBelow' : ℚ) ≤ 4 * m + 2 := by nlinarith
  have hdouble' : 8 * m' ≤ 4 * m + 2 + 2 * reach narrowBelow' := by
    have : (8 * m' : ℚ) ≤ 4 * m + 2 + 2 * reach narrowBelow' := by linarith
    exact_mod_cast this
  cases hnarrow : narrowBelow' with
  | true =>
    -- the last number with the smaller exponent, whose mantissa is odd
    rw [hnarrow] at hdouble' hpos hx' hends'
    have hm' := (hn'.narrow.1 hnarrow).1
    have hreach : reach true = 1 := rfl
    have hlast : m + 1 = 2 * m' := by omega
    have hlastQ : (m : ℚ) + 1 = 2 * m' := by exact_mod_cast hlast
    refine hx.high_ne (by omega) (le_antisymm hx.high ?_)
    have hlow := hx'.low
    rw [hquarter, ← mul_assoc] at hlow
    refine le_trans (mul_le_mul_of_nonneg_right ?_ hq.le) hlow
    rw [hreach] at hpos ⊢
    push_cast at hpos ⊢
    nlinarith
  | false =>
    rw [hnarrow] at hdouble'
    have hreach : reach false = 2 := rfl
    have hm' : m' ≠ 2 ^ f.mantissaBits := by
      intro h
      have := hn'.narrow.2 ⟨h, hn.ge.trans_lt hlt⟩
      rw [hnarrow] at this
      cases this
    omega

/-- No real rounds to two numbers of a format. -/
theorem Rounds.unique (hn : IsNormal f m q narrowBelow) (hn' : IsNormal f m' q' narrowBelow')
    (hx : Rounds m q narrowBelow x) (hx' : Rounds m' q' narrowBelow' x) : m = m' ∧ q = q' := by
  rcases lt_trichotomy q q' with hlt | rfl | hgt
  · exact (not_rounds_of_exponent_lt hn hn' hx hx' hlt).elim
  · rcases lt_trichotomy m m' with hlt | rfl | hgt
    · exact (not_rounds_of_lt hx hx' hlt).elim
    · exact ⟨rfl, rfl⟩
    · exact (not_rounds_of_lt hx' hx hgt).elim
  · exact (not_rounds_of_exponent_lt hn' hn hx' hx hgt).elim

end

end WideRow.Decimal
