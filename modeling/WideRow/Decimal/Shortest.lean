/-!
# The shortest decimal of a binary floating-point number

A binary number names every real that rounds to it. `shortest` picks, among the decimals in
that interval, one with the fewest digits, and of those the nearest to the number itself.

The bits are read into a mantissa and a power of two (`decode`), and everything after that is
exact arithmetic on natural numbers: on each decimal grid, coarsest first, only the two
neighbours of the number can lie in the interval, so only those are tried (`onGrid?`).
-/

namespace WideRow.Decimal

/-- The widths of a binary interchange format; one sign bit stands in front. -/
structure BinaryFormat where
  mantissaBits : Nat
  exponentBits : Nat

/-- 32-bit numbers. -/
def single : BinaryFormat := ⟨23, 8⟩

/-- 64-bit numbers. -/
def double : BinaryFormat := ⟨52, 11⟩

/-- What a bit pattern stands for. -/
inductive Binary where
  | nan
  | infinite (negative : Bool)
  /-- The value `m · 2^q`, with `narrowBelow` when the next smaller number is only half a
  step away, which happens where the exponent changes. -/
  | finite (negative : Bool) (m : Nat) (q : Int) (narrowBelow : Bool)
  deriving DecidableEq

namespace BinaryFormat

/-- The exponent of the smallest step, that of the subnormal numbers. -/
def minExponent (f : BinaryFormat) : Int :=
  2 - (Nat.pow 2 (f.exponentBits - 1) : Int) - f.mantissaBits

/-- Reads a bit pattern. -/
def decode (f : BinaryFormat) (bits : Nat) : Binary :=
  let fraction := bits % Nat.pow 2 f.mantissaBits
  let exponent := bits / Nat.pow 2 f.mantissaBits % Nat.pow 2 f.exponentBits
  let negative := bits / Nat.pow 2 (f.mantissaBits + f.exponentBits) % 2 == 1
  if exponent = Nat.pow 2 f.exponentBits - 1 then
    if fraction = 0 then .infinite negative else .nan
  else if exponent = 0 then
    .finite negative fraction f.minExponent false
  else
    .finite negative (Nat.pow 2 f.mantissaBits + fraction) (f.minExponent + exponent - 1)
      (fraction == 0 && exponent != 1)

/-- No number of the format needs more significant decimal digits than this to be told from
its neighbours. -/
def maxDigits (f : BinaryFormat) : Nat := (f.mantissaBits + 1) * 30103 / 100000 + 2

end BinaryFormat

/-- A positive decimal `digits · 10^exponent`. -/
structure Digits where
  digits : Nat
  exponent : Int
  deriving DecidableEq

/-- Number of decimal digits of `n`, one for zero. -/
def width (n : Nat) : Nat := (Nat.toDigits 10 n).length

/-- The ratio `num / den` of `m · base^e`. -/
def ratio (m base : Nat) (e : Int) : Nat × Nat :=
  (m * base.pow e.toNat, base.pow (-e).toNat)

/-- The interval of reals that round to `m · 2^q`, as numerators over the one denominator
`den`; the ends belong to it exactly when `m` is even. -/
structure Interval where
  low : Nat
  value : Nat
  high : Nat
  den : Nat
  closed : Bool

/-- The interval around `m · 2^q`: half a step up, and half a step, or a quarter of it, down. -/
def Interval.around (m : Nat) (q : Int) (narrowBelow : Bool) : Interval :=
  let (scale, den) := ratio 1 2 (q - 2)
  { low := (4 * m - if narrowBelow then 1 else 2) * scale
    value := 4 * m * scale
    high := (4 * m + 2) * scale
    den := den
    closed := m % 2 == 0 }

/-- Whether `k · num / den` lies in the interval. -/
def Interval.contains (i : Interval) (k num den : Nat) : Bool :=
  let x := k * num * i.den
  if i.closed then i.low * den ≤ x && x ≤ i.high * den
  else i.low * den < x && x < i.high * den

/-- The decimal exponent of the leading digit of `num / den`. -/
def leadingExponent (num den : Nat) : Int :=
  if den ≤ num then (width (num / den) : Int) - 1
  else -(width ((den + num - 1) / num - 1) : Int)

/-- The point of the grid of multiples of `10^e` in the interval that is nearest to the
number, a tie going up. -/
def Interval.onGrid? (i : Interval) (e : Int) : Option Digits :=
  let (num, den) := ratio 1 10 e
  let k := i.value * den / (i.den * num)
  let below := i.value * den - k * num * i.den
  let above := (k + 1) * num * i.den - i.value * den
  match i.contains k num den, i.contains (k + 1) num den with
  | true, true => some ⟨if below < above then k else k + 1, e⟩
  | true, false => some ⟨k, e⟩
  | false, true => some ⟨k + 1, e⟩
  | false, false => none

/-- Drops the trailing zeros, at most `n` of them. -/
def Digits.trim : Nat → Digits → Digits
  | 0, d => d
  | n + 1, d => if d.digits % 10 = 0 then trim n ⟨d.digits / 10, d.exponent + 1⟩ else d

/-- The shortest decimal that reads back as `m · 2^q`, for `m` above zero. -/
def shortest (f : BinaryFormat) (m : Nat) (q : Int) (narrowBelow : Bool) : Digits :=
  let i := Interval.around m q narrowBelow
  let lead := leadingExponent i.value i.den
  let hit := (List.range f.maxDigits).findSome? fun n : Nat => i.onGrid? (lead - n)
  (hit.getD ⟨m, q⟩).trim 20

end WideRow.Decimal
