import WideRow.Decimal.Shortest

/-!
# Laying out a number's digits

`write` turns the bit pattern of a number into text: it takes the shortest digits and places
the point, the zeros and the exponent as a `Layout` record says. Two records are in use.
`plain` never has an exponent. `exact` shows that the number is not an integer: it always has
a fraction or an exponent, and the exponent appears below `10^-4` and from `10^16` on.
-/

namespace WideRow.Decimal

/-- The choices that a text form of numbers makes. -/
structure Layout where
  /-- Whether a number with this decimal exponent of its leading digit is written without an
  exponent. -/
  positional : Int → Bool
  /-- Written after an integer. -/
  integerTail : String

/-- No exponent and no empty fraction: `1`, `0.00001`, `-0`. -/
def plain : Layout := ⟨fun _ => true, ""⟩

/-- Always a fraction or an exponent: `1.0`, `1e-5`, `1e16`. -/
def exact : Layout := ⟨fun e => -4 ≤ e && e < 16, ".0"⟩

/-- A number of zeros. -/
def zeros (n : Nat) : String := String.ofList (List.replicate n '0')

/-- Positional form of the digits `ds`, which stand before `10^exponent`. -/
def Layout.positionalText (l : Layout) (ds : List Char) (exponent : Int) : String :=
  if 0 ≤ exponent then
    String.ofList ds ++ zeros exponent.toNat ++ l.integerTail
  else
    let places := (-exponent).toNat
    if places < ds.length then
      String.ofList (ds.take (ds.length - places)) ++ "."
        ++ String.ofList (ds.drop (ds.length - places))
    else
      "0." ++ zeros (places - ds.length) ++ String.ofList ds

/-- One digit, the point and the others if there are any, and the exponent. -/
def exponentText (ds : List Char) (lead : Int) : String :=
  let mantissa := match ds with
    | [] => ""
    | [d] => String.singleton d
    | d :: rest => String.singleton d ++ "." ++ String.ofList rest
  mantissa ++ "e" ++ toString lead

/-- The text of the number above zero that the digits name. -/
def Layout.text (l : Layout) (d : Digits) : String :=
  let ds := Nat.toDigits 10 d.digits
  let lead : Int := d.exponent + ds.length - 1
  if l.positional lead then l.positionalText ds d.exponent else exponentText ds lead

/-- The text of a bit pattern. -/
def Layout.write (l : Layout) (f : BinaryFormat) (bits : Nat) : String :=
  let signed (negative : Bool) (text : String) := if negative then "-" ++ text else text
  match f.decode bits with
  | .nan => "NaN"
  | .infinite negative => signed negative "inf"
  | .finite negative 0 _ _ => signed negative ("0" ++ l.integerTail)
  | .finite negative m q narrow => signed negative (l.text (shortest f m q narrow))

end WideRow.Decimal
