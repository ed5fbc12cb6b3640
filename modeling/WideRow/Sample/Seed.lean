import WideRow.Sample.Entities
import WideRow.Sample.SipHash

/-!
# Sample data

Items that are the same on every run: everything is derived from a seed, which may in turn be
derived from a name. Sums are not cut to the width of their kind of number: where a sum does not
fit, there is no item, and making it breaks off (`Error.brokenOff`).
-/

namespace WideRow

/-- What sample data are derived from. -/
structure Seed where
  value : UInt64

namespace Seed

/-- The seed of a name. -/
def ofName (s : String) : Seed := ⟨SipHash.ofText s⟩

/-- The bytes of a word, the lowest first. -/
def bytes (n : UInt64) : List UInt8 :=
  (List.range 8).map fun i => (n.toNat / Nat.pow 256 i).toUInt8

/-- An identifier for every number. -/
def uuid (s : Seed) (n : UInt64) : Uuid := .ofBytes (bytes s.value ++ bytes n)

/-- A name that tells its seed. -/
def name (s : Seed) (first last : String) : String :=
  "test-" ++ first ++ "-" ++ toString s.value.toNat ++ "-" ++ last

/-- A whole number as one of 32 bits with a sign, if it fits. -/
def integer (i : Int) : Except Error Int32 :=
  if Int32.minValue.toInt ≤ i ∧ i ≤ Int32.maxValue.toInt then .ok (Int32.ofInt i)
  else .error .brokenOff

/-- The sum of the seed and a number, if it fits 64 bits. -/
def shifted (s : Seed) (n : UInt32) : Except Error Nat :=
  let sum := s.value.toNat + n.toNat
  if sum < UInt64.size then .ok sum else .error .brokenOff

/-- A user for every number, of an age from 18 to 77. The last six digits of the seed stand
before the last two of the identifier; the number is added to it, read with a sign. -/
def user (s : Seed) (n : UInt32) : Except Error User := do
  let id ← integer (s.value.toNat % 1000000 * 100 + n.toInt32.toInt)
  let years := (← s.shifted n) % 60
  return {
    id
    name := s.name "user" (toString n.toNat)
    age := Int32.ofNat (18 + years) }

/-- An account for every number. The last three digits of the seed are the balance, to which the
number is added, read with a sign. -/
def account (s : Seed) (n : UInt32) : Except Error Account := do
  let balance ← integer (s.value.toNat % 1000 + n.toInt32.toInt)
  return {
    id := s.uuid n.toUInt64
    email := s.name "account" (toString n.toNat) ++ "@example.com"
    balance
    tags := ["tier-" ++ toString (n.toNat % 3)] }

end Seed

end WideRow
