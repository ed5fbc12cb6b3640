/-!
# Universally unique identifiers

128 bits, written as 32 lower-case hexadecimal digits in five groups. `Uuid.ofText?` reads
what `Uuid.text` writes.
-/

namespace WideRow

/-- A universally unique identifier. -/
structure Uuid where
  bits : BitVec 128
  deriving DecidableEq

namespace Uuid

/-- The last `k` hexadecimal digits of `n`, most significant first. -/
def hexDigits : Nat → Nat → List Char
  | 0, _ => []
  | k + 1, n => hexDigits k (n / 16) ++ [Nat.digitChar (n % 16)]

/-- The five groups, joined by hyphens. -/
def text (u : Uuid) : String :=
  let ds := hexDigits 32 u.bits.toNat
  let group (start length : Nat) := String.ofList ((ds.drop start).take length)
  String.intercalate "-" [group 0 8, group 8 4, group 12 4, group 16 4, group 20 12]

/-- The value of a hexadecimal digit in either case. -/
def hexValue? (c : Char) : Option Nat :=
  if '0' ≤ c && c ≤ '9' then some (c.toNat - '0'.toNat)
  else if 'a' ≤ c && c ≤ 'f' then some (c.toNat - 'a'.toNat + 10)
  else if 'A' ≤ c && c ≤ 'F' then some (c.toNat - 'A'.toNat + 10)
  else none

/-- Reads the hyphenated form; `none` for any other text. -/
def ofText? (s : String) : Option Uuid :=
  let groups := s.toList.splitOn '-'
  if groups.map List.length = [8, 4, 4, 4, 12] then do
    let ds ← groups.flatten.mapM hexValue?
    return ⟨BitVec.ofNat 128 (ds.foldl (fun n d => 16 * n + d) 0)⟩
  else
    none

/-- The identifier whose bytes, the first one first, are given. -/
def ofBytes (bytes : List UInt8) : Uuid :=
  ⟨BitVec.ofNat 128 (bytes.foldl (fun n b => 256 * n + b.toNat) 0)⟩

/-- What two time-based identifiers are compared by: all bits but the four that name the
version. -/
def withoutVersion (u : Uuid) : BitVec 128 :=
  u.bits &&& ~~~(BitVec.ofNat 128 0xf <<< 76)

end Uuid

end WideRow
