/-!
# SipHash

The keyed hash SipHash with one round for every eight bytes and three at the end, under the key
zero. `ofText` hashes a text: its UTF-8 bytes and a closing byte `0xff`.
-/

namespace WideRow.SipHash

/-- The four words that are mixed. -/
structure Mix where
  v0 : UInt64
  v1 : UInt64
  v2 : UInt64
  v3 : UInt64

/-- The words under the key zero. -/
def start : Mix :=
  ⟨0x736f6d6570736575, 0x646f72616e646f6d, 0x6c7967656e657261, 0x7465646279746573⟩

/-- Turns the bits of a word to the left. -/
def rotate (x : UInt64) (n : UInt64) : UInt64 := (x <<< n) ||| (x >>> (64 - n))

/-- One round. -/
def round (m : Mix) : Mix :=
  let v0 := m.v0 + m.v1
  let v1 := rotate m.v1 13 ^^^ v0
  let v0 := rotate v0 32
  let v2 := m.v2 + m.v3
  let v3 := rotate m.v3 16 ^^^ v2
  let v0 := v0 + v3
  let v3 := rotate v3 21 ^^^ v0
  let v2 := v2 + v1
  let v1 := rotate v1 17 ^^^ v2
  let v2 := rotate v2 32
  ⟨v0, v1, v2, v3⟩

/-- Mixes in a word of the message. -/
def absorb (m : Mix) (word : UInt64) : Mix :=
  let m := round { m with v3 := m.v3 ^^^ word }
  { m with v0 := m.v0 ^^^ word }

/-- The word of up to eight bytes, the first one lowest. -/
def word (bytes : List UInt8) : UInt64 := bytes.foldr (fun b w => (w <<< 8) ||| b.toUInt64) 0

/-- Mixes in a message, eight bytes at a time; the last word ends in the message's length. -/
def absorbAll (length : Nat) (m : Mix) (bytes : List UInt8) : Mix :=
  if 8 ≤ bytes.length then absorbAll length (absorb m (word (bytes.take 8))) (bytes.drop 8)
  else absorb m (word bytes ||| (UInt64.ofNat length <<< 56))
termination_by bytes.length
decreasing_by simp only [List.length_drop]; omega

/-- The hash of a message. -/
def hash (bytes : List UInt8) : UInt64 :=
  let m := absorbAll bytes.length start bytes
  let m := round (round (round { m with v2 := m.v2 ^^^ 0xff }))
  m.v0 ^^^ m.v1 ^^^ m.v2 ^^^ m.v3

/-- The hash of a text. -/
def ofText (s : String) : UInt64 := hash (s.toUTF8.toList ++ [0xff])

end WideRow.SipHash
