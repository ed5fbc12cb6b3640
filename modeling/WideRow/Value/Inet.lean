/-!
# Internet addresses

Addresses of both families with their usual text. In the longer form the longest run of two
or more zero groups is left out, the first one where two are equally long, and an address that
embeds a short one ends in that one's text.
-/

namespace WideRow

/-- An address of four bytes or of eight 16-bit groups. -/
inductive Inet where
  | v4 (bytes : List UInt8)
  | v6 (groups : List UInt16)
  deriving DecidableEq

namespace Inet

/-- Four bytes, joined by dots. -/
def v4Text (bytes : List UInt8) : String :=
  String.intercalate "." (bytes.map fun b => toString b.toNat)

/-- A group without zeros in front. -/
def hexText (g : UInt16) : String := String.ofList (Nat.toDigits 16 g.toNat)

/-- Groups, joined by colons. -/
def groupsText (gs : List UInt16) : String := String.intercalate ":" (gs.map hexText)

/-- Number of zero groups in front. -/
def zeroRun (gs : List UInt16) : Nat := (gs.takeWhile (· == 0)).length

/-- Start and length of the first longest run of zero groups. -/
def longestZeroRun (gs : List UInt16) : Nat × Nat :=
  (List.range gs.length).foldl
    (fun best i => let n := zeroRun (gs.drop i); if best.2 < n then (i, n) else best) (0, 0)

/-- The text of an address. -/
def text : Inet → String
  | v4 bytes => v4Text bytes
  | v6 gs =>
    match gs with
    | [0, 0, 0, 0, 0, 0xffff, a, b] =>
      "::ffff:" ++ v4Text [(a / 256).toUInt8, a.toUInt8, (b / 256).toUInt8, b.toUInt8]
    | gs =>
      let (start, length) := longestZeroRun gs
      if length ≤ 1 then groupsText gs
      else groupsText (gs.take start) ++ "::" ++ groupsText (gs.drop (start + length))

private def digit? (base : Nat) (c : Char) : Option Nat :=
  let value :=
    if '0' ≤ c && c ≤ '9' then c.toNat - '0'.toNat
    else if 'a' ≤ c && c ≤ 'f' then c.toNat - 'a'.toNat + 10
    else if 'A' ≤ c && c ≤ 'F' then c.toNat - 'A'.toNat + 10
    else base
  if value < base then some value else none

private def number? (base maxDigits : Nat) (cs : List Char) : Option Nat :=
  if cs.isEmpty || maxDigits < cs.length then none
  else (cs.mapM (digit? base)).map (List.foldl (fun n d => base * n + d) 0)

private def byte? (cs : List Char) : Option UInt8 := do
  let n ← number? 10 3 cs
  if n < 256 && (cs.length == 1 || cs.head? != some '0') then some n.toUInt8 else none

private def bytes? (cs : List Char) : Option (List UInt8) :=
  let parts := cs.splitOn '.'
  if parts.length = 4 then parts.mapM byte? else none

private def group? (cs : List Char) : Option UInt16 := (number? 16 4 cs).map Nat.toUInt16

/-- Groups between colons; the last one may be an address of four bytes. -/
private def groups? (cs : List Char) : Option (List UInt16) :=
  if cs.isEmpty then some []
  else
    let parts := cs.splitOn ':'
    match parts.getLast?.bind bytes? with
    | some [a, b, c, d] => do
      let front ← (parts.dropLast).mapM group?
      return front ++ [a.toUInt16 * 256 + b.toUInt16, c.toUInt16 * 256 + d.toUInt16]
    | _ => parts.mapM group?

/-- The text before and after the first double colon. -/
private def cut? : List Char → Option (List Char × List Char)
  | ':' :: ':' :: rest => some ([], rest)
  | c :: rest => (cut? rest).map fun (l, r) => (c :: l, r)
  | [] => none

/-- Reads an address of either family. -/
def ofText? (s : String) : Option Inet :=
  let cs := s.toList
  match bytes? cs with
  | some bytes => some (v4 bytes)
  | none =>
    match cut? cs with
    | none => do
      let gs ← groups? cs
      if gs.length = 8 then some (v6 gs) else none
    | some (l, r) => do
      let front ← groups? l
      let back ← groups? r
      if front.length + back.length ≤ 7 && !l.contains '.' then
        some (v6 (front ++ List.replicate (8 - front.length - back.length) 0 ++ back))
      else none

end Inet

end WideRow
