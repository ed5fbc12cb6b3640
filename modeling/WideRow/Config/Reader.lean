import WideRow.Error

/-!
# Reading settings

A program is configured by named texts (`Variables`). A `Reader` turns such a text into a
value, or says in words what is wrong with it; the white space at both ends of the text is
trimmed first.
-/

namespace WideRow

/-! ## Blank characters -/

namespace Text

/-- The code points with the property `White_Space`. -/
def blankRanges : List (Nat × Nat) :=
  [(0x09, 0x0d), (0x20, 0x20), (0x85, 0x85), (0xa0, 0xa0), (0x1680, 0x1680), (0x2000, 0x200a),
   (0x2028, 0x2029), (0x202f, 0x202f), (0x205f, 0x205f), (0x3000, 0x3000)]

/-- Whether a character is white space. -/
def isBlank (c : Char) : Bool :=
  blankRanges.any fun r => r.1 ≤ c.toNat && c.toNat ≤ r.2

/-- Drops the white space at both ends. -/
def trim (s : String) : String :=
  String.ofList (((s.toList.dropWhile isBlank).reverse.dropWhile isBlank).reverse)

/-- The pieces of a text between the separators, at least one. -/
def pieces (separator : Char) (s : String) : List String :=
  (s.toList.splitOn separator).map String.ofList

end Text

/-! ## Readers -/

/-- The texts a program is configured by. -/
abbrev Variables := String → Option String

/-- Reads a value from a text, or says what is wrong. -/
structure Reader (α : Type) where
  read : String → Except String α

namespace Reader

/-- Truth values. -/
def bool : Reader Bool where
  read
    | "true" => .ok true
    | "false" => .ok false
    | _ => .error "provided string was not `true` or `false`"

/-- A single character. -/
def char : Reader Char where
  read s :=
    match s.toList with
    | [] => .error "cannot parse char from empty string"
    | [c] => .ok c
    | _ => .error "too many characters in string"

/-- Any text. -/
def text : Reader String where
  read s := .ok s

/-- Appends decimal digits to a number as long as its size stays in bounds. The first character
that is no digit, or the first digit that is too much, is the error. -/
def digits (limit : Nat) (excess : String) : Nat → List Char → Except String Nat
  | n, [] => .ok n
  | n, c :: cs =>
    if !c.isDigit then .error "invalid digit found in string"
    else
      let next := 10 * n + (c.toNat - '0'.toNat)
      if limit < next then .error excess else digits limit excess next cs

/-- Whole numbers from `-below` to `above`; a minus sign is only read where there are negative
numbers. -/
def integer (below above : Nat) : Reader Int where
  read s :=
    let large := "number too large to fit in target type"
    let small := "number too small to fit in target type"
    match s.toList with
    | [] => .error "cannot parse integer from empty string"
    | ['+'] => .error "invalid digit found in string"
    | ['-'] => .error "invalid digit found in string"
    | '+' :: cs => (digits above large 0 cs).map Int.ofNat
    | '-' :: cs =>
      if below = 0 then .error "invalid digit found in string"
      else (digits below small 0 cs).map fun n => -(n : Int)
    | cs => (digits above large 0 cs).map Int.ofNat

/-- Numbers of this many bits without a sign. -/
def unsigned (bits : Nat) : Reader Nat where
  read s := ((integer 0 (Nat.pow 2 bits - 1)).read s).map Int.toNat

/-- Numbers of this many bits with a sign. -/
def signed (bits : Nat) : Reader Int := integer (Nat.pow 2 (bits - 1)) (Nat.pow 2 (bits - 1) - 1)

end Reader

namespace Variables

variable {α : Type}

/-- The text of a variable that must be set. -/
def required (env : Variables) (key : String) : Except ConfigError String :=
  match env key with
  | some s => .ok s
  | none => .error (.missing key)

/-- The value of a variable, if it is set. -/
def read? (env : Variables) (r : Reader α) (key : String) : Except ConfigError (Option α) :=
  match env key with
  | none => .ok none
  | some s =>
    match r.read (Text.trim s) with
    | .ok v => .ok (some v)
    | .error details => .error (.unreadable key details)

/-- The value of a variable, or a default where it is not set. -/
def read (env : Variables) (r : Reader α) (key : String) (default : α) : Except ConfigError α :=
  (env.read? r key).map (·.getD default)

/-- The text of a variable, or a default where it is not set. -/
def textOr (env : Variables) (key default : String) : String := (env key).getD default

end Variables

end WideRow
