import WideRow.Proofs.AddressTexts
import WideRow.Proofs.NumberTexts

/-!
# What the full form of a value tells

`Value.debug` names the kind of a value and shows everything inside it. Every full form is
closed, and the name that it begins with is of one kind only, so the values inside can be told
one by one.

> `Value.debug_inj`: different values have different full forms.

This is about values that are themselves: all the bit patterns that are not numbers have the one
text `NaN`, and bytes that are no address may share the text of one. `Value.isProper` leaves
both out.
-/

namespace WideRow

open Text

namespace Value

open Shown

mutual

/-- No NaN, and every address has its four bytes or eight groups. -/
def isProper : Value → Bool
  | .float bits => Decimal.single.isNumber bits.toNat
  | .double bits => Decimal.double.isNumber bits.toNat
  | .inet a => a.isWhole
  | .list items | .set items | .vector items => areProper items
  | .map entries => areProperEntries entries
  | .tuple items => areProperCells items
  | .record _ _ fields => areProperFields fields
  | _ => true

/-- All of the items are proper. -/
def areProper : List Value → Bool
  | [] => true
  | v :: vs => v.isProper && areProper vs

/-- All keys and values are proper. -/
def areProperEntries : List (Value × Value) → Bool
  | [] => true
  | (k, v) :: es => k.isProper && v.isProper && areProperEntries es

/-- All values that are there are proper. -/
def areProperCells : List (Option Value) → Bool
  | [] => true
  | none :: cs => areProperCells cs
  | some v :: cs => v.isProper && areProperCells cs

/-- All values of fields that are there are proper. -/
def areProperFields : List (String × Option Value) → Bool
  | [] => true
  | (_, none) :: fs => areProperFields fs
  | (_, some v) :: fs => v.isProper && areProperFields fs

end

/-- The full form of an optional value. -/
def debugCell : Option Value → String
  | none => "None"
  | some v => applied "Some" [v.debug]

/-- Each cell of a tuple is shown by itself. -/
theorem debugCells_cons (c : Option Value) (cs : List (Option Value)) :
    debugCells (c :: cs) = debugCell c :: debugCells cs := by
  cases c <;> rfl

/-- Each field of a record is shown as a pair of its name and its cell. -/
theorem debugFields_cons (n : String) (c : Option Value) (fs : List (String × Option Value)) :
    debugFields ((n, c) :: fs) = applied "" [quoted n, debugCell c] :: debugFields fs := by
  cases c <;> rfl

/-- A cell that is not there is proper. -/
theorem areProperCells_cons (c : Option Value) (cs : List (Option Value)) :
    areProperCells (c :: cs) = (c.all isProper && areProperCells cs) := by
  cases c <;> rfl

theorem areProperFields_cons (n : String) (c : Option Value)
    (fs : List (String × Option Value)) :
    areProperFields ((n, c) :: fs) = (c.all isProper && areProperFields fs) := by
  cases c <;> rfl

/-! ## Full forms are closed -/

/-- The parts of a big decimal's full form. -/
theorem isPart_decimal (bs : List UInt8) (scale : Int32) :
    ∀ p ∈ [("int_val", applied "CqlVarint" [bytes bs]), ("scale", toString scale.toInt)],
      IsPart p := by
  intro p hp
  simp only [List.mem_cons, List.not_mem_nil, or_false] at hp
  rcases hp with rfl | rfl
  · exact .of_closed rfl (isItem_one rfl (isItem_bytes bs).closed).closed
  · exact .of_closed rfl (isItem_int _).closed

/-- The parts of a duration's full form. -/
theorem isPart_duration (months days : Int32) (nanoseconds : Int64) :
    ∀ p ∈ [("months", toString months.toInt), ("days", toString days.toInt),
      ("nanoseconds", toString nanoseconds.toInt)], IsPart p := by
  intro p hp
  simp only [List.mem_cons, List.not_mem_nil, or_false] at hp
  rcases hp with rfl | rfl | rfl <;> exact .of_closed rfl (isItem_int _).closed

/-- The parts of a record's full form. -/
theorem isPart_record (keyspace name : String) {fields : List String}
    (h : ∀ s ∈ fields, IsItem s) :
    ∀ p ∈ [("keyspace", Text.quoted keyspace), ("name", Text.quoted name),
      ("fields", bracketed fields)], IsPart p := by
  intro p hp
  simp only [List.mem_cons, List.not_mem_nil, or_false] at hp
  rcases hp with rfl | rfl | rfl
  · exact .of_closed rfl (isItem_quoted keyspace).closed
  · exact .of_closed rfl (isItem_quoted name).closed
  · exact .of_closed rfl (isItem_bracketed fun s hs => (h s hs).closed).closed

/-- A name with items in brackets. -/
theorem isItem_items {name : String} (hname : name.toList.all isOrdinary = true)
    {items : List String} (h : ∀ s ∈ items, IsItem s) : IsItem (applied name [bracketed items]) :=
  isItem_one hname (isItem_bracketed fun s hs => (h s hs).closed).closed

/-- A name before closed text in braces. -/
theorem isItem_titled {title s : String} (htitle : title.toList.all isOrdinary = true)
    (hne : title ≠ "") (hs : Closed s) : IsItem (title ++ s) where
  closed := (closedAt_of_ordinary htitle).append hs
  ne_empty := by simp [hne]

mutual

/-- The full form of a value is closed. -/
theorem isItem_debug : ∀ v : Value, IsItem v.debug
  | .ascii s => by rw [debug]; exact isItem_one rfl (isItem_quoted s).closed
  | .text s => by rw [debug]; exact isItem_one rfl (isItem_quoted s).closed
  | .boolean b => by rw [debug]; exact isItem_one rfl (isItem_bool b).closed
  | .tinyint n => by rw [debug]; exact isItem_one rfl (isItem_int _).closed
  | .smallint n => by rw [debug]; exact isItem_one rfl (isItem_int _).closed
  | .int n => by rw [debug]; exact isItem_one rfl (isItem_int _).closed
  | .bigint n => by rw [debug]; exact isItem_one rfl (isItem_int _).closed
  | .counter n => by rw [debug]; exact isItem_one rfl (isItem_one rfl (isItem_int _).closed).closed
  | .float x => by rw [debug]; exact isItem_one rfl (Decimal.isItem_write (.inr rfl) _ _).closed
  | .double x => by rw [debug]; exact isItem_one rfl (Decimal.isItem_write (.inr rfl) _ _).closed
  | .uuid u => by rw [debug]; exact isItem_one rfl (isItem_uuid u).closed
  | .timeuuid u => by
    rw [debug]
    exact isItem_one rfl (isItem_one rfl (isItem_uuid u).closed).closed
  | .blob bs => by rw [debug]; exact isItem_one rfl (isItem_bytes bs).closed
  | .varint bs => by
    rw [debug]
    exact isItem_one rfl (isItem_one rfl (isItem_bytes bs).closed).closed
  | .decimal bs scale => by
    rw [debug]
    exact isItem_one rfl
      (isItem_titled rfl (by decide) (closed_braced (isPart_decimal bs scale))).closed
  | .date n => by rw [debug]; exact isItem_one rfl (isItem_one rfl (isItem_nat _).closed).closed
  | .time n => by rw [debug]; exact isItem_one rfl (isItem_one rfl (isItem_int _).closed).closed
  | .timestamp n => by
    rw [debug]
    exact isItem_one rfl (isItem_one rfl (isItem_int _).closed).closed
  | .duration months days nanoseconds => by
    rw [debug]
    exact isItem_one rfl (isItem_titled rfl (by decide)
      (closed_braced (isPart_duration months days nanoseconds))).closed
  | .inet a => by rw [debug]; exact isItem_one rfl a.closed_text
  | .empty => ⟨closedAt_of_ordinary rfl, by decide⟩
  | .list items => by rw [debug]; exact isItem_items rfl (isItem_debugItems items)
  | .set items => by rw [debug]; exact isItem_items rfl (isItem_debugItems items)
  | .vector items => by rw [debug]; exact isItem_items rfl (isItem_debugItems items)
  | .map entries => by rw [debug]; exact isItem_items rfl (isItem_debugEntries entries)
  | .tuple items => by rw [debug]; exact isItem_items rfl (isItem_debugCells items)
  | .record keyspace name fields => by
    rw [debug]
    exact isItem_titled rfl (by decide)
      (closed_braced (isPart_record keyspace name (isItem_debugFields fields)))

theorem isItem_debugItems : ∀ (vs : List Value), ∀ s ∈ debugItems vs, IsItem s
  | [] => by simp [debugItems]
  | v :: vs => List.forall_mem_cons.2 ⟨isItem_debug v, isItem_debugItems vs⟩

/-- An entry of a map is a pair in parentheses. -/
theorem isItem_debugEntries : ∀ (es : List (Value × Value)), ∀ s ∈ debugEntries es, IsItem s
  | [] => by simp [debugEntries]
  | (k, v) :: es => List.forall_mem_cons.2
    ⟨isItem_two rfl (isItem_debug k).closed (isItem_debug v).closed, isItem_debugEntries es⟩

theorem isItem_debugCell : ∀ c : Option Value, IsItem (debugCell c)
  | none => ⟨closedAt_of_ordinary rfl, by decide⟩
  | some v => isItem_one rfl (isItem_debug v).closed

theorem isItem_debugCells : ∀ (cs : List (Option Value)), ∀ s ∈ debugCells cs, IsItem s
  | [] => by simp [debugCells]
  | c :: cs => by
    rw [debugCells_cons]
    exact List.forall_mem_cons.2 ⟨isItem_debugCell c, isItem_debugCells cs⟩

theorem isItem_debugFields :
    ∀ (fs : List (String × Option Value)), ∀ s ∈ debugFields fs, IsItem s
  | [] => by simp [debugFields]
  | (n, c) :: fs => by
    rw [debugFields_cons]
    exact List.forall_mem_cons.2 ⟨isItem_two rfl (isItem_quoted n).closed
      (isItem_debugCell c).closed, isItem_debugFields fs⟩

end

/-! ## Kinds -/

/-- What full forms begin with, in the order of the kinds. -/
def forms : List String :=
  ["Ascii", "Text", "Boolean", "TinyInt", "SmallInt", "Int", "BigInt", "Counter", "Float", "Double",
    "Uuid", "Timeuuid", "Blob", "Varint", "Decimal", "Date", "Time", "Timestamp", "Duration",
    "Inet", "Empty", "List", "Set", "Vector", "Map", "Tuple", "UserDefinedType"]

/-- The number of the kind that a full form names. -/
def formIndex (s : String) : Nat := forms.idxOf (String.ofList (s.toList.takeWhile Char.isAlpha))

/-- The name at the front of a text ends where something other than a letter follows. -/
theorem formIndex_eq {name s : String} (hname : name.toList.all Char.isAlpha = true) {c : Char}
    (hc : c.isAlpha = false) {cs : List Char} (hs : s.toList = name.toList ++ c :: cs) :
    formIndex s = forms.idxOf name := by
  rw [formIndex, hs, List.takeWhile_append_of_pos fun d hd => List.all_eq_true.1 hname d hd,
    List.takeWhile_cons, hc]
  simp

theorem formIndex_applied {name : String} (hname : name.toList.all Char.isAlpha = true)
    (arguments : List String) : formIndex (applied name arguments) = forms.idxOf name := by
  have hchars : (applied name arguments).toList = name.toList ++
      '(' :: ((String.intercalate ", " arguments).toList ++ [')']) := by
    simp [applied]
  exact formIndex_eq hname rfl hchars

/-- Different kinds have different names. -/
theorem nodup_forms : forms.Nodup := by decide +kernel

/-- No two kinds share a name, so that a name stands at one place. -/
theorem idxOf_forms {name : String} {i : Nat} (h : forms[i]? = some name) :
    forms.idxOf name = i := by
  obtain ⟨hi, rfl⟩ := List.getElem?_eq_some_iff.1 h
  exact nodup_forms.idxOf_getElem i hi

/-- A full form names its kind. -/
theorem formIndex_debug (v : Value) : formIndex v.debug = v.ctorIdx := by
  cases v
  case empty => rfl
  case record keyspace name fields =>
    have hname : "UserDefinedType".toList.all Char.isAlpha = true := rfl
    rw [debug, formIndex_eq hname (c := ' ') rfl (String.toList_append ..)]
    exact idxOf_forms rfl
  all_goals
    rw [debug]
    exact (formIndex_applied rfl _).trans (idxOf_forms rfl)

/-- Values with the same full form are of one kind. -/
theorem ctorIdx_eq {v w : Value} (h : v.debug = w.debug) : v.ctorIdx = w.ctorIdx := by
  rw [← formIndex_debug, h, formIndex_debug]

/-! ## Full forms tell values -/

theorem int_inj {n m : Int} (h : toString n = toString m) : n = m := by
  rw [Int.toString_eq_repr, Int.toString_eq_repr] at h
  exact Int.repr_injective h

/-- The full form of a list, a set or a vector tells the full forms of the items. -/
theorem items_inj {name : String} {xs ys : List String} (hx : ∀ x ∈ xs, IsItem x)
    (hy : ∀ y ∈ ys, IsItem y) (h : applied name [bracketed xs] = applied name [bracketed ys]) :
    xs = ys :=
  bracketed_inj hx hy (applied_one_inj.1 h)

/-- Both parts of a big decimal can be told. -/
theorem decimalParts_inj {bs cs : List UInt8} {scale scale' : Int32}
    (h : braced [("int_val", applied "CqlVarint" [bytes bs]), ("scale", toString scale.toInt)] =
      braced [("int_val", applied "CqlVarint" [bytes cs]), ("scale", toString scale'.toInt)]) :
    bs = cs ∧ scale = scale' := by
  have hparts := braced_inj (isPart_decimal bs scale) (isPart_decimal cs scale') h
  simp only [List.map_cons, List.map_nil, String.append_right_inj, List.cons.injEq,
    applied_one_inj, and_true] at hparts
  exact ⟨bytes_inj hparts.1, Int32.toInt_inj.1 (int_inj hparts.2)⟩

/-- All three parts of a duration can be told. -/
theorem durationParts_inj {months days months' days' : Int32} {nanoseconds nanoseconds' : Int64}
    (h : braced [("months", toString months.toInt), ("days", toString days.toInt),
        ("nanoseconds", toString nanoseconds.toInt)] =
      braced [("months", toString months'.toInt), ("days", toString days'.toInt),
        ("nanoseconds", toString nanoseconds'.toInt)]) :
    months = months' ∧ days = days' ∧ nanoseconds = nanoseconds' := by
  have hparts := braced_inj (isPart_duration months days nanoseconds)
    (isPart_duration months' days' nanoseconds') h
  simp only [List.map_cons, List.map_nil, String.append_right_inj, List.cons.injEq,
    and_true] at hparts
  exact ⟨Int32.toInt_inj.1 (int_inj hparts.1), Int32.toInt_inj.1 (int_inj hparts.2.1),
    Int64.toInt_inj.1 (int_inj hparts.2.2)⟩

/-- The names of a record and the full forms of its fields can be told. -/
theorem recordParts_inj {keyspace name keyspace' name' : String} {fields fields' : List String}
    (hf : ∀ s ∈ fields, IsItem s) (hf' : ∀ s ∈ fields', IsItem s)
    (h : braced [("keyspace", Text.quoted keyspace), ("name", Text.quoted name),
        ("fields", bracketed fields)] =
      braced [("keyspace", Text.quoted keyspace'), ("name", Text.quoted name'),
        ("fields", bracketed fields')]) :
    keyspace = keyspace' ∧ name = name' ∧ fields = fields' := by
  have hparts := braced_inj (isPart_record keyspace name hf) (isPart_record keyspace' name' hf') h
  simp only [List.map_cons, List.map_nil, String.append_right_inj, List.cons.injEq,
    and_true] at hparts
  exact ⟨quoted_inj hparts.1, quoted_inj hparts.2.1, bracketed_inj hf hf' hparts.2.2⟩

/-- Whole numbers, also those that stand for dates and times. -/
inductive IsNumber : Value → Prop
  | tinyint (n : Int8) : IsNumber (.tinyint n)
  | smallint (n : Int16) : IsNumber (.smallint n)
  | int (n : Int32) : IsNumber (.int n)
  | bigint (n : Int64) : IsNumber (.bigint n)
  | counter (n : Int64) : IsNumber (.counter n)
  | date (n : UInt32) : IsNumber (.date n)
  | time (n : Int64) : IsNumber (.time n)
  | timestamp (n : Int64) : IsNumber (.timestamp n)

/-- Texts, identifiers, bytes, and words of the language. -/
inductive IsWord : Value → Prop
  | ascii (s : String) : IsWord (.ascii s)
  | text (s : String) : IsWord (.text s)
  | boolean (b : Bool) : IsWord (.boolean b)
  | uuid (u : Uuid) : IsWord (.uuid u)
  | timeuuid (u : Uuid) : IsWord (.timeuuid u)
  | blob (bs : List UInt8) : IsWord (.blob bs)
  | varint (bs : List UInt8) : IsWord (.varint bs)
  | empty : IsWord .empty

/-- Floating-point numbers and addresses, whose texts tell the proper ones only. -/
inductive NeedsProper : Value → Prop
  | float (x : UInt32) : NeedsProper (.float x)
  | double (x : UInt64) : NeedsProper (.double x)
  | inet (a : Inet) : NeedsProper (.inet a)

/-- Numbers that are shown as named parts. -/
inductive HasParts : Value → Prop
  | decimal (bs : List UInt8) (scale : Int32) : HasParts (.decimal bs scale)
  | duration (months days : Int32) (nanoseconds : Int64) :
    HasParts (.duration months days nanoseconds)

section

variable {v w : Value}

/-- Different numbers of a kind have different full forms. -/
theorem IsNumber.debug_inj (hv : v.IsNumber) (h : v.debug = w.debug) : v = w := by
  -- here and below, the name that both forms begin with leaves one constructor for `w`
  have hkind := ctorIdx_eq h
  cases hv with
  | tinyint n =>
    match w, hkind with
    | .tinyint m, _ =>
      rw [debug, debug, applied_one_inj] at h
      rw [Int8.toInt_inj.1 (int_inj h)]
  | smallint n =>
    match w, hkind with
    | .smallint m, _ =>
      rw [debug, debug, applied_one_inj] at h
      rw [Int16.toInt_inj.1 (int_inj h)]
  | int n =>
    match w, hkind with
    | .int m, _ =>
      rw [debug, debug, applied_one_inj] at h
      rw [Int32.toInt_inj.1 (int_inj h)]
  | bigint n =>
    match w, hkind with
    | .bigint m, _ =>
      rw [debug, debug, applied_one_inj] at h
      rw [Int64.toInt_inj.1 (int_inj h)]
  | counter n =>
    match w, hkind with
    | .counter m, _ =>
      rw [debug, debug, applied_one_inj, applied_one_inj] at h
      rw [Int64.toInt_inj.1 (int_inj h)]
  | date n =>
    match w, hkind with
    | .date m, _ =>
      rw [debug, debug, applied_one_inj, applied_one_inj] at h
      rw [UInt32.toNat_inj.1 (Nat.repr_injective h)]
  | time n =>
    match w, hkind with
    | .time m, _ =>
      rw [debug, debug, applied_one_inj, applied_one_inj] at h
      rw [Int64.toInt_inj.1 (int_inj h)]
  | timestamp n =>
    match w, hkind with
    | .timestamp m, _ =>
      rw [debug, debug, applied_one_inj, applied_one_inj] at h
      rw [Int64.toInt_inj.1 (int_inj h)]

/-- Different texts of a kind have different full forms, and so have identifiers and bytes. -/
theorem IsWord.debug_inj (hv : v.IsWord) (h : v.debug = w.debug) : v = w := by
  have hkind := ctorIdx_eq h
  cases hv with
  | ascii s =>
    match w, hkind with
    | .ascii t, _ =>
      rw [debug, debug, applied_one_inj] at h
      rw [quoted_inj h]
  | text s =>
    match w, hkind with
    | .text t, _ =>
      rw [debug, debug, applied_one_inj] at h
      rw [quoted_inj h]
  | boolean b =>
    match w, hkind with
    | .boolean c, _ =>
      rw [debug, debug, applied_one_inj] at h
      cases b <;> cases c <;> first | rfl | exact absurd h (by decide)
  | uuid u =>
    match w, hkind with
    | .uuid u', _ =>
      rw [debug, debug, applied_one_inj] at h
      rw [Uuid.text_injective h]
  | timeuuid u =>
    match w, hkind with
    | .timeuuid u', _ =>
      rw [debug, debug, applied_one_inj, applied_one_inj] at h
      rw [Uuid.text_injective h]
  | blob bs =>
    match w, hkind with
    | .blob cs, _ =>
      rw [debug, debug, applied_one_inj] at h
      rw [bytes_inj h]
  | varint bs =>
    match w, hkind with
    | .varint cs, _ =>
      rw [debug, debug, applied_one_inj, applied_one_inj] at h
      rw [bytes_inj h]
  | empty =>
    match w, hkind with
    | .empty, _ => rfl

/-- Different floating-point numbers have different full forms, and so have different addresses. -/
theorem NeedsProper.debug_inj (hv : v.NeedsProper) (hproper : v.isProper = true)
    (hproper' : w.isProper = true) (h : v.debug = w.debug) : v = w := by
  have hkind := ctorIdx_eq h
  cases hv with
  | float x =>
    match w, hkind with
    | .float y, _ =>
      rw [debug, debug, applied_one_inj] at h
      rw [isProper] at hproper hproper'
      rw [Decimal.write_single_inj (.inr rfl) hproper hproper' h]
  | double x =>
    match w, hkind with
    | .double y, _ =>
      rw [debug, debug, applied_one_inj] at h
      rw [isProper] at hproper hproper'
      rw [Decimal.write_double_inj (.inr rfl) hproper hproper' h]
  | inet a =>
    match w, hkind with
    | .inet b, _ =>
      rw [debug, debug, applied_one_inj] at h
      rw [isProper] at hproper hproper'
      rw [Inet.text_inj hproper hproper' h]

/-- Full forms with named parts tell each part. -/
theorem HasParts.debug_inj (hv : v.HasParts) (h : v.debug = w.debug) : v = w := by
  have hkind := ctorIdx_eq h
  cases hv with
  | decimal bs scale =>
    match w, hkind with
    | .decimal cs scale', _ =>
      rw [debug, debug, applied_one_inj, String.append_right_inj] at h
      obtain ⟨rfl, rfl⟩ := decimalParts_inj h
      rfl
  | duration months days nanoseconds =>
    match w, hkind with
    | .duration months' days' nanoseconds', _ =>
      rw [debug, debug, applied_one_inj, String.append_right_inj] at h
      obtain ⟨rfl, rfl, rfl⟩ := durationParts_inj h
      rfl

end

mutual

/-- Different values have different full forms. Those that hold other values are told by the full
forms of these. -/
theorem debug_inj : ∀ {v w : Value}, v.isProper = true → w.isProper = true →
    v.debug = w.debug → v = w
  | .ascii s, _, _, _, h => (IsWord.ascii s).debug_inj h
  | .text s, _, _, _, h => (IsWord.text s).debug_inj h
  | .boolean b, _, _, _, h => (IsWord.boolean b).debug_inj h
  | .tinyint n, _, _, _, h => (IsNumber.tinyint n).debug_inj h
  | .smallint n, _, _, _, h => (IsNumber.smallint n).debug_inj h
  | .int n, _, _, _, h => (IsNumber.int n).debug_inj h
  | .bigint n, _, _, _, h => (IsNumber.bigint n).debug_inj h
  | .counter n, _, _, _, h => (IsNumber.counter n).debug_inj h
  | .float x, _, hv, hw, h => (NeedsProper.float x).debug_inj hv hw h
  | .double x, _, hv, hw, h => (NeedsProper.double x).debug_inj hv hw h
  | .uuid u, _, _, _, h => (IsWord.uuid u).debug_inj h
  | .timeuuid u, _, _, _, h => (IsWord.timeuuid u).debug_inj h
  | .blob bs, _, _, _, h => (IsWord.blob bs).debug_inj h
  | .varint bs, _, _, _, h => (IsWord.varint bs).debug_inj h
  | .decimal bs scale, _, _, _, h => (HasParts.decimal bs scale).debug_inj h
  | .date n, _, _, _, h => (IsNumber.date n).debug_inj h
  | .time n, _, _, _, h => (IsNumber.time n).debug_inj h
  | .timestamp n, _, _, _, h => (IsNumber.timestamp n).debug_inj h
  | .duration months days nanoseconds, _, _, _, h =>
    (HasParts.duration months days nanoseconds).debug_inj h
  | .inet a, _, hv, hw, h => (NeedsProper.inet a).debug_inj hv hw h
  | .empty, _, _, _, h => IsWord.empty.debug_inj h
  | .list vs, w, hv, hw, h => by
    match w, ctorIdx_eq h with
    | .list ws, _ =>
      rw [debug, debug] at h
      rw [isProper] at hv hw
      rw [debugItems_inj hv hw (items_inj (isItem_debugItems vs) (isItem_debugItems ws) h)]
  | .set vs, w, hv, hw, h => by
    match w, ctorIdx_eq h with
    | .set ws, _ =>
      rw [debug, debug] at h
      rw [isProper] at hv hw
      rw [debugItems_inj hv hw (items_inj (isItem_debugItems vs) (isItem_debugItems ws) h)]
  | .vector vs, w, hv, hw, h => by
    match w, ctorIdx_eq h with
    | .vector ws, _ =>
      rw [debug, debug] at h
      rw [isProper] at hv hw
      rw [debugItems_inj hv hw (items_inj (isItem_debugItems vs) (isItem_debugItems ws) h)]
  | .map es, w, hv, hw, h => by
    match w, ctorIdx_eq h with
    | .map fs, _ =>
      rw [debug, debug] at h
      rw [isProper] at hv hw
      rw [debugEntries_inj hv hw (items_inj (isItem_debugEntries es) (isItem_debugEntries fs) h)]
  | .tuple cs, w, hv, hw, h => by
    match w, ctorIdx_eq h with
    | .tuple ds, _ =>
      rw [debug, debug] at h
      rw [isProper] at hv hw
      rw [debugCells_inj hv hw (items_inj (isItem_debugCells cs) (isItem_debugCells ds) h)]
  | .record keyspace name fs, w, hv, hw, h => by
    match w, ctorIdx_eq h with
    | .record keyspace' name' gs, _ =>
      rw [debug, debug, String.append_right_inj] at h
      rw [isProper] at hv hw
      obtain ⟨rfl, rfl, hfields⟩ :=
        recordParts_inj (isItem_debugFields fs) (isItem_debugFields gs) h
      rw [debugFields_inj hv hw hfields]

/-- Items are told one by one. -/
theorem debugItems_inj : ∀ {vs ws : List Value}, areProper vs = true → areProper ws = true →
    debugItems vs = debugItems ws → vs = ws
  | [], [], _, _, _ => rfl
  | [], _ :: _, _, _, h => by simp [debugItems] at h
  | _ :: _, [], _, _, h => by simp [debugItems] at h
  | v :: vs, w :: ws, hv, hw, h => by
    rw [areProper, Bool.and_eq_true] at hv hw
    rw [debugItems, debugItems, List.cons.injEq] at h
    rw [debug_inj hv.1 hw.1 h.1, debugItems_inj hv.2 hw.2 h.2]

/-- Entries are told one by one, and in each the key ends before the value begins. -/
theorem debugEntries_inj : ∀ {es fs : List (Value × Value)}, areProperEntries es = true →
    areProperEntries fs = true → debugEntries es = debugEntries fs → es = fs
  | [], [], _, _, _ => rfl
  | [], (_, _) :: _, _, _, h => by simp [debugEntries] at h
  | (_, _) :: _, [], _, _, h => by simp [debugEntries] at h
  | (k, v) :: es, (l, w) :: fs, he, hf, h => by
    rw [areProperEntries, Bool.and_eq_true, Bool.and_eq_true] at he hf
    rw [debugEntries, debugEntries, List.cons.injEq] at h
    obtain ⟨hk, hv⟩ := applied_two_inj (isItem_debug k) (isItem_debug v) (isItem_debug l)
      (isItem_debug w) h.1
    rw [debug_inj he.1.1 hf.1.1 hk, debug_inj he.1.2 hf.1.2 hv, debugEntries_inj he.2 hf.2 h.2]

/-- A cell that is not there differs from every one that is. -/
theorem debugCell_inj : ∀ {c d : Option Value}, c.all isProper = true → d.all isProper = true →
    debugCell c = debugCell d → c = d
  | none, none, _, _, _ => rfl
  | none, some w, _, _, h => by
    have hchars := congrArg String.toList h
    simp [debugCell, applied] at hchars
  | some v, none, _, _, h => by
    have hchars := congrArg String.toList h
    simp [debugCell, applied] at hchars
  | some v, some w, hv, hw, h => by
    rw [debug_inj hv hw (applied_one_inj.1 h)]

theorem debugCells_inj : ∀ {cs ds : List (Option Value)}, areProperCells cs = true →
    areProperCells ds = true → debugCells cs = debugCells ds → cs = ds
  | [], [], _, _, _ => rfl
  | [], d :: ds, _, _, h => by simp [debugCells_cons, debugCells] at h
  | c :: cs, [], _, _, h => by simp [debugCells_cons, debugCells] at h
  | c :: cs, d :: ds, hc, hd, h => by
    rw [areProperCells_cons, Bool.and_eq_true] at hc hd
    rw [debugCells_cons, debugCells_cons, List.cons.injEq] at h
    rw [debugCell_inj hc.1 hd.1 h.1, debugCells_inj hc.2 hd.2 h.2]

theorem debugFields_inj : ∀ {fs gs : List (String × Option Value)}, areProperFields fs = true →
    areProperFields gs = true → debugFields fs = debugFields gs → fs = gs
  | [], [], _, _, _ => rfl
  | [], (n, d) :: gs, _, _, h => by simp [debugFields_cons, debugFields] at h
  | (m, c) :: fs, [], _, _, h => by simp [debugFields_cons, debugFields] at h
  | (m, c) :: fs, (n, d) :: gs, hc, hd, h => by
    rw [areProperFields_cons, Bool.and_eq_true] at hc hd
    rw [debugFields_cons, debugFields_cons, List.cons.injEq] at h
    obtain ⟨hname, hcell⟩ := applied_two_inj (isItem_quoted m) (isItem_debugCell c)
      (isItem_quoted n) (isItem_debugCell d) h.1
    rw [quoted_inj hname, debugCell_inj hc.1 hd.1 hcell, debugFields_inj hc.2 hd.2 h.2]

end

end Value

end WideRow
