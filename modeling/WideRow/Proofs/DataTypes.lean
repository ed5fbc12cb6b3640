import WideRow.Proofs.FullForms

/-!
# Types of columns

A column of a table has one type, and all its values are of it. A list or a set names the type of
its items; of every other type the kind of the values is enough, since their full forms name all
kinds inside them.

`Value.display` shows texts bare and the items of collections one after the other, so that what
is told of a value depends on its type.

> `DataType.textTells_iff`: the texts of a type's values tell them apart, unless the type is of a
> collection that holds texts, at any depth.

The list without items and the list of the empty text are both `[]`.
-/

namespace WideRow

open Text Shown

/-- The kinds of values besides lists and sets. -/
inductive PlainKind where
  | ascii
  | text
  | boolean
  | tinyint
  | smallint
  | int
  | bigint
  | counter
  | float
  | double
  | uuid
  | timeuuid
  | blob
  | varint
  | decimal
  | date
  | time
  | timestamp
  | duration
  | inet
  | empty
  | vector
  | map
  | tuple
  | record
  deriving DecidableEq

/-- A value of the kind. -/
def PlainKind.sample : PlainKind → Value
  | ascii => .ascii ""
  | text => .text ""
  | boolean => .boolean false
  | tinyint => .tinyint 0
  | smallint => .smallint 0
  | int => .int 0
  | bigint => .bigint 0
  | counter => .counter 0
  | float => .float 0
  | double => .double 0
  | uuid => .uuid ⟨0⟩
  | timeuuid => .timeuuid ⟨0⟩
  | blob => .blob []
  | varint => .varint []
  | decimal => .decimal [] 0
  | date => .date 0
  | time => .time 0
  | timestamp => .timestamp 0
  | duration => .duration 0 0 0
  | inet => .inet (.v4 [0, 0, 0, 0])
  | empty => .empty
  | vector => .vector []
  | map => .map []
  | tuple => .tuple []
  | record => .record "" "" []

/-- The type of a column. -/
inductive DataType where
  | plain (k : PlainKind)
  | list (item : DataType)
  | set (item : DataType)
  deriving DecidableEq

namespace DataType

/-- Whether a value is of the type. -/
def holds : DataType → Value → Bool
  | plain k, v => v.kind == k.sample.kind && v.isProper
  | list t, .list vs => vs.all t.holds
  | set t, .set vs => vs.all t.holds
  | _, _ => false

/-- The values of a type. -/
abbrev Holds (t : DataType) (v : Value) : Prop := t.holds v = true

/-- A plain type has the proper values of its kind. -/
theorem holds_plain {k : PlainKind} {v : Value} :
    (plain k).Holds v ↔ v.kind = k.sample.kind ∧ v.isProper = true := by
  simp [Holds, holds]

/-- A list has items of the type of its elements. -/
theorem holds_list {t : DataType} {v : Value} :
    (list t).Holds v ↔ ∃ vs, v = .list vs ∧ ∀ x ∈ vs, t.Holds x := by
  cases v <;> simp [Holds, holds]

theorem holds_set {t : DataType} {v : Value} :
    (set t).Holds v ↔ ∃ vs, v = .set vs ∧ ∀ x ∈ vs, t.Holds x := by
  cases v <;> simp [Holds, holds]

/-- Whether the values are shown as they are, whatever characters they have. -/
def isRaw : DataType → Bool
  | plain k => k == .ascii || k == .text
  | list _ | set _ => false

/-- Whether the texts of the values are closed. -/
def isFramed : DataType → Bool
  | plain k => !(plain k).isRaw
  | list t | set t => t.isFramed

/-- Whether the texts of the values tell them apart. -/
def isTold (t : DataType) : Bool := t.isRaw || t.isFramed

/-- A value of the type. -/
def sample : DataType → Value
  | plain k => k.sample
  | list _ => .list []
  | set _ => .set []

/-- Every type has a sample. -/
theorem holds_sample (t : DataType) : t.Holds t.sample := by
  cases t with
  | plain k => exact holds_plain.2 ⟨rfl, by cases k <;> rfl⟩
  | list t => rfl
  | set t => rfl

/-- The value of a type of texts that has this text. -/
def ofText : DataType → String → Value
  | plain .ascii, s => .ascii s
  | _, s => .text s

/-- A type whose texts are shown as they are has every text. -/
theorem holds_ofText {t : DataType} (ht : t.isRaw = true) (s : String) :
    t.Holds (t.ofText s) := by
  match t, ht with
  | plain .ascii, _ => rfl
  | plain .text, _ => rfl

theorem display_ofText (t : DataType) (s : String) : (t.ofText s).display = s := by
  unfold ofText
  split <;> rw [Value.display]

end DataType

/-! ## Plain kinds -/

namespace Value

/-- The names of the kinds, in their order. -/
def kinds : List String :=
  ["ascii", "text", "boolean", "tinyint", "smallint", "int", "bigint", "counter", "float", "double",
    "uuid", "timeuuid", "blob", "varint", "decimal", "date", "time", "timestamp", "duration",
    "inet", "empty", "list", "set", "vector", "map", "tuple", "udt"]

/-- No two kinds share a name. -/
theorem idxOf_kind (v : Value) : kinds.idxOf v.kind = v.ctorIdx := by
  cases v <;> rfl

theorem ctorIdx_eq_of_kind {v w : Value} (h : v.kind = w.kind) : v.ctorIdx = w.ctorIdx := by
  rw [← idxOf_kind, h, idxOf_kind]

/-- The kinds whose short form is a text or made of short forms. -/
def isMade (v : Value) : Bool := ["ascii", "text", "list", "set"].contains v.kind

/-- The kinds with a short form of their own. -/
def isShort (v : Value) : Bool :=
  ["boolean", "tinyint", "smallint", "int", "bigint", "counter", "float", "double", "uuid"].contains
    v.kind

/-- Most values are shown in full form. -/
theorem display_eq_debug {v : Value} (hm : v.isMade = false) (hs : v.isShort = false) :
    v.display = v.debug := by
  cases v
  case ascii => cases hm
  case text => cases hm
  case list => cases hm
  case set => cases hm
  all_goals first | cases hs; done | simp only [display]

/-- A value that is shown in full form is closed. -/
theorem isItem_display {v : Value} (hm : v.isMade = false) : IsItem v.display := by
  by_cases hs : v.isShort = true
  · cases v
    case boolean b => rw [display]; exact isItem_bool b
    case tinyint n => rw [display]; exact isItem_int _
    case smallint n => rw [display]; exact isItem_int _
    case int n => rw [display]; exact isItem_int _
    case bigint n => rw [display]; exact isItem_int _
    case counter n => rw [display]; exact isItem_int _
    case float x => rw [display]; exact Decimal.isItem_write (.inl rfl) _ _
    case double x => rw [display]; exact Decimal.isItem_write (.inl rfl) _ _
    case uuid u => rw [display]; exact isItem_uuid u
    all_goals cases hs
  · rw [display_eq_debug hm (by simpa using hs)]
    exact isItem_debug v

theorem exists_ascii {s : String} {w : Value} (hi : (Value.ascii s).ctorIdx = w.ctorIdx) :
    ∃ s', w = .ascii s' := by
  match w, hi with
  | .ascii s', _ => exact ⟨s', rfl⟩

theorem exists_text {s : String} {w : Value} (hi : (Value.text s).ctorIdx = w.ctorIdx) :
    ∃ s', w = .text s' := by
  match w, hi with
  | .text s', _ => exact ⟨s', rfl⟩

/-- Values with a short form of their own can be told from it, among those of one kind. -/
theorem display_inj_of_isShort {v w : Value} (hi : v.ctorIdx = w.ctorIdx) (hs : v.isShort = true)
    (hv : v.isProper = true) (hw : w.isProper = true) (h : v.display = w.display) : v = w := by
  -- `hi` leaves the constructor of `v` for `w`
  cases v
  case boolean b =>
    cases w
    case boolean c =>
      rw [display, display] at h
      cases b <;> cases c <;> first | rfl | exact absurd h (by decide)
    all_goals cases hi
  case tinyint n =>
    cases w
    case tinyint m =>
      rw [display, display] at h
      rw [Int8.toInt_inj.1 (int_inj h)]
    all_goals cases hi
  case smallint n =>
    cases w
    case smallint m =>
      rw [display, display] at h
      rw [Int16.toInt_inj.1 (int_inj h)]
    all_goals cases hi
  case int n =>
    cases w
    case int m =>
      rw [display, display] at h
      rw [Int32.toInt_inj.1 (int_inj h)]
    all_goals cases hi
  case bigint n =>
    cases w
    case bigint m =>
      rw [display, display] at h
      rw [Int64.toInt_inj.1 (int_inj h)]
    all_goals cases hi
  case counter n =>
    cases w
    case counter m =>
      rw [display, display] at h
      rw [Int64.toInt_inj.1 (int_inj h)]
    all_goals cases hi
  case float x =>
    cases w
    case float y =>
      rw [display, display] at h
      rw [isProper] at hv hw
      rw [Decimal.write_single_inj (.inl rfl) hv hw h]
    all_goals cases hi
  case double x =>
    cases w
    case double y =>
      rw [display, display] at h
      rw [isProper] at hv hw
      rw [Decimal.write_double_inj (.inl rfl) hv hw h]
    all_goals cases hi
  case uuid u =>
    cases w
    case uuid u' =>
      rw [display, display] at h
      rw [Uuid.text_injective h]
    all_goals cases hi
  all_goals cases hs

/-- Different values of one kind have different short forms. -/
theorem display_inj {v w : Value} (hk : v.kind = w.kind) (hm : v.isMade = false)
    (hv : v.isProper = true) (hw : w.isProper = true) (h : v.display = w.display) : v = w := by
  by_cases hs : v.isShort = true
  · exact display_inj_of_isShort (ctorIdx_eq_of_kind hk) hs hv hw h
  · have hs' : w.isShort = false := by
      rw [isShort, ← hk]
      simpa [isShort] using hs
    have hm' : w.isMade = false := by
      rw [isMade, ← hk]
      exact hm
    rw [display_eq_debug hm (by simpa using hs), display_eq_debug hm' hs'] at h
    exact debug_inj hv hw h

end Value

/-! ## Texts of a type's values -/

namespace DataType

/-- The values of a plain type are of one kind. -/
theorem kind_eq {k : PlainKind} {v w : Value} (hv : (plain k).Holds v) (hw : (plain k).Holds w) :
    v.kind = w.kind := (holds_plain.1 hv).1.trans (holds_plain.1 hw).1.symm

theorem isMade_of_isFramed {k : PlainKind} (hk : (plain k).isFramed = true) {v : Value}
    (hv : (plain k).Holds v) : v.isMade = false := by
  rw [Value.isMade, (holds_plain.1 hv).1]
  cases k <;> first | rfl | cases hk

/-- Items in brackets, without spaces between them. -/
theorem isItem_joined {vs : List Value} (h : ∀ v ∈ vs, IsItem v.display) :
    IsItem ("[" ++ String.intercalate "," (Value.displayItems vs) ++ "]") := by
  refine ⟨?_, by simp⟩
  refine (ClosedAt.intercalate closedAt_comma fun s hs => ?_).bracket (fun _ => rfl) fun _ => rfl
  rw [displayItems_eq] at hs
  obtain ⟨v, hv, rfl⟩ := List.mem_map.1 hs
  exact (h v hv).closed.succ

/-- The texts of a framed type's values are closed. -/
theorem isItem_display : ∀ {t : DataType}, t.isFramed = true → ∀ {v : Value}, t.Holds v →
    IsItem v.display
  | plain k, ht, v, hv => Value.isItem_display (isMade_of_isFramed ht hv)
  | list t, ht, v, hv => by
    obtain ⟨vs, rfl, hvs⟩ := holds_list.1 hv
    rw [Value.display]
    exact isItem_joined fun x hx => isItem_display (t := t) ht (hvs x hx)
  | set t, ht, v, hv => by
    obtain ⟨vs, rfl, hvs⟩ := holds_set.1 hv
    rw [Value.display]
    exact isItem_joined fun x hx => isItem_display (t := t) ht (hvs x hx)

/-- Items can be told from their joined text if each can be told from its own. -/
theorem joined_inj {P : Value → Prop} (hitem : ∀ {v}, P v → IsItem v.display)
    (htell : TextTells P) {vs ws : List Value} (hvs : ∀ v ∈ vs, P v) (hws : ∀ w ∈ ws, P w)
    (h : "[" ++ String.intercalate "," (Value.displayItems vs) ++ "]" =
      "[" ++ String.intercalate "," (Value.displayItems ws) ++ "]") : vs = ws := by
  rw [String.append_left_inj, String.append_right_inj, displayItems_eq, displayItems_eq] at h
  have hitems : ∀ {us : List Value}, (∀ u ∈ us, P u) → ∀ s ∈ us.map Value.display, IsItem s := by
    intro us hus s hs
    obtain ⟨u, hu, rfl⟩ := List.mem_map.1 hs
    exact hitem (hus u hu)
  have hmap := intercalate_items_inj ⟨[], rfl⟩ (hitems hvs) (hitems hws) h
  clear h
  induction vs generalizing ws with
  | nil => exact (List.map_eq_nil_iff.1 hmap.symm).symm
  | cons v vs ih =>
    cases ws with
    | nil => cases hmap
    | cons w ws =>
      rw [List.map_cons, List.map_cons, List.cons.injEq] at hmap
      rw [List.forall_mem_cons] at hvs hws
      rw [htell v w hvs.1 hws.1 hmap.1, ih hvs.2 hws.2 hmap.2]

/-- Types whose texts are framed can be told, one in the other. -/
theorem textTells_of_isFramed : ∀ {t : DataType}, t.isFramed = true → TextTells t.Holds
  | plain k, ht, v, w, hv, hw, h =>
    Value.display_inj (kind_eq hv hw) (isMade_of_isFramed ht hv) (holds_plain.1 hv).2
      (holds_plain.1 hw).2 h
  | list t, ht, v, w, hv, hw, h => by
    obtain ⟨vs, rfl, hvs⟩ := holds_list.1 hv
    obtain ⟨ws, rfl, hws⟩ := holds_list.1 hw
    rw [Value.display, Value.display] at h
    rw [joined_inj (isItem_display (t := t) ht) (textTells_of_isFramed (t := t) ht) hvs hws h]
  | set t, ht, v, w, hv, hw, h => by
    obtain ⟨vs, rfl, hvs⟩ := holds_set.1 hv
    obtain ⟨ws, rfl, hws⟩ := holds_set.1 hw
    rw [Value.display, Value.display] at h
    rw [joined_inj (isItem_display (t := t) ht) (textTells_of_isFramed (t := t) ht) hvs hws h]

/-- A text is its own short form. -/
theorem textTells_of_isRaw {t : DataType} (ht : t.isRaw = true) : TextTells t.Holds := by
  intro v w hv hw h
  match t, ht with
  | plain .ascii, _ =>
    obtain ⟨s, rfl⟩ := Value.exists_ascii (Value.ctorIdx_eq_of_kind (holds_plain.1 hv).1.symm)
    obtain ⟨s', rfl⟩ := Value.exists_ascii (Value.ctorIdx_eq_of_kind (holds_plain.1 hw).1.symm)
    rw [Value.display, Value.display] at h
    rw [h]
  | plain .text, _ =>
    obtain ⟨s, rfl⟩ := Value.exists_text (Value.ctorIdx_eq_of_kind (holds_plain.1 hv).1.symm)
    obtain ⟨s', rfl⟩ := Value.exists_text (Value.ctorIdx_eq_of_kind (holds_plain.1 hw).1.symm)
    rw [Value.display, Value.display] at h
    rw [h]

/-- Two lists of values with one joined text. -/
def SameJoined (vs ws : List Value) : Prop :=
  String.intercalate "," (Value.displayItems vs) = String.intercalate "," (Value.displayItems ws)

/-- Values that are not framed hold a text at some depth, and nothing marks an empty one. -/
theorem exists_same_joined : ∀ {t : DataType}, t.isFramed = false →
    ∃ vs ws : List Value, (∀ v ∈ vs, t.Holds v) ∧ (∀ w ∈ ws, t.Holds w) ∧ vs ≠ ws ∧
      SameJoined vs ws
  | plain k, ht => by
    refine ⟨[], [k.sample], List.forall_mem_nil _,
      List.forall_mem_singleton.2 (holds_sample (plain k)), by simp, ?_⟩
    cases k <;> first | rfl | cases ht
  | list t, ht => by
    obtain ⟨vs, ws, hvs, hws, hne, hsame⟩ := exists_same_joined (t := t) ht
    refine ⟨[.list vs], [.list ws], List.forall_mem_singleton.2 (holds_list.2 ⟨vs, rfl, hvs⟩),
      List.forall_mem_singleton.2 (holds_list.2 ⟨ws, rfl, hws⟩), by simpa using hne, ?_⟩
    rw [SameJoined] at hsame ⊢
    simp [Value.displayItems, Value.display, hsame]
  | set t, ht => by
    obtain ⟨vs, ws, hvs, hws, hne, hsame⟩ := exists_same_joined (t := t) ht
    refine ⟨[.set vs], [.set ws], List.forall_mem_singleton.2 (holds_set.2 ⟨vs, rfl, hvs⟩),
      List.forall_mem_singleton.2 (holds_set.2 ⟨ws, rfl, hws⟩), by simpa using hne, ?_⟩
    rw [SameJoined] at hsame ⊢
    simp [Value.displayItems, Value.display, hsame]

/-- A type that is not told has two values of one text. -/
theorem exists_same_text {t : DataType} (ht : t.isTold = false) :
    ∃ v w, t.Holds v ∧ t.Holds w ∧ v ≠ w ∧ v.display = w.display := by
  rw [isTold, Bool.or_eq_false_iff] at ht
  cases t with
  | plain k =>
    rw [isFramed, ht.1] at ht
    cases ht.2
  | list t =>
    obtain ⟨vs, ws, hvs, hws, hne, hsame⟩ := exists_same_joined (t := t) ht.2
    rw [SameJoined] at hsame
    exact ⟨.list vs, .list ws, holds_list.2 ⟨vs, rfl, hvs⟩, holds_list.2 ⟨ws, rfl, hws⟩,
      by simpa using hne, by rw [Value.display, Value.display, hsame]⟩
  | set t =>
    obtain ⟨vs, ws, hvs, hws, hne, hsame⟩ := exists_same_joined (t := t) ht.2
    rw [SameJoined] at hsame
    exact ⟨.set vs, .set ws, holds_set.2 ⟨vs, rfl, hvs⟩, holds_set.2 ⟨ws, rfl, hws⟩,
      by simpa using hne, by rw [Value.display, Value.display, hsame]⟩

/-- The texts of a type's values tell them apart unless it is a collection that holds texts. -/
theorem textTells_iff {t : DataType} : TextTells t.Holds ↔ t.isTold = true := by
  constructor
  · intro htell
    by_contra ht
    obtain ⟨v, w, hv, hw, hne, hsame⟩ := exists_same_text (by simpa using ht)
    exact hne (htell v w hv hw hsame)
  · intro ht
    rw [isTold, Bool.or_eq_true] at ht
    exact ht.elim textTells_of_isRaw textTells_of_isFramed

end DataType

example : (Value.list []).display = (Value.list [.text ""]).display := by decide

end WideRow
