import WideRow.Proofs.KeyText
import WideRow.Proofs.OneTable

/-!
# Markers and the values they bind

The database binds the first value to the first marker of a statement's text, the second to the
second, and so on; it knows nothing else of what a value is for. Names of tables and columns stand
between double quotes unless they are plain, and may have question marks and quotes of their own.

`LabelledText.markers` reads a text as the database does and finds its markers; each character has a
label, so that a marker tells what it belongs to. The labels are `Place`s. `Call.layout` writes an
operation down with the place of every character: the change, the filter or the condition that it is
of, and for a row that is inserted the column, whose name stands in one list and whose marker stands
in another. `Call.bindings` are the values that an operation binds, each with its place.

> `markers_of_statement`: a statement that could be built has the characters of its operation's
> layout, and the markers of the layout and the values of the statement are, one by one, the places
> and the values of the operation's bindings.

What puts a text together is read off with it: `LabelledText.Reads` says which markers a text has
that is begun and ended outside of quotes, and such texts can be put one after the other.
-/

namespace WideRow

/-! ## The markers of a text -/

/-- A text with a label at each character. -/
abbrev LabelledText (α : Type) := List (Char × α)

namespace LabelledText

variable {α β : Type}

/-- The labels of the question marks that are not between double quotes; between these, two quotes
in a row are one that does not close. There is no answer if a quote is open in the end. -/
def markersFrom : Bool → LabelledText α → Option (List α)
  | false, [] => some []
  | true, [] => none
  | false, (c, a) :: t =>
    if c = '"' then markersFrom true t
    else if c = '?' then (markersFrom false t).map (a :: ·)
    else markersFrom false t
  | true, ('"', _) :: ('"', _) :: t => markersFrom true t
  | true, (c, _) :: t => if c = '"' then markersFrom false t else markersFrom true t

/-- The labels of the markers of a text. -/
def markers (t : LabelledText α) : Option (List α) := markersFrom false t

/-- A text with one label. -/
def of (a : α) (s : String) : LabelledText α := s.toList.map (·, a)

/-- The text without its labels. -/
def chars (t : LabelledText α) : List Char := t.map Prod.fst

/-! ## Texts one after the other -/

/-- The labels of the markers, and whether a quote is open in the end, where every quote opens or
closes. -/
def toggled : Bool → LabelledText α → List α × Bool
  | isOpen, [] => ([], isOpen)
  | isOpen, (c, a) :: t =>
    if c = '"' then toggled (!isOpen) t
    else if c = '?' ∧ isOpen = false then (a :: (toggled isOpen t).1, (toggled isOpen t).2)
    else toggled isOpen t

/-- A question mark outside quotes is a marker, and has its label. -/
theorem toggled_mark (a : α) (t : LabelledText α) :
    toggled false (('?', a) :: t) = (a :: (toggled false t).1, (toggled false t).2) := rfl

/-- Any other character is none, and leaves it open or closed what follows. -/
theorem toggled_other {isOpen : Bool} {c : Char} (hquote : c ≠ '"') (h : c ≠ '?' ∨ isOpen = true)
    (a : α) (t : LabelledText α) : toggled isOpen ((c, a) :: t) = toggled isOpen t := by
  rw [toggled, if_neg hquote, if_neg]
  rintro ⟨hmark, hclosed⟩
  rcases h with h | h
  · exact h hmark
  · rw [h] at hclosed
    exact absurd hclosed (by decide)

/-- Two quotes in a row close and open again, so that it makes no difference. -/
theorem markersFrom_eq (isOpen : Bool) (t : LabelledText α) : markersFrom isOpen t =
    if (toggled isOpen t).2 = true then none else some (toggled isOpen t).1 := by
  fun_induction markersFrom isOpen t with
  | case1 => rfl
  | case2 => rfl
  | case3 a t ih => exact ih
  | case4 a t hquote ih =>
    rw [ih, toggled_mark]
    cases (toggled false t).2 with
    | false => rfl
    | true => rfl
  | case5 c a t hquote hmark ih => rw [ih, toggled_other hquote (.inl hmark)]
  | case6 _ _ t ih => exact ih
  | case7 _ t hnext ih => exact ih
  | case8 c a t hnext hquote ih => rw [ih, toggled_other hquote (.inr rfl)]

/-- To label anew is to label the markers anew. -/
theorem toggled_map (f : α → β) (isOpen : Bool) (t : LabelledText α) :
    toggled isOpen (t.map fun p => (p.1, f p.2)) =
      ((toggled isOpen t).1.map f, (toggled isOpen t).2) := by
  induction t generalizing isOpen with
  | nil => rfl
  | cons p t ih =>
    obtain ⟨c, a⟩ := p
    rw [List.map_cons, toggled, toggled]
    split
    next => exact ih _
    next =>
      split
      next => rw [ih isOpen, List.map_cons]
      next => exact ih _

/-- Markers are found whatever the labels are. -/
theorem markers_map (f : α → β) (t : LabelledText α) :
    markers (t.map fun p => (p.1, f p.2)) = (markers t).map (List.map f) := by
  rw [markers, markers, markersFrom_eq, markersFrom_eq, toggled_map]
  cases (toggled false t).2 with
  | false => rfl
  | true => rfl

/-- Reading goes on where the first text ends, inside quotes or outside. -/
theorem toggled_append (isOpen : Bool) (s t : LabelledText α) : toggled isOpen (s ++ t) =
    ((toggled isOpen s).1 ++ (toggled (toggled isOpen s).2 t).1,
      (toggled (toggled isOpen s).2 t).2) := by
  induction s generalizing isOpen with
  | nil => rfl
  | cons p s ih =>
    obtain ⟨c, a⟩ := p
    rw [List.cons_append, toggled, toggled]
    split
    next => exact ih _
    next =>
      split
      next => rw [ih isOpen, List.cons_append]
      next => exact ih _

/-- A text that begins outside of quotes has these markers, and ends outside of quotes. -/
def Reads (t : LabelledText α) (ms : List α) : Prop := toggled false t = (ms, false)

namespace Reads

variable {s t : LabelledText α} {ms ns : List α} {a : α}

/-- A text that is read through ends outside quotes, so it has markers. -/
theorem markers_eq (h : Reads t ms) : t.markers = some ms := by
  rw [markers, markersFrom_eq, h, if_neg Bool.false_ne_true]

theorem nil : Reads ([] : LabelledText α) [] := rfl

/-- Texts that are read through one by one are read through together. -/
theorem append (hs : Reads s ms) (ht : Reads t ns) : Reads (s ++ t) (ms ++ ns) := by
  rw [Reads, toggled_append, hs, ht]

/-- Without quotes and question marks there is no marker. -/
theorem of_plain (h : ∀ p ∈ t, p.1 ≠ '"' ∧ p.1 ≠ '?') : Reads t [] := by
  induction t with
  | nil => exact nil
  | cons p t ih =>
    obtain ⟨hquote, hmark⟩ := h p (List.mem_cons_self ..)
    rw [Reads, toggled_other hquote (.inl hmark)]
    exact ih fun q hq => h q (List.mem_cons_of_mem p hq)

end Reads

theorem of_append (a : α) (s t : String) : of a (s ++ t) = of a s ++ of a t := by
  rw [of, String.toList_append, List.map_append, of, of]

theorem chars_of (a : α) (s : String) : (of a s).chars = s.toList := by
  rw [chars, of, List.map_map]
  exact List.map_id _

theorem chars_append (s t : LabelledText α) : chars (s ++ t) = chars s ++ chars t :=
  List.map_append

end LabelledText

open LabelledText (Reads)

/-! ## Names, numbers and lists -/

/-- A text without markers that does not leave a quote open. -/
def IsQuiet (s : String) : Prop := ∀ (α : Type) (a : α), Reads (LabelledText.of a s) []

/-- A text without quotes and question marks has no markers. -/
theorem IsQuiet.of_forall {s : String} (h : ∀ c ∈ s.toList, c ≠ '"' ∧ c ≠ '?') : IsQuiet s := by
  intro α a
  refine Reads.of_plain ?_
  intro p hp
  obtain ⟨c, hc, rfl⟩ := List.mem_map.1 hp
  exact h c hc

/-- Whether a text has neither quotes nor question marks. -/
def isPlainText (s : String) : Bool := s.toList.all fun c => c != '"' && c != '?'

/-- Such are all texts of letters, digits and the signs that stand between them. -/
theorem IsQuiet.of_plain {s : String} (h : isPlainText s = true) : IsQuiet s := by
  refine .of_forall fun c hc => ?_
  have hplain := List.all_eq_true.1 h c hc
  rw [Bool.and_eq_true_iff, bne_iff_ne, bne_iff_ne] at hplain
  exact hplain

theorem IsQuiet.append {s t : String} (hs : IsQuiet s) (ht : IsQuiet t) : IsQuiet (s ++ t) := by
  intro α a
  rw [LabelledText.of_append]
  exact (hs α a).append (ht α a)

/-- Between quotes, what has its quotes doubled passes without a marker. -/
theorem LabelledText.toggled_doubled {α : Type} (a : α) (cs : List Char) :
    toggled true ((Identifier.doubled cs).map (·, a)) = ([], true) := by
  induction cs with
  | nil => rfl
  | cons c cs ih =>
    rw [Identifier.doubled]
    split
    next => exact ih
    next hquote =>
      rw [List.map_cons, toggled_other hquote (.inr rfl)]
      exact ih

/-- The name of a table or a column has no markers, whatever the name is. -/
theorem Identifier.isQuiet_cql (i : Identifier) : IsQuiet i.cql := by
  rw [cql]
  split
  next hbare =>
    refine .of_forall fun c hc => ?_
    have hc := List.all_eq_true.1 hbare c hc
    constructor
    · rintro rfl
      exact absurd hc (by decide)
    · rintro rfl
      exact absurd hc (by decide)
  next =>
    intro α a
    have hopening : LabelledText.toggled false (LabelledText.of a "\"") = ([], true) := rfl
    have hclosing : LabelledText.toggled true (LabelledText.of a "\"") = ([], false) := rfl
    have hname : LabelledText.toggled true
        (LabelledText.of a (String.ofList (doubled i.name.toList))) = ([], true) := by
      rw [LabelledText.of, String.toList_ofList, LabelledText.toggled_doubled]
    rw [Reads, LabelledText.of_append, LabelledText.of_append, LabelledText.toggled_append,
      LabelledText.toggled_append, hopening, hname, hclosing, List.append_nil, List.append_nil]

/-- A number has digits and a sign. -/
theorem isQuiet_repr (n : Int) : IsQuiet n.repr := by
  refine .of_forall fun c hc => ?_
  rcases mem_repr_int hc with hdigit | rfl
  · constructor
    · rintro rfl
      exact absurd hdigit (by decide)
    · rintro rfl
      exact absurd hdigit (by decide)
  · decide

/-- To label a list of texts is to label each one and what stands between them. -/
theorem LabelledText.of_intercalate {α : Type} (a : α) (separator : String) (ss : List String) :
    of a (String.intercalate separator ss) =
      List.intercalate (of a separator) (ss.map (of a)) := by
  induction ss with
  | nil => rfl
  | cons s ss ih =>
    cases ss with
    | nil => simp
    | cons s' ss =>
      simp only [List.map_cons] at ih ⊢
      rw [String.intercalate_cons_cons, List.intercalate_cons_cons, of_append, of_append, ih]

section

variable {α β : Type}

/-- Texts with a text without markers between each two have their own markers. -/
theorem LabelledText.Reads.intercalate {separator : LabelledText α} (hquiet : Reads separator [])
    {f : β → LabelledText α} {g : β → List α} (xs : List β) (h : ∀ x ∈ xs, Reads (f x) (g x)) :
    Reads (separator.intercalate (xs.map f)) (xs.flatMap g) := by
  induction xs with
  | nil => exact nil
  | cons x xs ih =>
    have hx := h x (List.mem_cons_self ..)
    have hxs := ih fun y hy => h y (List.mem_cons_of_mem x hy)
    cases xs with
    | nil => simpa using hx
    | cons y xs =>
      simp only [List.map_cons, List.flatMap_cons] at hxs ⊢
      have hread := (hx.append hquiet).append hxs
      rw [List.append_nil] at hread
      rw [List.intercalate_cons_cons]
      exact hread

/-- The labels do not change how a list is spelled. -/
theorem LabelledText.chars_intercalate {separator : LabelledText α} {s : String}
    (hs : separator.chars = s.toList) {f : β → LabelledText α} {g : β → String} (xs : List β)
    (h : ∀ x ∈ xs, (f x).chars = (g x).toList) :
    chars (separator.intercalate (xs.map f)) = (String.intercalate s (xs.map g)).toList := by
  induction xs with
  | nil => rfl
  | cons x xs ih =>
    have hx := h x (List.mem_cons_self ..)
    have hxs := ih fun y hy => h y (List.mem_cons_of_mem x hy)
    cases xs with
    | nil => simpa using hx
    | cons y xs =>
      simp only [List.map_cons] at hxs ⊢
      rw [List.intercalate_cons_cons, String.intercalate_cons_cons, String.toList_append,
        String.toList_append, ← hs, ← hx, ← hxs, chars, List.map_append, List.map_append]
      rfl

end

/-- A list is as quiet as its items and what stands between them. -/
theorem IsQuiet.intercalate {separator : String} (hquiet : IsQuiet separator) {ss : List String}
    (h : ∀ s ∈ ss, IsQuiet s) : IsQuiet (String.intercalate separator ss) := by
  intro α a
  have hread := (hquiet α a).intercalate (g := fun _ => []) ss fun s hs => h s hs α a
  rw [List.flatMap_eq_nil_iff.2 fun _ _ => rfl] at hread
  rw [LabelledText.of_intercalate]
  exact hread

namespace Fragment

variable {β : Type}

theorem cql_append (f g : Fragment) : (f ++ g).cql = f.cql ++ g.cql := rfl

theorem values_append (f g : Fragment) : (f ++ g).values = f.values ++ g.values := rfl

theorem cql_join (separator : String) (fs : List Fragment) :
    (join separator fs).cql = String.intercalate separator (fs.map (·.cql)) := by
  fun_induction join separator fs with
  | case1 => rfl
  | case2 f => simp
  | case3 f fs hfs ih =>
    cases fs with
    | nil => exact absurd rfl hfs
    | cons g fs =>
      simp only [List.map_cons] at ih ⊢
      rw [cql_append, cql_append, ih, String.intercalate_cons_cons]
      rfl

theorem values_join (separator : String) (fs : List Fragment) :
    (join separator fs).values = fs.flatMap (·.values) := by
  fun_induction join separator fs with
  | case1 => rfl
  | case2 f => simp
  | case3 f fs hfs ih =>
    rw [values_append, values_append, ih, List.flatMap_cons]
    show f.values ++ [] ++ _ = _
    rw [List.append_nil]

end Fragment

/-! ## Filters and changes -/

/-- A filter as it stands in a statement. -/
def Filter.text (f : Filter) : String :=
  f.node.column.cql ++ " " ++ f.operator.cql ++ " " ++
    match f.postulate with
    | .single op _ => if op = .isIn then "(?)" else "?"
    | .many vs => "(" ++ String.intercalate ", " (vs.map fun _ => "?") ++ ")"

/-- The values of a filter, each prepared. -/
def Filter.values (f : Filter) (prepare : ValuePreparer) : List Cell :=
  match f.postulate with
  | .single _ v => [prepare.cell f.node (f.type.cell v)]
  | .many vs => vs.map fun v => prepare.cell f.node (f.type.cell v)

/-- A change of a column as it stands in a statement. -/
def Change.text (column : String) : Change → String
  | set _ => column ++ " = ?"
  | increment _ | append _ | add _ => column ++ " = " ++ column ++ " + ?"
  | decrement _ | discard _ | remove _ => column ++ " = " ++ column ++ " - ?"
  | prepend _ => column ++ " = ? + " ++ column

/-- The value of a change, prepared; the value of a counter's change is bound as it is. -/
def Change.value (n : Node) (prepare : ValuePreparer) : Change → Cell
  | set c => prepare.cell n c
  | increment delta | decrement delta => some (.bigint delta)
  | append v | prepend v | discard v => some (.list [prepare n v])
  | add v | remove v => some (.set [prepare n v])

/-- A clause is written as its filter, and binds the filter's values. -/
theorem Filter.fragment_of_clause {f : Filter} {prepare : ValuePreparer} {c : Clause}
    (h : f.clause prepare = .ok c) : c.fragment = ⟨f.text, f.values prepare⟩ := by
  obtain ⟨n, t, p⟩ := f
  have hbound : ∀ {v : t.Carrier} {x}, Postulate.bound n prepare v = .ok x →
      some x = prepare.cell n (t.cell v) := by
    intro v x hx
    unfold Postulate.bound at hx
    split at hx
    next y hy =>
      rw [hy, ← Except.ok.inj hx]
      rfl
    next => exact absurd hx (by simp)
  cases p with
  | single op v =>
    obtain ⟨x, hx, hc⟩ := bind_eq_ok.1 h
    rw [← Except.ok.inj hc]
    show (⟨_, [some x]⟩ : Fragment) = ⟨_, [prepare.cell n (t.cell v)]⟩
    rw [hbound hx]
    by_cases hop : op = .isIn
    · subst hop
      rfl
    · simp only [text, operator, Postulate.operator, if_neg hop]
  | many vs =>
    obtain ⟨xs, hxs, hc⟩ := bind_eq_ok.1 h
    have hvalues : xs.map some = vs.map fun v => prepare.cell n (t.cell v) :=
      map_of_mapM (fun _ _ hx => hbound hx) hxs
    have hmarkers : (xs.map fun _ => "?") = vs.map fun _ => "?" :=
      map_of_mapM (fun _ _ _ => rfl) hxs
    rw [← Except.ok.inj hc]
    show (⟨_, xs.map some⟩ : Fragment) = ⟨_, vs.map fun v => prepare.cell n (t.cell v)⟩
    rw [hvalues]
    simp only [text, operator, Postulate.operator, if_true, hmarkers]

/-- An assignment is written as its change, and binds the change's value. -/
theorem Change.fragment_assignment (n : Node) (prepare : ValuePreparer) (x : Change) :
    (x.assignment n prepare).fragment = ⟨x.text n.column.cql, [x.value n prepare]⟩ := by
  cases x <;> rfl

section

variable {α : Type} (a : α)

theorem reads_marker : Reads (LabelledText.of a "?") [a] := rfl

/-- A filter has as many markers as values: one for each item of a list, and one otherwise. -/
theorem Filter.reads_text (f : Filter) (prepare : ValuePreparer) :
    Reads (LabelledText.of a f.text) ((f.values prepare).map fun _ => a) := by
  have hoperator : IsQuiet f.operator.cql := by
    refine .of_plain ?_
    cases f.operator <;> decide
  have hname : IsQuiet (f.node.column.cql ++ " " ++ f.operator.cql ++ " ") :=
    ((f.node.column.isQuiet_cql.append (.of_plain (by decide))).append hoperator).append
      (.of_plain (by decide))
  unfold text values
  rw [LabelledText.of_append]
  refine (hname α a).append ?_
  cases f.postulate with
  | single op v =>
    dsimp only
    split
    next => rfl
    next => rfl
  | many vs =>
    have hcomma : Reads (LabelledText.of a ", ") [] := rfl
    have hopening : Reads (LabelledText.of a "(") [] := rfl
    have hclosing : Reads (LabelledText.of a ")") [] := rfl
    have hmarkers := hcomma.intercalate (f := fun _ => LabelledText.of a "?") vs
      fun _ _ => reads_marker a
    have hread := (hopening.append hmarkers).append hclosing
    rw [List.append_nil, List.nil_append, ← List.map_eq_flatMap] at hread
    dsimp only
    rw [LabelledText.of_append, LabelledText.of_append, LabelledText.of_intercalate, List.map_map,
      List.map_map]
    simp only [Function.comp_def]
    exact hread

/-- A change has one marker, whatever it does to its column. -/
theorem Change.reads_text (n : Node) (x : Change) :
    Reads (LabelledText.of a (x.text n.column.cql)) [a] := by
  have hname := n.column.isQuiet_cql α a
  have hequals : Reads (LabelledText.of a " = ") [] := rfl
  have hset : Reads (LabelledText.of a " = ?") [a] := rfl
  have hplus : Reads (LabelledText.of a " + ?") [a] := rfl
  have hminus : Reads (LabelledText.of a " - ?") [a] := rfl
  have hbefore : Reads (LabelledText.of a " = ? + ") [a] := rfl
  have htwice := (hname.append hequals).append hname
  cases x with
  | set c =>
    rw [text, LabelledText.of_append]
    exact hname.append hset
  | increment _ | append _ | add _ =>
    rw [text, LabelledText.of_append, LabelledText.of_append, LabelledText.of_append]
    exact htwice.append hplus
  | decrement _ | discard _ | remove _ =>
    rw [text, LabelledText.of_append, LabelledText.of_append, LabelledText.of_append]
    exact htwice.append hminus
  | prepend _ =>
    rw [text, LabelledText.of_append, LabelledText.of_append]
    exact (hname.append hbefore).append hname

end

/-! ## Layouts -/

/-- What a character of a statement belongs to. Places of a kind are numbered from 0. -/
inductive Place where
  /-- The words of the language, the table, numbers, and the columns by which rows are read and
  ordered. -/
  | frame
  /-- A column that is changed or inserted. -/
  | written (k : Nat)
  /-- A filter. -/
  | filter (k : Nat)
  /-- A condition of a write. -/
  | condition (k : Nat)
  deriving DecidableEq

section

variable {β : Type}

/-- Texts one after the other, each in the place that it has by its number, with a text of the frame
between each two. -/
def LabelledText.numbered (place : Nat → Place) (separator : String) (text : β → String)
    (xs : List β) : LabelledText Place :=
  List.intercalate (of .frame separator) (xs.zipIdx.map fun p => of (place p.2) (text p.1))

/-- The values of the items of a list, each in the place that its item has by its number. -/
def Place.numbered (place : Nat → Place) (values : β → List Cell) (xs : List β) :
    List (Place × Cell) :=
  xs.zipIdx.flatMap fun p => (values p.1).map (place p.2, ·)

end

/-- A text of the frame. -/
def LabelledText.frame (s : String) : LabelledText Place := of .frame s

open LabelledText (frame numbered)

/-- Filters after a keyword. -/
def Filter.layout (keyword : String) (place : Nat → Place) (fs : List Filter) :
    LabelledText Place :=
  if fs.isEmpty then [] else frame keyword ++ numbered place " AND " (·.text) fs

/-- The layout of a statement that reads, with these filters. -/
def Select.layout (s : Select) (fs : List Filter) : LabelledText Place :=
  let selected := match s.selection with
    | .columns names => String.intercalate ", " names
    | .count => "count(*)"
  let limit := match s.limit with
    | some n => " LIMIT " ++ toString n.toInt
    | none => ""
  frame ("SELECT " ++ selected ++ " FROM " ++ s.table) ++
  Filter.layout " WHERE " .filter fs ++
  frame (Ordering.fragment s.orderings).cql ++
  frame limit ++
  frame (if s.allowsFiltering then " ALLOW FILTERING" else "")

/-- The layout of a query of a table. -/
def Query.layout {α : Type} (q : Query α) (table : String) : LabelledText Place :=
  Select.layout {
    table
    selection := .columns (q.projection.map (·.column.cql))
    orderings := q.orderings.map (·.ordering)
    limit := q.limit
    allowsFiltering := q.allowsFiltering || q.projection.any (·.property.hasCaseSensitiveIndex)
  } q.conditions.filters

/-- The layout of a count in a table. -/
def RowCount.layout (c : RowCount) (table : String) : LabelledText Place :=
  Select.layout { table, selection := .count, allowsFiltering := c.allowsFiltering }
    c.conditions.filters

/-- The layout of an insert into a table. A column has its place in the list of names, and the same
place in the list of markers. -/
def RowInsert.layout (i : RowInsert) (table : String) : LabelledText Place :=
  frame ("INSERT INTO " ++ table ++ " (") ++
  numbered .written ", " (fun p => p.1.column.cql) i.values ++
  frame ") VALUES (" ++
  numbered .written ", " (fun _ => "?") i.values ++
  frame ")" ++
  frame (if i.requiresNoRow then " IF NOT EXISTS" else "") ++
  frame (Using.fragment ⟨i.ttl, i.timestamp⟩).cql

/-- The layout of the condition of a write. -/
def Conditions.layout (c : Conditions) (requiresRow : Bool) : LabelledText Place :=
  if requiresRow then frame " IF EXISTS" else Filter.layout " IF " .condition c.onlyIf

/-- The layout of an update of a table. -/
def RowUpdate.layout (u : RowUpdate) (table : String) : LabelledText Place :=
  frame ("UPDATE " ++ table) ++
  frame (Using.fragment ⟨u.ttl, u.timestamp⟩).cql ++
  frame " SET " ++
  numbered .written ", " (fun p => p.2.text p.1.column.cql) u.changes ++
  Filter.layout " WHERE " .filter u.conditions.filters ++
  u.conditions.layout u.requiresRow

/-- The layout of a delete from a table, or of the emptying of one. -/
def RowDelete.layout (d : RowDelete) (table : String) : LabelledText Place :=
  if d.isTruncate then frame ("TRUNCATE " ++ table)
  else
    frame ("DELETE FROM " ++ table) ++
    frame (Using.fragment { timestamp := d.timestamp }).cql ++
    Filter.layout " WHERE " .filter d.conditions.filters ++
    d.conditions.layout d.requiresRow

namespace Call

/-- The characters of an operation's statement, each with what it belongs to. -/
def layout (table : String) : Call → LabelledText Place
  | lookup q => q.single.query.layout table
  | read q => q.layout table
  | count c => c.layout table
  | insert i => i.layout table
  | update u => u.layout table
  | delete d => d.layout table

/-- The values that an operation binds, each prepared once and with the place that it belongs to:
first what is written, then what the rows are compared with, and then what the write is conditional
on. A query knows no condition of a write, and neither does the emptying of a table. -/
def bindings (prepare : ValuePreparer) : Call → List (Place × Cell)
  | lookup q => Place.numbered .filter (·.values prepare) q.conditions.filters
  | read q => Place.numbered .filter (·.values prepare) q.conditions.filters
  | count c => Place.numbered .filter (·.values prepare) c.conditions.filters
  | insert i => Place.numbered .written (fun p => [prepare.cell p.1 p.2]) i.values
  | update u =>
    Place.numbered .written (fun p => [p.2.value p.1 prepare]) u.changes ++
      Place.numbered .filter (·.values prepare) u.conditions.filters ++
      Place.numbered .condition (·.values prepare) u.conditions.onlyIf
  | delete d =>
    if d.isTruncate then []
    else
      Place.numbered .filter (·.values prepare) d.conditions.filters ++
        Place.numbered .condition (·.values prepare) d.conditions.onlyIf

end Call

/-! ## What is laid out -/

/-- Numbers beside the items of a list do not matter to what is made of the items. -/
theorem map_zipIdx {β γ : Type} (f : β → γ) (xs : List β) (k : Nat) :
    ((xs.zipIdx k).map fun p => f p.1) = xs.map f := by
  have hmap := congrArg (List.map f) (List.zipIdx_map_fst k xs)
  rw [List.map_map] at hmap
  exact hmap

namespace Place

variable {β : Type} (place : Nat → Place) (values : β → List Cell) (xs : List β)

/-- The places go by the number of the part, once for each of its values. -/
theorem numbered_fst : (numbered place values xs).map Prod.fst =
    xs.zipIdx.flatMap fun p => (values p.1).map fun _ => place p.2 := by
  rw [numbered, List.map_flatMap]
  simp only [List.map_map, Function.comp_def]

/-- The values are those of the parts, one part after the other. -/
theorem numbered_snd : (numbered place values xs).map Prod.snd = xs.flatMap values := by
  have hvalues : ((xs.zipIdx.map fun p => values p.1)).flatten = xs.flatMap values := by
    rw [map_zipIdx, List.flatMap_def]
  rw [numbered, List.map_flatMap, ← hvalues, List.flatMap_def]
  simp only [List.map_map, Function.comp_def, List.map_id']

theorem numbered_none : numbered place (fun _ => []) xs = [] :=
  List.flatMap_eq_nil_iff.2 fun _ _ => rfl

end Place

/-- The characters of a fragment have a layout, in which the markers are in the places that the
values of the fragment belong to. -/
structure Fragment.IsLaidOut (f : Fragment) (t : LabelledText Place) (bs : List (Place × Cell)) :
    Prop where
  chars : t.chars = f.cql.toList
  reads : Reads t (bs.map Prod.fst)
  values : f.values = bs.map Prod.snd

namespace Fragment

/-- Quiet text binds nothing, and all of it belongs to the frame. -/
theorem isLaidOut_text {s : String} (h : IsQuiet s) : (text s).IsLaidOut (frame s) [] :=
  ⟨LabelledText.chars_of _ s, h _ _, rfl⟩

/-- Fragments that stand one after the other are laid out one after the other. -/
theorem IsLaidOut.append {f g : Fragment} {s t : LabelledText Place} {bs cs : List (Place × Cell)}
    (hf : f.IsLaidOut s bs) (hg : g.IsLaidOut t cs) : (f ++ g).IsLaidOut (s ++ t) (bs ++ cs) := by
  refine ⟨?_, ?_, ?_⟩
  · rw [cql_append, String.toList_append, ← hf.chars, ← hg.chars, LabelledText.chars_append]
  · rw [List.map_append]
    exact hf.reads.append hg.reads
  · rw [values_append, hf.values, hg.values, List.map_append]

/-- What binds nothing adds no places. -/
theorem IsLaidOut.append_frame {f g : Fragment} {s t : LabelledText Place}
    {bs : List (Place × Cell)} (hf : f.IsLaidOut s bs) (hg : g.IsLaidOut t []) :
    (f ++ g).IsLaidOut (s ++ t) bs := by
  have happend := hf.append hg
  rw [List.append_nil] at happend
  exact happend

/-- Items of a list one after the other. -/
theorem isLaidOut_join {β : Type} (place : Nat → Place) {separator : String}
    (hquiet : IsQuiet separator) (text : β → String) (values : β → List Cell)
    (h : ∀ (x : β) (a : Place), Reads (.of a (text x)) ((values x).map fun _ => a)) (xs : List β) :
    (join separator (xs.map fun x => ⟨text x, values x⟩)).IsLaidOut
      (numbered place separator text xs) (Place.numbered place values xs) := by
  refine ⟨?_, ?_, ?_⟩
  · have hchars := LabelledText.chars_intercalate (LabelledText.chars_of Place.frame separator)
      (g := fun p => text p.1) xs.zipIdx
      fun p _ => LabelledText.chars_of (place p.2) (text p.1)
    rw [numbered, hchars, map_zipIdx, cql_join, List.map_map]
    rfl
  · rw [Place.numbered_fst]
    exact (hquiet _ Place.frame).intercalate _ fun p _ => h p.1 (place p.2)
  · rw [values_join, List.flatMap_map, Place.numbered_snd]

/-- Clauses after a keyword. -/
theorem isLaidOut_clauses {prepare : ValuePreparer} (place : Nat → Place) {keyword : String}
    (hquiet : IsQuiet keyword) {fs : List Filter} {clauses : List Clause}
    (h : fs.mapM (·.clause prepare) = .ok clauses) :
    (Clause.fragments keyword clauses).IsLaidOut (Filter.layout keyword place fs)
      (Place.numbered place (·.values prepare) fs) := by
  have hclauses : clauses.map Clause.fragment = fs.map fun f => ⟨f.text, f.values prepare⟩ :=
    map_of_mapM (fun _ _ hclause => Filter.fragment_of_clause hclause) h
  unfold Clause.fragments Filter.layout
  split
  next hnone =>
    rw [List.isEmpty_iff.1 hnone] at hclauses
    have hfs : fs = [] := by simpa using hclauses.symm
    subst hfs
    exact ⟨rfl, Reads.nil, rfl⟩
  next hsome =>
    have hfs : fs.isEmpty = false := by
      rw [List.isEmpty_eq_false_iff]
      rintro rfl
      have hnil : clauses = [] := by simpa using hclauses
      exact hsome (List.isEmpty_iff.2 hnil)
    have hand : IsQuiet " AND " := .of_plain (by decide)
    rw [hclauses, if_neg (Bool.eq_false_iff.1 hfs)]
    exact (isLaidOut_text hquiet).append
      (isLaidOut_join place hand _ _ (fun f a => f.reads_text a prepare) fs)

end Fragment

section

variable {prepare : ValuePreparer}

theorem Using.isQuiet_cql (u : Using) : IsQuiet u.fragment.cql := by
  unfold fragment
  dsimp only
  split
  next => exact .of_plain (by decide)
  next =>
    have hand : IsQuiet " AND " := .of_plain (by decide)
    refine .append (.of_plain (by decide)) (hand.intercalate ?_)
    intro s hs
    rcases List.mem_append.1 hs with hs | hs
    · obtain ⟨n, -, rfl⟩ := Option.map_eq_some_iff.1 (Option.mem_toList.1 hs)
      exact .append (.of_plain (by decide)) (isQuiet_repr n.toInt)
    · obtain ⟨n, -, rfl⟩ := Option.map_eq_some_iff.1 (Option.mem_toList.1 hs)
      exact .append (.of_plain (by decide)) (isQuiet_repr n.toInt)

/-- A time to live and a timestamp are written out and not bound. -/
theorem Using.isLaidOut_fragment (u : Using) :
    u.fragment.IsLaidOut (frame u.fragment.cql) [] := by
  have htext : u.fragment = .text u.fragment.cql := by
    unfold fragment
    dsimp only
    split
    next => rfl
    next => rfl
  rw [htext]
  exact Fragment.isLaidOut_text u.isQuiet_cql

/-- The condition of a write that does not ask for the row to exist as well. -/
theorem Conditions.isLaidOut_conditional {c : Conditions} {requiresRow : Bool}
    {clauses : List Clause} (hconflict : (requiresRow && !c.onlyIf.isEmpty) = false)
    (h : c.onlyIf.mapM (·.clause prepare) = .ok clauses) :
    (RowUpdate.conditional requiresRow clauses).fragment.IsLaidOut (c.layout requiresRow)
      (Place.numbered .condition (·.values prepare) c.onlyIf) := by
  have hkeyword : IsQuiet " IF " := .of_plain (by decide)
  have hclauses := Fragment.isLaidOut_clauses .condition hkeyword h
  unfold RowUpdate.conditional layout
  split
  next hrequires =>
    have hnone : c.onlyIf = [] := by simpa [hrequires] using hconflict
    rw [hnone]
    exact Fragment.isLaidOut_text (.of_plain (by decide))
  next =>
    split
    next hnone =>
      rw [List.isEmpty_iff.1 hnone] at hclauses
      exact hclauses
    next => exact hclauses

/-- The order of the rows is a list of names. -/
theorem Ordering.isQuiet_cql (orderings : List Ordered) :
    IsQuiet (fragment (orderings.map (·.ordering))).cql := by
  unfold fragment
  split
  next => exact .of_plain (by decide)
  next =>
    have hcomma : IsQuiet ", " := .of_plain (by decide)
    refine .append (.of_plain (by decide)) (hcomma.intercalate ?_)
    intro s hs
    rw [List.map_map] at hs
    obtain ⟨o, -, rfl⟩ := List.mem_map.1 hs
    have hdirection : IsQuiet o.direction.cql := by
      refine .of_plain ?_
      cases o.direction <;> decide
    exact (o.node.column.isQuiet_cql.append (.of_plain (by decide))).append hdirection

theorem Ordering.fragment_eq (os : List Ordering) : fragment os = .text (fragment os).cql := by
  unfold fragment
  split
  next => rfl
  next => rfl

/-! ## Statements that could be built -/

/-- The clauses of a statement do not matter to its layout, in which the filters stand. -/
theorem Select.layout_filters (clauses : List Clause) (s : Select) (fs : List Filter) :
    { s with filters := clauses }.layout fs = s.layout fs := rfl

theorem Select.isLaidOut_fragment {s : Select} {fs : List Filter} (htable : IsQuiet s.table)
    (hselected : ∀ name ∈ s.selection.names, IsQuiet name)
    (horder : IsQuiet (Ordering.fragment s.orderings).cql)
    (hfilters : fs.mapM (·.clause prepare) = .ok s.filters) :
    s.fragment.IsLaidOut (s.layout fs) (Place.numbered .filter (·.values prepare) fs) := by
  have hkeyword : IsQuiet " WHERE " := .of_plain (by decide)
  have hwhere := Fragment.isLaidOut_clauses .filter hkeyword hfilters
  have horder := Fragment.isLaidOut_text horder
  rw [← Ordering.fragment_eq] at horder
  unfold fragment layout
  dsimp only
  refine (((Fragment.IsLaidOut.append (Fragment.isLaidOut_text ?_) hwhere).append_frame
    horder).append_frame (Fragment.isLaidOut_text ?_)).append_frame (Fragment.isLaidOut_text ?_)
  · refine .append (.append (.append (.of_plain (by decide)) ?_) (.of_plain (by decide))) htable
    revert hselected
    cases s.selection with
    | columns names =>
      intro hselected
      have hcomma : IsQuiet ", " := .of_plain (by decide)
      exact hcomma.intercalate hselected
    | count =>
      intro _
      exact .of_plain (by decide)
  · cases s.limit with
    | some n => exact .append (.of_plain (by decide)) (isQuiet_repr n.toInt)
    | none => exact .of_plain (by decide)
  · cases s.allowsFiltering with
    | false => exact .of_plain (by decide)
    | true => exact .of_plain (by decide)

/-- A select binds the values of its filters. -/
theorem Query.isLaidOut_of_statement {α : Type} {q : Query α} {st : Statement}
    (h : q.statement prepare = .ok st) :
    ∃ e, q.entity = .ok e ∧ st.fragment.IsLaidOut (q.layout e.table.cql)
      (Place.numbered .filter (·.values prepare) q.conditions.filters) := by
  obtain ⟨e, clauses, he, -, hclauses, rfl⟩ := of_statement h
  refine ⟨e, he, ?_⟩
  rw [Statement.fragment, layout, ← Select.layout_filters clauses]
  refine Select.isLaidOut_fragment ?_ ?_ ?_ hclauses
  · exact e.table.isQuiet_cql
  · intro name hname
    obtain ⟨n, -, rfl⟩ := List.mem_map.1 hname
    exact n.column.isQuiet_cql
  · exact Ordering.isQuiet_cql q.orderings

theorem RowCount.isLaidOut_of_statement {c : RowCount} {st : Statement}
    (h : c.statement prepare = .ok st) :
    ∃ e, c.entity.or c.conditions.firstEntity? = some e ∧
      st.fragment.IsLaidOut (c.layout e.table.cql)
        (Place.numbered .filter (·.values prepare) c.conditions.filters) := by
  obtain ⟨e, clauses, he, -, hclauses, rfl⟩ := eq_of_statement h
  refine ⟨e, he, ?_⟩
  rw [Statement.fragment, layout, ← Select.layout_filters clauses]
  refine Select.isLaidOut_fragment ?_ ?_ ?_ hclauses
  · exact e.table.isQuiet_cql
  · intro name hname
    exact absurd hname List.not_mem_nil
  · exact Ordering.isQuiet_cql []

/-- The names of a row's columns stand together, and so do their markers. -/
theorem RowInsert.isLaidOut_row (prepare : ValuePreparer) {table : String} (htable : IsQuiet table)
    (values : List (Node × Cell)) :
    Fragment.IsLaidOut
      ⟨"INSERT INTO " ++ table ++ " (" ++
          String.intercalate ", " (values.map fun p => p.1.column.cql) ++ ") VALUES (" ++
          String.intercalate ", " (values.map fun _ => "?") ++ ")",
        values.map fun p => prepare.cell p.1 p.2⟩
      (frame ("INSERT INTO " ++ table ++ " (") ++
        numbered .written ", " (fun p => p.1.column.cql) values ++ frame ") VALUES (" ++
        numbered .written ", " (fun _ => "?") values ++ frame ")")
      (Place.numbered .written (fun p => [prepare.cell p.1 p.2]) values) := by
  have hhead : IsQuiet ("INSERT INTO " ++ table ++ " (") :=
    .append (.append (.of_plain (by decide)) htable) (.of_plain (by decide))
  have hbetween : IsQuiet ") VALUES (" := .of_plain (by decide)
  have hclosing : IsQuiet ")" := .of_plain (by decide)
  have hcomma : IsQuiet ", " := .of_plain (by decide)
  have hnames := Fragment.isLaidOut_join .written hcomma (fun p => p.1.column.cql) (fun _ => [])
    (fun p a => p.1.column.isQuiet_cql _ a) values
  have hmarkers := Fragment.isLaidOut_join .written hcomma (fun _ => "?")
    (fun p => [prepare.cell p.1 p.2]) (fun _ a => reads_marker a) values
  rw [Place.numbered_none] at hnames
  have hrow := ((((Fragment.isLaidOut_text hhead).append hnames).append
    (Fragment.isLaidOut_text hbetween)).append hmarkers).append_frame
      (Fragment.isLaidOut_text hclosing)
  refine ⟨hrow.chars.trans ?_, hrow.reads, Eq.trans ?_ hrow.values⟩
  · simp only [Fragment.cql_append, Fragment.cql_join, List.map_map, Function.comp_def]
    rfl
  · simp only [Fragment.values_append, Fragment.values_join, List.flatMap_map]
    rw [List.flatMap_eq_nil_iff.2 fun _ _ => rfl, ← List.map_eq_flatMap]
    exact (List.append_nil _).symm

/-- An insert binds what it writes, in the order in which it names the columns. -/
theorem RowInsert.isLaidOut_of_statement {i : RowInsert} {st : Statement}
    (h : i.statement prepare = .ok st) :
    ∃ e, i.entity = .ok e ∧ st.fragment.IsLaidOut (i.layout e.table.cql)
      (Place.numbered .written (fun p => [prepare.cell p.1 p.2]) i.values) := by
  obtain ⟨e, he, rfl⟩ := of_statement h
  have hrow := isLaidOut_row prepare e.table.isQuiet_cql i.values
  have hcondition : IsQuiet (if i.requiresNoRow then " IF NOT EXISTS" else "") := by
    cases i.requiresNoRow with
    | false => exact .of_plain (by decide)
    | true => exact .of_plain (by decide)
  refine ⟨e, he, Fragment.IsLaidOut.append_frame (Fragment.IsLaidOut.append_frame ?_
    (Fragment.isLaidOut_text hcondition)) (Using.isLaidOut_fragment ⟨i.ttl, i.timestamp⟩)⟩
  simp only [ValuePreparer.cells, List.map_map]
  exact hrow

/-- An update binds what it writes, then the values of its filters, then those of its conditions. -/
theorem RowUpdate.isLaidOut_of_statement {u : RowUpdate} {st : Statement}
    (h : u.statement prepare = .ok st) :
    ∃ e, u.entity = .ok e ∧ st.fragment.IsLaidOut (u.layout e.table.cql)
      (Place.numbered .written (fun p => [p.2.value p.1 prepare]) u.changes ++
        Place.numbered .filter (·.values prepare) u.conditions.filters ++
        Place.numbered .condition (·.values prepare) u.conditions.onlyIf) := by
  obtain ⟨e, clauses, onlyIf, he, -, hclauses, honlyIf, -, hconflict, rfl⟩ := eq_of_statement h
  refine ⟨e, he, ?_⟩
  have hupdate : IsQuiet ("UPDATE " ++ e.table.cql) :=
    .append (.of_plain (by decide)) e.table.isQuiet_cql
  have hchanges : (u.changes.map fun p => p.2.assignment p.1 prepare).map Assignment.fragment =
      u.changes.map fun p => ⟨p.2.text p.1.column.cql, [p.2.value p.1 prepare]⟩ := by
    rw [List.map_map]
    exact List.map_congr_left fun p _ => p.2.fragment_assignment p.1 prepare
  have hcomma : IsQuiet ", " := .of_plain (by decide)
  have hset := Fragment.isLaidOut_join .written hcomma (fun p => p.2.text p.1.column.cql)
    (fun p => [p.2.value p.1 prepare]) (fun p a => p.2.reads_text a p.1) u.changes
  rw [← hchanges] at hset
  have hkeyword : IsQuiet " WHERE " := .of_plain (by decide)
  have hwhere := Fragment.isLaidOut_clauses .filter hkeyword hclauses
  exact (((((Fragment.isLaidOut_text hupdate).append_frame
    (Using.isLaidOut_fragment ⟨u.ttl, u.timestamp⟩)).append_frame
      (Fragment.isLaidOut_text (.of_plain (by decide)))).append hset).append hwhere).append
        (Conditions.isLaidOut_conditional hconflict honlyIf)

/-- A delete binds the values of its filters and conditions, and one of all rows binds nothing. -/
theorem RowDelete.isLaidOut_of_statement {d : RowDelete} {st : Statement}
    (h : d.statement prepare = .ok st) :
    st.fragment.IsLaidOut (d.layout d.entity.table.cql) (if d.isTruncate then [] else
      Place.numbered .filter (·.values prepare) d.conditions.filters ++
        Place.numbered .condition (·.values prepare) d.conditions.onlyIf) := by
  unfold layout
  obtain ⟨-, ⟨htruncate, rfl⟩ | ⟨clauses, onlyIf, hrows, hclauses, honlyIf, hconflict, rfl⟩⟩ :=
    eq_of_statement h
  · rw [if_pos htruncate, if_pos htruncate]
    exact Fragment.isLaidOut_text (.append (.of_plain (by decide)) d.entity.table.isQuiet_cql)
  · have hkeyword : IsQuiet " WHERE " := .of_plain (by decide)
    have hwhere := Fragment.isLaidOut_clauses .filter hkeyword hclauses
    have hdelete : IsQuiet ("DELETE FROM " ++ d.entity.table.cql) :=
      .append (.of_plain (by decide)) d.entity.table.isQuiet_cql
    rw [if_neg (Bool.eq_false_iff.1 hrows), if_neg (Bool.eq_false_iff.1 hrows)]
    exact (((Fragment.isLaidOut_text hdelete).append_frame
      (Using.isLaidOut_fragment { timestamp := d.timestamp })).append hwhere).append
        (Conditions.isLaidOut_conditional hconflict honlyIf)

/-- What an operation builds is what its layout says. -/
theorem Call.isLaidOut_of_statement {c : Call} {st : Statement} (h : c.statement prepare = .ok st) :
    ∃ e, c.entity? = some e ∧
      st.fragment.IsLaidOut (c.layout e.table.cql) (c.bindings prepare) := by
  have hentity : ∀ {x : Except Error Entity} {e}, x = .ok e → x.toOption = some e := by
    rintro _ _ rfl
    rfl
  cases c with
  | lookup q =>
    obtain ⟨e, he, hlaid⟩ := Query.isLaidOut_of_statement (q := q.single.query) h
    exact ⟨e, hentity he, hlaid⟩
  | read q =>
    obtain ⟨e, he, hlaid⟩ := Query.isLaidOut_of_statement (q := q) h
    exact ⟨e, hentity he, hlaid⟩
  | count c => exact RowCount.isLaidOut_of_statement (c := c) h
  | insert i =>
    obtain ⟨e, he, hlaid⟩ := RowInsert.isLaidOut_of_statement (i := i) h
    exact ⟨e, hentity he, hlaid⟩
  | update u =>
    obtain ⟨e, he, hlaid⟩ := RowUpdate.isLaidOut_of_statement (u := u) h
    exact ⟨e, hentity he, hlaid⟩
  | delete d => exact ⟨d.entity, rfl, RowDelete.isLaidOut_of_statement h⟩

end

/-- The number of markers in a statement, unless it leaves a quote open. -/
def Statement.markers? (st : Statement) : Option Nat :=
  (LabelledText.of () st.cql).markers.map List.length

/-- Labels do not matter for the number of markers. -/
theorem Statement.markers?_eq {α : Type} {st : Statement} {t : LabelledText α} {ms : List α}
    (hchars : t.chars = st.cql.toList) (hread : Reads t ms) : st.markers? = some ms.length := by
  have hblank : LabelledText.of () st.cql = t.map fun p => (p.1, ()) := by
    rw [LabelledText.of, ← hchars, LabelledText.chars, List.map_map]
    rfl
  rw [markers?, hblank, LabelledText.markers_map (fun _ => ()), hread.markers_eq]
  simp

/-- A statement that could be built has the characters of its operation's layout and binds the
values of the operation's bindings. It has as many markers as values, and no quote stays open. The
markers stand in the places that the values belong to, one by one: the first value has the first
marker, and this stands in the change, the filter or the condition that the value is of, or in the
list of markers where the value's column stands in the list of names. -/
theorem markers_of_statement (prepare : ValuePreparer) {c : Call} {st : Statement}
    (h : c.statement prepare = .ok st) :
    st.markers? = some st.values.length ∧
    ∃ e, c.entity? = some e ∧
      (c.layout e.table.cql).chars = st.cql.toList ∧
      (c.layout e.table.cql).markers = some ((c.bindings prepare).map Prod.fst) ∧
      st.values = (c.bindings prepare).map Prod.snd := by
  obtain ⟨e, he, hlaid⟩ := Call.isLaidOut_of_statement h
  have hvalues : st.values = (c.bindings prepare).map Prod.snd := hlaid.values
  refine ⟨?_, e, he, hlaid.chars, hlaid.reads.markers_eq, hvalues⟩
  rw [Statement.markers?_eq hlaid.chars hlaid.reads, hvalues, List.length_map, List.length_map]

/-! ## Names with quotes and question marks -/

namespace Riddle

/-- A table and a column whose names have quotes and question marks. -/
def entity : Entity :=
  Entity.declare "Riddle" "Riddle" "who? \"me\"?"
    |>.partitionKey "id"
    |>.column "question" |>.withColumnName "\"?"
    |>.column "answers"

/-- Asks another question in two rows, if the question there is another, and adds an answer. -/
def asked : RowUpdate :=
  Restricted.onlyIfEq (Restricted.where_ (RowUpdate.prepend
    (RowUpdate.set {} (t := .text) ⟨entity, "question"⟩ "why?") (t := .text) ⟨entity, "answers"⟩
      "so") (Filter.isIn (t := .int) ⟨entity, "id"⟩ [(4 : Int32), (2 : Int32)]))
    (t := .text) ⟨entity, "question"⟩ "how?"

/-- The five values have their markers, and the names none. -/
theorem markers_asked :
    ∃ st, (Call.update asked).statement .identity = .ok st ∧
      st.cql = "UPDATE \"who? \"\"me\"\"?\" SET \"\"\"?\" = ?, answers = ? + answers " ++
        "WHERE id IN (?, ?) IF \"\"\"?\" = ?" ∧
      st.values = [some (.text "why?"), some (.list [.text "so"]), some (.int 4), some (.int 2),
        some (.text "how?")] ∧
      ((Call.update asked).layout "\"who? \"\"me\"\"?\"").markers =
        some [.written 0, .written 1, .filter 0, .filter 0, .condition 0] ∧
      st.markers? = some 5 := by
  obtain ⟨hcount, e, he, -, hmarkers, hvalues⟩ :=
    markers_of_statement .identity (c := .update asked) rfl
  obtain rfl : entity = e := Option.some.inj he
  exact ⟨_, rfl, by decide +kernel, hvalues.trans rfl, hmarkers.trans rfl, hcount.trans rfl⟩

end Riddle

end WideRow
