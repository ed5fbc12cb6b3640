import Mathlib.Data.List.Induction
import Mathlib.Data.List.Nodup
import WideRow.Proofs.DataTypes
import WideRow.Proofs.Upkeep

/-!
# Which rows a cache key tells apart

A cache key is the names and short forms of a shape's columns, one after the other, and nothing
in them is escaped. A text may hold anything, the end of a key included. All other short forms
are closed, so that a key can be read from the left up to the first text, and from the right
down to the last one.

> `Entity.keysTell_iff`: the keys of a shape tell the values of its columns apart exactly if at
> most one column is a text and none is a collection of texts.

Two texts cannot be told apart, whatever the other columns are: what stands between them in the
key may as well belong to either.
-/

namespace WideRow

open Text

/-! ## Keys as texts -/

/-- The key of columns with these texts. -/
def fieldsKey (textOf : Node → String) (shape : List Node) : String :=
  String.intercalate ";" (shape.map fun n => n.column.name ++ "==" ++ textOf n)

/-- The text of a column's value. -/
def Cell.text (c : Cell) : String := (c.map Value.display).getD ""

theorem Facet.bind?_eq (cellOf : Node → Cell) (shape : List Node) :
    Facet.bind? (m := Id) cellOf shape = (Entity.shapePairs? cellOf shape).map .columns :=
  congrArg (Option.map Facet.columns) (Entity.boundPairs_pure (m := Id) shape)

/-- A key has the texts of all columns, which all have values. -/
theorem Facet.of_bind? {cellOf : Node → Cell} {shape : List Node} {f : Facet}
    (h : Facet.bind? (m := Id) cellOf shape = some f) :
    (∀ n ∈ shape, ∃ v, cellOf n = some v) ∧ f.key = fieldsKey (fun n => (cellOf n).text) shape := by
  have hpairs : ∀ {shape : List Node} {ps : List (String × String)},
      Entity.shapePairs? cellOf shape = some ps → (∀ n ∈ shape, ∃ v, cellOf n = some v) ∧
        ps = shape.map fun n => (n.column.name, (cellOf n).text) := by
    intro shape
    induction shape with
    | nil =>
      intro ps hps
      cases hps
      exact ⟨List.forall_mem_nil _, rfl⟩
    | cons n shape ih =>
      intro ps hps
      rw [Entity.shapePairs?_cons] at hps
      obtain ⟨v, hv, hps⟩ := Option.bind_eq_some_iff.1 hps
      obtain ⟨rest, hrest, rfl⟩ := Option.map_eq_some_iff.1 hps
      obtain ⟨hbound, rfl⟩ := ih hrest
      refine ⟨List.forall_mem_cons.2 ⟨⟨v, hv⟩, hbound⟩, ?_⟩
      rw [List.map_cons, hv]
      rfl
  obtain ⟨ps, hps, rfl⟩ := Option.map_eq_some_iff.1 ((Facet.bind?_eq cellOf shape).symm.trans h)
  obtain ⟨hbound, rfl⟩ := hpairs hps
  refine ⟨hbound, ?_⟩
  rw [Facet.key, Facet.pairs, List.map_map]
  rfl

section

variable {g h : Node → String} {shape : List Node}

/-- What a key has behind its first column. -/
def laterFields (textOf : Node → String) (shape : List Node) : List Char :=
  joinedRest ";" (shape.map fun n => n.column.name ++ "==" ++ textOf n)

/-- The key of a shape has the first column, its value, and then the others. -/
theorem toList_fieldsKey_cons (n : Node) : (fieldsKey g (n :: shape)).toList =
    n.column.name.toList ++ '=' :: '=' :: ((g n).toList ++ laterFields g shape) := by
  rw [fieldsKey, List.map_cons, toList_intercalate_cons]
  simp [laterFields]

/-- What follows a value begins with a semicolon, which stands in no closed text outside quotes. -/
theorem stops_laterFields : Stops (laterFields g shape) := by
  cases shape with
  | nil => exact stops_nil
  | cons n shape => exact stops_cons (by decide) _

/-- A closed text at the left end of two equal keys is the same in both. -/
theorem fieldsKey_cons_inj {n : Node} (hg : Closed (g n)) (hh : Closed (h n))
    (heq : fieldsKey g (n :: shape) = fieldsKey h (n :: shape)) :
    g n = h n ∧ fieldsKey g shape = fieldsKey h shape := by
  have hchars := congrArg String.toList heq
  rw [toList_fieldsKey_cons, toList_fieldsKey_cons, List.append_cancel_left_eq, List.cons.injEq,
    List.cons.injEq] at hchars
  obtain ⟨htext, hlater⟩ := hg.append_inj hh stops_laterFields stops_laterFields hchars.2.2
  refine ⟨htext, ?_⟩
  cases shape with
  | nil => rfl
  | cons m shape =>
    rw [laterFields, laterFields, List.map_cons, List.map_cons, joinedRest, joinedRest,
      List.append_cancel_left_eq, String.toList_inj] at hlater
    exact hlater

/-- A closed text at the right end of two equal keys is the same in both. -/
theorem fieldsKey_append_inj {n m : Node} (hg : Closed (g n)) (hh : Closed (h n))
    (heq : fieldsKey g (m :: shape ++ [n]) = fieldsKey h (m :: shape ++ [n])) :
    g n = h n ∧ fieldsKey g (m :: shape) = fieldsKey h (m :: shape) := by
  have hsplit : ∀ textOf : Node → String, (fieldsKey textOf (m :: shape ++ [n])).toList =
      ((fieldsKey textOf (m :: shape)).toList ++ ';' :: (n.column.name.toList ++ ['='])) ++
        '=' :: (textOf n).toList := by
    intro textOf
    rw [fieldsKey, List.map_append, String.intercalate_append_of_ne_nil (by simp) (by simp),
      ← fieldsKey]
    simp
  have hchars := congrArg String.toList heq
  rw [hsplit, hsplit] at hchars
  obtain ⟨hfront, htext⟩ := hg.append_inj_left hh hchars
  rw [List.append_left_inj, String.toList_inj] at hfront
  exact ⟨htext, hfront⟩

/-- Behind the first column all closed texts are the same in both, and so is what is left. -/
theorem text_eq_of_first {n : Node} (hclosed : ∀ m ∈ shape, Closed (g m) ∧ Closed (h m))
    (heq : fieldsKey g (n :: shape) = fieldsKey h (n :: shape)) :
    ∀ m ∈ n :: shape, g m = h m := by
  induction shape using List.reverseRecOn with
  | nil =>
    have hpart : n.column.name ++ "==" ++ g n = n.column.name ++ "==" ++ h n := by
      simpa [fieldsKey] using heq
    exact List.forall_mem_singleton.2 ((String.append_right_inj _).1 hpart)
  | append_singleton shape m ih =>
    rw [List.forall_mem_append] at hclosed
    have hm := hclosed.2 m (List.mem_singleton_self m)
    obtain ⟨htext, hrest⟩ := fieldsKey_append_inj hm.1 hm.2 heq
    rw [← List.cons_append, List.forall_mem_append]
    exact ⟨ih hclosed.1 hrest, List.forall_mem_singleton.2 htext⟩

/-- Of columns of which all but one have closed texts, equal keys have equal texts. -/
theorem text_eq_of_fieldsKey (isRaw : Node → Bool)
    (hclosed : ∀ m ∈ shape, isRaw m = false → Closed (g m) ∧ Closed (h m))
    (hone : shape.countP isRaw ≤ 1) (heq : fieldsKey g shape = fieldsKey h shape) :
    ∀ m ∈ shape, g m = h m := by
  induction shape with
  | nil => exact List.forall_mem_nil _
  | cons n shape ih =>
    rw [List.forall_mem_cons] at hclosed
    cases hn : isRaw n with
    | false =>
      rw [List.countP_cons_of_neg (by simp [hn])] at hone
      obtain ⟨htext, hrest⟩ := fieldsKey_cons_inj (hclosed.1 hn).1 (hclosed.1 hn).2 heq
      exact List.forall_mem_cons.2 ⟨htext, ih hclosed.2 hone hrest⟩
    | true =>
      rw [List.countP_cons_of_pos hn] at hone
      have hnone := List.countP_eq_zero.1 (Nat.le_zero.1 (Nat.le_of_succ_le_succ hone))
      exact text_eq_of_first (fun m hm => hclosed.2 m hm (by simpa using hnone m hm)) heq

end

/-! ## Keys of types -/

/-- Every value that the columns have is of the column's type. -/
def HasTypes (types : Node → DataType) (shape : List Node) (cellOf : Node → Cell) : Prop :=
  ∀ n ∈ shape, ∀ v, cellOf n = some v → (types n).Holds v

/-- A key of the shape tells the values of all its columns. -/
def KeysTell (types : Node → DataType) (shape : List Node) : Prop :=
  ∀ cellOf cellOf' : Node → Cell, HasTypes types shape cellOf → HasTypes types shape cellOf' →
    ∀ f f' : Facet, Facet.bind? (m := Id) cellOf shape = some f →
      Facet.bind? (m := Id) cellOf' shape = some f' → f.key = f'.key →
        ∀ n ∈ shape, cellOf n = cellOf' n

/-- The types for which keys tell values: no collection of texts, and at most one text. -/
structure IsTelling (types : Node → DataType) (shape : List Node) : Prop where
  told : ∀ n ∈ shape, (types n).isTold = true
  oneText : (shape.countP fun n => (types n).isRaw) ≤ 1

section

variable {types : Node → DataType} {shape : List Node}

/-- With one text among closed ones, every value can be told from the key. -/
theorem IsTelling.keysTell (htypes : IsTelling types shape) : KeysTell types shape := by
  intro cellOf cellOf' hc hc' f f' hf hf' hkey
  obtain ⟨hbound, hkf⟩ := Facet.of_bind? hf
  obtain ⟨hbound', hkf'⟩ := Facet.of_bind? hf'
  rw [hkf, hkf'] at hkey
  have htext : ∀ n ∈ shape, (cellOf n).text = (cellOf' n).text := by
    refine text_eq_of_fieldsKey (fun n => (types n).isRaw) (fun n hn hraw => ?_)
      htypes.oneText hkey
    have hframed : (types n).isFramed = true := by
      have htold := htypes.told n hn
      rwa [DataType.isTold, hraw, Bool.false_or] at htold
    obtain ⟨v, hv⟩ := hbound n hn
    obtain ⟨v', hv'⟩ := hbound' n hn
    rw [hv, hv']
    exact ⟨(DataType.isItem_display hframed (hc n hn v hv)).closed,
      (DataType.isItem_display hframed (hc' n hn v' hv')).closed⟩
  intro n hn
  obtain ⟨v, hv⟩ := hbound n hn
  obtain ⟨v', hv'⟩ := hbound' n hn
  have hdisplay := htext n hn
  rw [hv, hv'] at hdisplay ⊢
  exact congrArg some (DataType.textTells_iff.2 (htypes.told n hn) v v' (hc n hn v hv)
    (hc' n hn v' hv') hdisplay)

/-! ## Where keys do not tell -/

/-- Columns that all have values have a key. -/
theorem Facet.exists_bind? (values : Node → Value) (shape : List Node) :
    ∃ f, Facet.bind? (m := Id) (fun n => some (values n)) shape = some f := by
  have hpairs : ∃ ps, Entity.shapePairs? (fun n => some (values n)) shape = some ps := by
    induction shape with
    | nil => exact ⟨[], rfl⟩
    | cons n shape ih =>
      obtain ⟨ps, hps⟩ := ih
      rw [Entity.shapePairs?_cons, hps]
      exact ⟨_, rfl⟩
  obtain ⟨ps, hps⟩ := hpairs
  exact ⟨.columns ps, (Facet.bind?_eq ..).trans (congrArg (Option.map Facet.columns) hps)⟩

/-- Two lists of values with one key, of which the shape's columns cannot be told. -/
theorem not_keysTell (values values' : Node → Value) (hv : ∀ n ∈ shape, (types n).Holds (values n))
    (hv' : ∀ n ∈ shape, (types n).Holds (values' n)) {n : Node} (hn : n ∈ shape)
    (hne : values n ≠ values' n)
    (hkey : fieldsKey (fun n => (values n).display) shape =
      fieldsKey (fun n => (values' n).display) shape) : ¬ KeysTell types shape := by
  intro htell
  obtain ⟨f, hf⟩ := Facet.exists_bind? values shape
  obtain ⟨f', hf'⟩ := Facet.exists_bind? values' shape
  have heq := htell _ _ (fun n hn v h => by cases h; exact hv n hn)
    (fun n hn v h => by cases h; exact hv' n hn) f f' hf hf'
    (by rw [(Facet.of_bind? hf).2, (Facet.of_bind? hf').2]; exact hkey) n hn
  exact hne (Option.some.inj heq)

/-- A column whose values are not told makes the key ambiguous. -/
theorem isTold_of_keysTell (htell : KeysTell types shape) {n : Node} (hn : n ∈ shape) :
    (types n).isTold = true := by
  by_contra hnot
  obtain ⟨v, w, hv, hw, hne, hsame⟩ := DataType.exists_same_text (by simpa using hnot)
  refine not_keysTell (fun m => if m = n then v else (types m).sample)
    (fun m => if m = n then w else (types m).sample) (fun m _ => ?_) (fun m _ => ?_) hn
    (by simpa using hne) ?_ htell
  · split
    case isTrue h => rw [h]; exact hv
    case isFalse => exact DataType.holds_sample _
  · split
    case isTrue h => rw [h]; exact hw
    case isFalse => exact DataType.holds_sample _
  · congr 1
    funext m
    split
    case isTrue => exact hsame
    case isFalse => rfl

/-- What is behind the last item of a joined text is behind the text. -/
theorem intercalate_last (bs : List String) (b y : String) :
    String.intercalate ";" (bs ++ [b ++ y]) = String.intercalate ";" (bs ++ [b]) ++ y := by
  cases bs with
  | nil => simp
  | cons s bs =>
    rw [String.intercalate_append_of_ne_nil (by simp) (by simp),
      String.intercalate_append_of_ne_nil (by simp) (by simp)]
    simp [String.append_assoc]

/-- Items that follow one another can be joined first. -/
theorem intercalate_middle (as : List String) {ms : List String} (hms : ms ≠ [])
    (cs : List String) : String.intercalate ";" (as ++ (ms ++ cs)) =
      String.intercalate ";" (as ++ String.intercalate ";" ms :: cs) := by
  have hright : String.intercalate ";" (ms ++ cs) =
      String.intercalate ";" (String.intercalate ";" ms :: cs) := by
    cases cs with
    | nil => simp
    | cons c cs =>
      rw [String.intercalate_append_of_ne_nil hms (List.cons_ne_nil c cs),
        String.intercalate_cons_of_ne_nil (List.cons_ne_nil c cs)]
  cases as with
  | nil => exact hright
  | cons s as =>
    rw [String.intercalate_append_of_ne_nil (List.cons_ne_nil s as)
        (List.append_ne_nil_of_left_ne_nil hms cs), hright,
      String.intercalate_append_of_ne_nil (List.cons_ne_nil s as) (List.cons_ne_nil _ cs)]

/-- What stands between the values of two columns may stand in either. -/
theorem exists_clash (as : List String) (a : String) (bs : List String) (b : String)
    (cs : List String) : ∃ t, t ≠ "" ∧
      String.intercalate ";" (as ++ (a ++ "") :: (bs ++ (b ++ t) :: cs)) =
        String.intercalate ";" (as ++ (a ++ t) :: (bs ++ (b ++ "") :: cs)) := by
  -- the two columns with what stands between them, as one item of the whole
  have hmiddle : ∀ x y, String.intercalate ";" ((a ++ x) :: (bs ++ [b ++ y])) =
      a ++ (x ++ (";" ++ String.intercalate ";" (bs ++ [b])) ++ y) := by
    intro x y
    rw [String.intercalate_cons_of_ne_nil (by simp), intercalate_last]
    simp [String.append_assoc]
  have hsplit : ∀ x y, as ++ (a ++ x) :: (bs ++ (b ++ y) :: cs) =
      as ++ (((a ++ x) :: (bs ++ [b ++ y])) ++ cs) := by simp
  refine ⟨";" ++ String.intercalate ";" (bs ++ [b]), by simp, ?_⟩
  rw [hsplit, hsplit, intercalate_middle as (by simp), intercalate_middle as (by simp), hmiddle,
    hmiddle]
  simp [String.append_assoc]

/-- More than one item that satisfies a condition are two, one before the other. -/
theorem exists_two {α : Type} {p : α → Bool} : ∀ {l : List α}, 1 < l.countP p →
    ∃ as x bs y cs, l = as ++ x :: (bs ++ y :: cs) ∧ p x = true ∧ p y = true
  | [], h => by simp at h
  | x :: l, h => by
    cases hx : p x with
    | true =>
      rw [List.countP_cons_of_pos hx] at h
      obtain ⟨y, hy, hpy⟩ := List.countP_pos_iff.1 (Nat.lt_of_succ_lt_succ h)
      obtain ⟨bs, cs, rfl⟩ := List.append_of_mem hy
      exact ⟨[], x, bs, y, cs, rfl, hx, hpy⟩
    | false =>
      rw [List.countP_cons_of_neg (by simp [hx])] at h
      obtain ⟨as, x', bs, y, cs, rfl, hx', hy⟩ := exists_two h
      exact ⟨x :: as, x', bs, y, cs, rfl, hx', hy⟩

/-- A column with the value of a sample. -/
def samplePart (types : Node → DataType) (k : Node) : String :=
  k.column.name ++ "==" ++ (types k).sample.display

/-- Values of which two are free texts; all others are those of samples. -/
def textValues (types : Node → DataType) (n m : Node) (x y : String) (k : Node) : Value :=
  if k = n then (types n).ofText x else if k = m then (types m).ofText y else (types k).sample

theorem holds_textValues {n m : Node} (hn : (types n).isRaw = true) (hm : (types m).isRaw = true)
    (x y : String) (k : Node) : (types k).Holds (textValues types n m x y k) := by
  unfold textValues
  split
  case isTrue h => rw [h]; exact DataType.holds_ofText hn x
  case isFalse =>
    split
    case isTrue h => rw [h]; exact DataType.holds_ofText hm y
    case isFalse => exact DataType.holds_sample _

/-- A text in a column that shows texts as they are may look like anything. -/
theorem display_textValues_left (n m : Node) (x y : String) :
    (textValues types n m x y n).display = x := by
  rw [textValues, if_pos rfl, DataType.display_ofText]

theorem display_textValues_right {n m : Node} (hne : m ≠ n) (x y : String) :
    (textValues types n m x y m).display = y := by
  rw [textValues, if_neg hne, if_pos rfl, DataType.display_ofText]

/-- The values of all other columns stay. -/
theorem map_textValues {n m : Node} {ks : List Node} (hks : ∀ k ∈ ks, k ≠ n ∧ k ≠ m)
    (x y : String) :
    (ks.map fun k => k.column.name ++ "==" ++ (textValues types n m x y k).display) =
      ks.map (samplePart types) := by
  refine List.map_congr_left fun k hk => ?_
  rw [textValues, if_neg (hks k hk).1, if_neg (hks k hk).2, samplePart]

/-- Two texts make the key ambiguous. -/
theorem oneText_of_keysTell (hnodup : shape.Nodup) (htell : KeysTell types shape) :
    (shape.countP fun n => (types n).isRaw) ≤ 1 := by
  by_contra hmany
  obtain ⟨as, n, bs, m, cs, rfl, hn, hm⟩ := exists_two (Nat.lt_of_not_le hmany)
  obtain ⟨hne, has, hbs, hcs⟩ : m ≠ n ∧ (∀ k ∈ as, k ≠ n ∧ k ≠ m) ∧ (∀ k ∈ bs, k ≠ n ∧ k ≠ m) ∧
      ∀ k ∈ cs, k ≠ n ∧ k ≠ m := by
    grind [List.nodup_append, List.nodup_cons]
  obtain ⟨t, ht, hclash⟩ := exists_clash (as.map (samplePart types)) (n.column.name ++ "==")
    (bs.map (samplePart types)) (m.column.name ++ "==") (cs.map (samplePart types))
  have hfields : ∀ x y, fieldsKey (fun k => (textValues types n m x y k).display)
      (as ++ n :: (bs ++ m :: cs)) =
        String.intercalate ";" (as.map (samplePart types) ++ (n.column.name ++ "==" ++ x) ::
          (bs.map (samplePart types) ++ (m.column.name ++ "==" ++ y) ::
            cs.map (samplePart types))) := by
    intro x y
    rw [fieldsKey, List.map_append, List.map_cons, List.map_append, List.map_cons,
      display_textValues_left, display_textValues_right hne, map_textValues has,
      map_textValues hbs, map_textValues hcs]
  refine not_keysTell (textValues types n m "" t) (textValues types n m t "")
    (fun k _ => holds_textValues hn hm _ _ k) (fun k _ => holds_textValues hn hm _ _ k) (n := n)
    (by simp) ?_ ?_ htell
  · intro heq
    have htext := congrArg Value.display heq
    rw [display_textValues_left, display_textValues_left] at htext
    exact ht htext.symm
  · rw [hfields, hfields]
    exact hclash

end

/-! ## The shapes of an entity -/

namespace Entity

variable {e : Entity} {types : Node → DataType} {shape shape' : List Node}

/-- No two columns of an entity have one name. -/
theorem nodup_nodes (e : Entity) : e.nodes.Nodup := by
  refine List.Nodup.map (fun i j h => ?_) (List.nodup_finRange _)
  simpa using h

/-- An entity has the primary key as a shape, and each unique column outside it. -/
theorem mem_keyShapes : shape ∈ e.keyShapes ↔ e.primaryKey ≠ [] ∧ shape = e.primaryKey ∨
    ∃ n ∈ e.nodes, n.property.isUnique = true ∧ n.property.isPrimaryKey = false ∧ shape = [n] := by
  rw [keyShapes, List.mem_append]
  refine or_congr ?_ ?_
  · cases h : e.primaryKey <;> simp
  · simp only [List.mem_map, List.mem_filter, Bool.and_eq_true, Bool.not_eq_true']
    constructor
    · rintro ⟨n, ⟨hn, hu, hp⟩, rfl⟩
      exact ⟨n, hn, hu, hp, rfl⟩
    · rintro ⟨n, hn, hu, hp, rfl⟩
      exact ⟨n, ⟨hn, hu, hp⟩, rfl⟩

theorem mem_primaryKey {n : Node} :
    n ∈ e.primaryKey ↔ n ∈ e.nodes ∧ n.property.isPrimaryKey = true := by
  simp only [primaryKey, List.mem_append, List.mem_filter, Property.isPrimaryKey, Bool.or_eq_true]
  tauto

/-- A shape has no column twice. -/
theorem nodup_keyShape (h : shape ∈ e.keyShapes) : shape.Nodup := by
  rcases mem_keyShapes.1 h with ⟨-, rfl⟩ | ⟨n, -, -, -, rfl⟩
  · refine List.Nodup.append (e.nodup_nodes.filter _) (e.nodup_nodes.filter _) ?_
    intro n hn hn'
    have hpart := (List.mem_filter.1 hn).2
    have hcluster := (List.mem_filter.1 hn').2
    rw [eq_of_beq hpart] at hcluster
    cases hcluster
  · exact List.nodup_singleton n

theorem mem_nodes_of_keyShape (h : shape ∈ e.keyShapes) {n : Node} (hn : n ∈ shape) :
    n ∈ e.nodes := by
  rcases mem_keyShapes.1 h with ⟨-, rfl⟩ | ⟨m, hm, -, -, rfl⟩
  · exact (mem_primaryKey.1 hn).1
  · rw [List.mem_singleton.1 hn]
    exact hm

/-- Two shapes begin with different columns. -/
theorem heads_ne (h : shape ∈ e.keyShapes) (h' : shape' ∈ e.keyShapes) (hne : shape ≠ shape') :
    ∃ n ns n' ns', shape = n :: ns ∧ shape' = n' :: ns' ∧ n ≠ n' := by
  have hpk : ∀ {m : Node}, m.property.isPrimaryKey = false → ∃ n ns, e.primaryKey ≠ [] →
      e.primaryKey = n :: ns ∧ n ≠ m := by
    intro m hm
    cases hkey : e.primaryKey with
    | nil => exact ⟨m, [], fun h => absurd rfl h⟩
    | cons n ns =>
      refine ⟨n, ns, fun _ => ⟨rfl, ?_⟩⟩
      rintro rfl
      have hn : n ∈ e.primaryKey := by rw [hkey]; exact List.mem_cons_self ..
      rw [(mem_primaryKey.1 hn).2] at hm
      cases hm
  rcases mem_keyShapes.1 h with ⟨hk, rfl⟩ | ⟨m, -, -, hm, rfl⟩ <;>
    rcases mem_keyShapes.1 h' with ⟨hk', rfl⟩ | ⟨m', -, -, hm', rfl⟩
  · exact absurd rfl hne
  · obtain ⟨n, ns, hn⟩ := hpk hm'
    exact ⟨n, ns, m', [], (hn hk).1, rfl, (hn hk).2⟩
  · obtain ⟨n, ns, hn⟩ := hpk hm
    exact ⟨m, [], n, ns, rfl, (hn hk').1, (hn hk').2.symm⟩
  · exact ⟨m, [], m', [], rfl, rfl, fun he => hne (by rw [he])⟩

/-- Names from which a key can be told: no name, with the equals signs behind it, begins another
that has them too. -/
def HasTellingNames (e : Entity) : Prop :=
  ∀ n ∈ e.nodes, ∀ m ∈ e.nodes, n ≠ m →
    ¬ (n.column.name ++ "==").toList <+: (m.column.name ++ "==").toList

/-- It is enough that no two columns have one name, and that no name has an equals sign. -/
theorem HasTellingNames.of_plain
    (hdistinct : ∀ n ∈ e.nodes, ∀ m ∈ e.nodes, n.column.name = m.column.name → n = m)
    (hplain : ∀ n ∈ e.nodes, '=' ∉ n.column.name.toList) : e.HasTellingNames := by
  intro n hn m hm hne hbegins
  have hname : ∀ {k : Node} (rest : List Char), k ∈ e.nodes →
      ((k.column.name ++ "==").toList ++ rest).takeWhile (· != '=') = k.column.name.toList := by
    intro k rest hk
    rw [String.toList_append, List.append_assoc, List.takeWhile_append_of_pos fun c hc => ?_]
    · simp
    · rw [bne_iff_ne]
      rintro rfl
      exact hplain k hk hc
  obtain ⟨rest, hrest⟩ := hbegins
  have hsame := hname [] hm
  rw [List.append_nil, ← hrest, hname rest hn] at hsame
  exact hne (hdistinct n hn m hm (String.toList_inj.1 hsame))

/-- A key begins with the name of its first column and the equals signs. -/
theorem prefix_key {n : Node} {cellOf : Node → Cell} {f : Facet}
    (hf : Facet.bind? (m := Id) cellOf (n :: shape) = some f) :
    (n.column.name ++ "==").toList <+: f.key.toList := by
  rw [(Facet.of_bind? hf).2, toList_fieldsKey_cons]
  exact ⟨((cellOf n).text.toList ++ laterFields (fun n => (cellOf n).text) shape), by simp⟩

/-- Keys of different shapes are different. -/
theorem key_ne (hnames : e.HasTellingNames) (h : shape ∈ e.keyShapes) (h' : shape' ∈ e.keyShapes)
    (hne : shape ≠ shape') {cellOf cellOf' : Node → Cell} {f f' : Facet}
    (hf : Facet.bind? (m := Id) cellOf shape = some f)
    (hf' : Facet.bind? (m := Id) cellOf' shape' = some f') : f.key ≠ f'.key := by
  intro heq
  obtain ⟨n, ns, n', ns', rfl, rfl, hheads⟩ := heads_ne h h' hne
  have hn := mem_nodes_of_keyShape h (List.mem_cons_self ..)
  have hn' := mem_nodes_of_keyShape h' (List.mem_cons_self ..)
  have hbegins := prefix_key hf
  rw [heq] at hbegins
  rcases List.prefix_or_prefix_of_prefix hbegins (prefix_key hf') with h | h
  · exact hnames n hn n' hn' hheads h
  · exact hnames n' hn' n hn hheads.symm h

/-- Without such names the keys of two columns with texts can be the same. -/
theorem exists_same_key {n m : Node} (hn : (types n).isRaw = true) (hm : (types m).isRaw = true)
    (hbegins : (n.column.name ++ "==").toList <+: (m.column.name ++ "==").toList) :
    ∃ (cellOf cellOf' : Node → Cell) (f f' : Facet), HasTypes types [n] cellOf ∧
      HasTypes types [m] cellOf' ∧ Facet.bind? (m := Id) cellOf [n] = some f ∧
        Facet.bind? (m := Id) cellOf' [m] = some f' ∧ f.key = f'.key := by
  obtain ⟨rest, hrest⟩ := hbegins
  obtain ⟨f, hf⟩ := Facet.exists_bind? (fun k => (types k).ofText (String.ofList rest)) [n]
  obtain ⟨f', hf'⟩ := Facet.exists_bind? (fun k => (types k).ofText "") [m]
  have hholds : ∀ {k : Node} {s : String}, (types k).isRaw = true →
      HasTypes types [k] fun k => some ((types k).ofText s) := by
    intro k s hk x hx v hv
    rw [List.mem_singleton.1 hx] at hv
    cases hv
    rw [List.mem_singleton.1 hx]
    exact DataType.holds_ofText hk s
  refine ⟨_, _, f, f', hholds hn, hholds hm, hf, hf', ?_⟩
  rw [(Facet.of_bind? hf).2, (Facet.of_bind? hf').2]
  simpa [fieldsKey, Cell.text, DataType.display_ofText, ← String.toList_inj] using hrest

/-- The keys of a shape tell values exactly if at most one of its columns is a text and none is a
collection of texts. -/
theorem keysTell_iff (h : shape ∈ e.keyShapes) :
    KeysTell types shape ↔ IsTelling types shape :=
  ⟨fun htell => ⟨fun _ hn => isTold_of_keysTell htell hn,
    oneText_of_keysTell (nodup_keyShape h) htell⟩, IsTelling.keysTell⟩

/-! ## Rows -/

/-- A row with as many cells as columns, and with values of the columns' types. -/
structure Fits (e : Entity) (types : Node → DataType) (r : Row) : Prop where
  full : r.IsFull
  typed : HasTypes types e.nodes r.valueAt

/-- Every key shape has a column in which the rows do not have one value: in a table without unique
columns, the rows have different primary keys. -/
def Apart (e : Entity) (r r' : Row) : Prop :=
  ∀ shape ∈ e.keyShapes, ∃ n ∈ shape, ∀ v, r.valueAt n = some v → r'.valueAt n ≠ some v

/-- Two rows that share a key have the same values in all columns of one shape. -/
theorem values_eq_of_shared (hnames : e.HasTellingNames)
    (htypes : ∀ shape ∈ e.keyShapes, IsTelling types shape) {r r' : Row} (hr : e.Fits types r)
    (hr' : e.Fits types r') {key : String} (hkey : key ∈ e.shapeKeys r.valueAt)
    (hkey' : key ∈ e.shapeKeys r'.valueAt) :
    ∃ shape ∈ e.keyShapes, ∀ n ∈ shape, ∃ v, r.valueAt n = some v ∧ r'.valueAt n = some v := by
  obtain ⟨shape, hshape, ps, hps, hk⟩ := mem_shapeKeys.1 hkey
  obtain ⟨shape', hshape', ps', hps', hk'⟩ := mem_shapeKeys.1 hkey'
  have heq : (Facet.columns ps).key = (Facet.columns ps').key := by
    rw [← hk', pairsKey, pairsKey, String.append_right_inj] at hk
    exact hk
  have hbind := (Facet.bind?_eq r.valueAt shape).trans (congrArg (Option.map Facet.columns) hps)
  have hbind' := (Facet.bind?_eq r'.valueAt shape').trans (congrArg (Option.map Facet.columns) hps')
  by_cases hsame : shape = shape'
  · subst hsame
    have htyped : ∀ {r : Row}, e.Fits types r → HasTypes types shape r.valueAt :=
      fun hr n hn => hr.typed n (mem_nodes_of_keyShape hshape hn)
    refine ⟨shape, hshape, fun n hn => ?_⟩
    obtain ⟨v, hv⟩ := (Facet.of_bind? hbind).1 n hn
    have hvalues := (htypes shape hshape).keysTell _ _ (htyped hr) (htyped hr') _ _ hbind hbind' heq
    exact ⟨v, hv, by rw [← hvalues n hn, hv]⟩
  · exact absurd heq (key_ne hnames hshape hshape' hsame hbind hbind')

/-- Rows that are apart share no key. -/
theorem Apart.not_mem (hnames : e.HasTellingNames)
    (htypes : ∀ shape ∈ e.keyShapes, IsTelling types shape) {r r' : Row} (hr : e.Fits types r)
    (hr' : e.Fits types r') (hapart : e.Apart r r') {key : String}
    (hkey' : key ∈ e.shapeKeys r'.valueAt) : key ∉ e.shapeKeys r.valueAt := by
  intro hkey
  obtain ⟨shape, hshape, hvalues⟩ := values_eq_of_shared hnames htypes hr hr' hkey hkey'
  obtain ⟨n, hn, hne⟩ := hapart shape hshape
  obtain ⟨v, hv, hv'⟩ := hvalues n hn
  exact hne v hv hv'

/-- Under a key that is bound neither before nor after, a merge changes nothing. -/
theorem rows_merge {r after : Row} (hr : r.IsFull) (hafter : after.IsFull) {use : CacheUse}
    {c : SessionCache} {keys unknown : List String} {known : Row} (hkeys : keys ≠ [])
    (hbefore : (c.get? keys).getD .empty = r)
    (hmerged : (do (← r.merge known).removeAll unknown) = .ok after) {key : String}
    (hnot : key ∉ e.shapeKeys r.valueAt) (hnot' : key ∉ e.shapeKeys after.valueAt) :
    ((⟨use, some e⟩ : CachePolicy).merge c keys known unknown).2.rows[key]? = c.rows[key]? := by
  obtain ⟨b, hupdate⟩ :=
    update_of_full (e := e) use (c.invalidate (e.shapeKeys r.valueAt)) hafter
  rw [Keyring.merge_of_ok hkeys (by rw [hbefore]; exact keysOfRow_of_full use hr)
    (by rw [hbefore]; exact hmerged) hupdate, SessionCache.rows_put, if_neg hnot',
    SessionCache.rows_invalidate, if_neg hnot]

/-- What is kept of the row `r` leaves a key of the row `r'` alone: no entry or tombstone replaces
what is under it, no row is merged into it, and it does not go when the keys of `r` go. -/
structure Spares (e : Entity) (types : Node → DataType) (use : CacheUse) (r r' : Row)
    (keys : List String) (key : String) : Prop where
  other : key ∉ keys
  update : ∀ c b c', (⟨use, some e⟩ : CachePolicy).update c r = .ok (b, c') →
    c'.rows[key]? = c.rows[key]?
  invalidate : ∀ c : SessionCache, (c.invalidate keys).rows[key]? = c.rows[key]?
  put : ∀ (u : UnitOfWork) (entry : UnitEntry), (u.put keys entry).entries[key]? = u.entries[key]?
  merge : ∀ c asked known unknown after, asked ≠ [] → (c.get? asked).getD .empty = r →
    (do (← r.merge known).removeAll unknown) = .ok after → e.Fits types after → e.Apart after r' →
      ((⟨use, some e⟩ : CachePolicy).merge c asked known unknown).2.rows[key]? = c.rows[key]?

/-- Rows that are apart spare each other's keys. -/
theorem Apart.spares (hnames : e.HasTellingNames)
    (htypes : ∀ shape ∈ e.keyShapes, IsTelling types shape) {r r' : Row} (hr : e.Fits types r)
    (hr' : e.Fits types r') (hapart : e.Apart r r') {use : CacheUse} {keys keys' : List String}
    (hkeys : (⟨use, some e⟩ : CachePolicy).keysOfRow r = .ok keys)
    (hkeys' : (⟨use, some e⟩ : CachePolicy).keysOfRow r' = .ok keys') {key : String}
    (hkey : key ∈ keys') : e.Spares types use r r' keys key := by
  rw [keysOfRow_of_full use hr.full, Except.ok.injEq] at hkeys
  rw [keysOfRow_of_full use hr'.full, Except.ok.injEq] at hkeys'
  subst hkeys
  subst hkeys'
  have hnot := hapart.not_mem hnames htypes hr hr' hkey
  refine ⟨hnot, fun c b c' hupdate => ?_, fun c => ?_, fun u entry => ?_, ?_⟩
  · obtain ⟨b', hput⟩ := update_of_full (e := e) use c hr.full
    rw [hput, Except.ok.injEq, Prod.mk.injEq] at hupdate
    rw [← hupdate.2, SessionCache.rows_put, if_neg hnot]
  · rw [SessionCache.rows_invalidate, if_neg hnot]
  · rw [UnitOfWork.entries_put, if_neg hnot]
  · intro c asked known unknown after hasked hbefore hmerged hafter hapart'
    exact rows_merge hr.full hafter.full hasked hbefore hmerged hnot
      (hapart'.not_mem hnames htypes hafter hr' hkey)

/-- What keys tell. The key of a shape tells the values of all its columns exactly if none of them
is a collection of texts and at most one is a text. Keys of two shapes are never equal. And where
all shapes tell, nothing that is kept of one row touches what is kept of a row that is apart from
it. -/
theorem keys_identify (hnames : e.HasTellingNames) :
    (∀ shape ∈ e.keyShapes, KeysTell types shape ↔ IsTelling types shape) ∧
    (∀ shape ∈ e.keyShapes, ∀ shape' ∈ e.keyShapes, shape ≠ shape' →
      ∀ (cellOf cellOf' : Node → Cell) (f f' : Facet),
        Facet.bind? (m := Id) cellOf shape = some f →
          Facet.bind? (m := Id) cellOf' shape' = some f' → f.key ≠ f'.key) ∧
    ((∀ shape ∈ e.keyShapes, IsTelling types shape) → ∀ r r', e.Fits types r → e.Fits types r' →
      e.Apart r r' → ∀ (use : CacheUse) (keys keys' : List String),
        (⟨use, some e⟩ : CachePolicy).keysOfRow r = .ok keys →
        (⟨use, some e⟩ : CachePolicy).keysOfRow r' = .ok keys' →
          ∀ key ∈ keys', e.Spares types use r r' keys key) := by
  refine ⟨fun shape h => keysTell_iff h, ?_, ?_⟩
  · exact fun shape h shape' h' hne _ _ _ _ hf hf' => key_ne hnames h h' hne hf hf'
  · exact fun htypes r r' hr hr' hapart use keys keys' hkeys hkeys' key hkey =>
      hapart.spares hnames htypes hr hr' hkeys hkeys' hkey

end Entity

namespace Reading

/-- A table of measurements. Two texts would be too many for its key; one is not. -/
def entity : Entity :=
  ((((((Entity.declare "reading" "Reading" "readings").cacheable true).partitionKey "sensor"
    ).partitionKey "label").clusteringColumn "at" .ascending).column "marks").unique

/-- The types of its columns. -/
def types (n : Node) : DataType :=
  match n.column.name with
  | "sensor" => .plain .uuid
  | "label" => .plain .text
  | "at" => .plain .timestamp
  | _ => .list (.plain .map)

/-- A measurement without marks. -/
def row (label : String) (at_ : Int64) : Row :=
  .ofPairs [("sensor", some (.uuid ⟨0⟩)), ("label", some (.text label)),
    ("at", some (.timestamp at_)), ("marks", none)]

theorem fits (label : String) (at_ : Int64) : entity.Fits types (row label at_) where
  full := Row.isFull_ofPairs _
  typed := by
    intro n hn v hv
    obtain ⟨i, -, rfl⟩ := List.mem_map.1 hn
    match i, hv with
    | ⟨0, _⟩, hv => cases hv; rfl
    | ⟨1, _⟩, hv => cases hv; rfl
    | ⟨2, _⟩, hv => cases hv; rfl
    | ⟨3, _⟩, hv => cases hv

theorem hasTellingNames : entity.HasTellingNames :=
  .of_plain (by decide +kernel) (by decide +kernel)

theorem isTelling : ∀ shape ∈ entity.keyShapes, IsTelling types shape := by
  have htold : ∀ shape ∈ entity.keyShapes, ∀ n ∈ shape, (types n).isTold = true := by
    decide +kernel
  have hone : ∀ shape ∈ entity.keyShapes, (shape.countP fun n => (types n).isRaw) ≤ 1 := by
    decide +kernel
  exact fun shape h => ⟨htold shape h, hone shape h⟩

theorem apart {label label' : String} (h : label ≠ label') (at_ : Int64) :
    entity.Apart (row label at_) (row label' at_) := by
  intro shape hshape
  rcases Entity.mem_keyShapes.1 hshape with ⟨-, rfl⟩ | ⟨n, hn, -, hkey, rfl⟩
  · refine ⟨⟨entity, ⟨1, by decide⟩⟩, by decide +kernel, fun v hv hv' => h ?_⟩
    have hlabel : some (Value.text label) = some (Value.text label') := hv.trans hv'.symm
    simpa using hlabel
  · refine ⟨n, List.mem_singleton_self n, fun v hv => ?_⟩
    obtain ⟨i, -, rfl⟩ := List.mem_map.1 hn
    match i, hkey with
    | ⟨3, _⟩, _ => cases hv

/-- A label that looks like the end of a key spares the row whose key has that end. -/
theorem spares_lookalike : entity.HasTellingNames ∧
    (∀ shape ∈ entity.keyShapes, IsTelling types shape) ∧
    entity.Fits types (row "a" 1) ∧
    entity.Fits types (row "a;at==Timestamp(CqlTimestamp(1))" 1) ∧
    entity.Apart (row "a" 1) (row "a;at==Timestamp(CqlTimestamp(1))" 1) ∧
    ∃ keys keys',
      (⟨.fetch, some entity⟩ : CachePolicy).keysOfRow (row "a" 1) = .ok keys ∧
      (⟨.fetch, some entity⟩ : CachePolicy).keysOfRow
        (row "a;at==Timestamp(CqlTimestamp(1))" 1) = .ok keys' ∧
      keys' ≠ [] ∧
      ∀ key ∈ keys', entity.Spares types .fetch (row "a" 1)
        (row "a;at==Timestamp(CqlTimestamp(1))" 1) keys key := by
  have hlabel : "a" ≠ "a;at==Timestamp(CqlTimestamp(1))" := by decide
  have hapart := apart hlabel 1
  have hkeys := fun label => Entity.keysOfRow_of_full (e := entity) .fetch (fits label 1).full
  exact ⟨hasTellingNames, isTelling, fits .., fits .., hapart, _, _, hkeys _, hkeys _,
    by decide +kernel, (Entity.keys_identify hasTellingNames).2.2 isTelling _ _ (fits ..) (fits ..)
      hapart .fetch _ _ (hkeys _) (hkeys _)⟩

end Reading

end WideRow
