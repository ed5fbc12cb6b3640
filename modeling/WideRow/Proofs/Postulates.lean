import WideRow.Filter
import WideRow.Proofs.Encoding
import WideRow.Sample.Entities

/-!
# Postulates that were checked

A postulate is checked when it is made and rendered when its statement is built, the one by
`ColumnType.encode` and the other by `ColumnType.cell`. A value that passes the check has the cell
that is bound later, so the error that rendering knows for a value without a cell never comes up,
and a filter for equality has a value for the keys of the caches.

> `of_eq_ok`, `ofMany_eq_ok`, `ofMany_eq_error`: what passes the check, and which value is at fault
> where nothing does.
>
> `checked_gives_clause`: the two encodings agree, and every postulate that was made becomes the
> clause of its values' cells, prepared in their order.
-/

namespace WideRow

/-- Items that all have a result of a kind have a list of results. -/
theorem exists_map_eq {α β γ : Type} {f : α → γ} {g : β → γ} : ∀ {as : List α},
    (∀ a ∈ as, ∃ b, f a = g b) → ∃ bs : List β, as.map f = bs.map g
  | [], _ => ⟨[], rfl⟩
  | a :: as, h => by
    obtain ⟨b, hb⟩ := h a (List.mem_cons_self ..)
    obtain ⟨bs, hbs⟩ := exists_map_eq fun a' ha' => h a' (List.mem_cons_of_mem a ha')
    exact ⟨b :: bs, by rw [List.map_cons, List.map_cons, hb, hbs]⟩

namespace Postulate

variable {t : ColumnType} {op : Operator} {v : t.Carrier} {vs : List t.Carrier} {i : Nat}
  {p : Postulate t}

/-! ## The check -/

/-- A value passes the check for every operator but the one for lists, if it has a cell. -/
theorem of_eq_ok : of op v = .ok p ↔
    op ≠ .isIn ∧ (∃ c, t.encode v = .ok (some c)) ∧ p = single op v := by
  unfold of
  by_cases hop : op = .isIn
  · simp [hop]
  · rw [if_neg hop]
    cases t.encode v with
    | error e => simp
    | ok c =>
      cases c with
      | none => simp
      | some c => simp [hop, eq_comm]

/-- What is wrong with one of several values, if anything is. -/
def faultOf? (index : Nat) (v : t.Carrier) : Option ArgumentFault :=
  match t.encode v with
  | .ok (some _) => none
  | .ok none => some (.emptyAt index)
  | .error e => some (.invalidAt index e)

/-- A value is at fault unless it has a cell. -/
theorem faultOf?_eq_none : faultOf? i v = none ↔ ∃ c, t.encode v = .ok (some c) := by
  unfold faultOf?
  cases t.encode v with
  | error e => simp
  | ok c => cases c <;> simp

/-- An empty value and one that cannot be encoded are at fault in different ways. -/
theorem faultOf?_eq_some {fault : ArgumentFault} : faultOf? i v = some fault ↔
    t.encode v = .ok none ∧ fault = .emptyAt i ∨
      ∃ e, t.encode v = .error e ∧ fault = .invalidAt i e := by
  unfold faultOf?
  cases t.encode v with
  | error e => simp [eq_comm]
  | ok c => cases c <;> simp [eq_comm]

/-- The first fault of a list counts. -/
theorem faultOfMany?_cons : faultOfMany? i (v :: vs) =
    (faultOf? i v).or (faultOfMany? (i + 1) vs) := by
  rw [faultOfMany?, faultOf?]
  cases t.encode v with
  | error e => rfl
  | ok c => cases c <;> rfl

/-- A list is without fault if all of its values are. -/
theorem faultOfMany?_eq_none : ∀ {i : Nat} {vs : List t.Carrier},
    faultOfMany? i vs = none ↔ ∀ v ∈ vs, ∃ c, t.encode v = .ok (some c)
  | _, [] => by simp [faultOfMany?]
  | i, v :: vs => by
    rw [faultOfMany?_cons, Option.or_eq_none_iff, faultOf?_eq_none, faultOfMany?_eq_none,
      List.forall_mem_cons]

/-- The first value that has something wrong with it is the one reported. -/
theorem faultOfMany?_eq_some {fault : ArgumentFault} : ∀ {i : Nat} {vs : List t.Carrier},
    faultOfMany? i vs = some fault ↔ ∃ before v after, vs = before ++ v :: after ∧
      (∀ x ∈ before, ∃ c, t.encode x = .ok (some c)) ∧
      faultOf? (i + before.length) v = some fault
  | _, [] => by simp [faultOfMany?]
  | i, v :: vs => by
    rw [faultOfMany?_cons, Option.or_eq_some_iff, faultOf?_eq_none, faultOfMany?_eq_some]
    constructor
    · rintro (hv | ⟨hv, before, x, after, rfl, hbefore, hx⟩)
      · exact ⟨[], v, vs, rfl, by simp, hv⟩
      · refine ⟨v :: before, x, after, rfl, List.forall_mem_cons.2 ⟨hv, hbefore⟩, ?_⟩
        rwa [List.length_cons, Nat.add_comm before.length, ← Nat.add_assoc]
    · rintro ⟨before, x, after, hvs, hbefore, hx⟩
      -- the faulty value is the first one, or stands among the others with one less before it
      cases before with
      | nil =>
        obtain ⟨rfl, rfl⟩ := List.cons.inj hvs
        exact .inl hx
      | cons first before =>
        obtain ⟨rfl, rfl⟩ := List.cons.inj hvs
        obtain ⟨hfirst, hbefore⟩ := List.forall_mem_cons.1 hbefore
        refine .inr ⟨hfirst, before, x, after, rfl, hbefore, ?_⟩
        rwa [List.length_cons, Nat.add_comm before.length, ← Nat.add_assoc] at hx

/-- A list passes the check for the one operator for lists, if it is not empty and all of its values
pass. -/
theorem ofMany_eq_ok : ofMany op vs = .ok p ↔ op = .isIn ∧ vs ≠ [] ∧
    (∀ v ∈ vs, ∃ c, t.encode v = .ok (some c)) ∧ p = many vs := by
  unfold ofMany
  by_cases hop : op = .isIn
  · by_cases hnil : vs = []
    · simp [hop, hnil]
    · rw [if_neg (Classical.not_not.2 hop), if_neg (by simpa using hnil),
        ← faultOfMany?_eq_none (i := 0)]
      cases faultOfMany? 0 vs with
      | none => simp [hop, hnil, eq_comm]
      | some fault => simp
  · simp [hop]

/-- Several values fail with the first one that has no cell, or a null for one. -/
theorem ofMany_eq_error (hvs : vs ≠ []) {fault : ArgumentFault} :
    ofMany .isIn vs = .error (.invalidArgument fault) ↔
      ∃ before v after, vs = before ++ v :: after ∧
        (∀ x ∈ before, ∃ c, t.encode x = .ok (some c)) ∧
        (t.encode v = .ok none ∧ fault = .emptyAt before.length ∨
          ∃ e, t.encode v = .error e ∧ fault = .invalidAt before.length e) := by
  have hfaults := @faultOfMany?_eq_some t fault 0 vs
  simp only [Nat.zero_add, faultOf?_eq_some] at hfaults
  rw [← hfaults, ofMany, if_neg (by simp), if_neg (by simpa using hvs)]
  cases faultOfMany? 0 vs with
  | none => simp
  | some fault => simp

/-! ## The clause -/

variable {n : Node} {prepare : ValuePreparer}

/-- The cell that the check has seen is bound. -/
theorem bound_of_encode {c : Value} (h : t.encode v = .ok (some c)) :
    bound n prepare v = .ok (prepare n c) := by
  rw [bound, ColumnType.cell_of_encode h]

/-- A value that passed gives a clause with one marker. -/
theorem clause_single {c : Value} (h : t.encode v = .ok (some c)) :
    (single op v).clause n prepare = .ok ⟨n.column.cql, op, [prepare n c]⟩ := by
  rw [clause, bound_of_encode h]
  rfl

/-- A list that passed gives a clause with a marker for each value. -/
theorem clause_many {cs : List Value} (h : vs.map t.encode = cs.map fun c => .ok (some c)) :
    (many vs).clause n prepare = .ok ⟨n.column.cql, .isIn, cs.map (prepare n)⟩ := by
  rw [clause, mapM_of_map_eq (fun _ _ hc => bound_of_encode hc) h]
  rfl

/-- An equality is known by its prepared value. -/
theorem equality?_single {c : Value} (h : t.encode v = .ok (some c)) :
    (⟨n, t, single .eq v⟩ : Filter).equality? prepare = some (prepare n c) := by
  rw [Filter.equality?]
  show (t.cell v).map (prepare n) = some (prepare n c)
  rw [ColumnType.cell_of_encode h]
  rfl

/-- In every type the cell of a value is its encoding, null where that fails, and encoding fails
with the first element that is encoded as null in a collection inside the value, depth first. A
postulate with one value is made for every operator but membership, and for every value with a cell
other than null; one with several values for membership, and for every list that is not empty and
of such values, or else the first other value is reported. A postulate that was made becomes a
clause for every column and preparer: the values' cells in their order, prepared. A filter for
equality asks for the cell that its clause has. -/
theorem checked_gives_clause (t : ColumnType) :
    (∀ v : t.Carrier, t.cell v = (t.encode v).toOption.join) ∧
    (∀ v : t.Carrier, t.isNull v = true ↔ t.encode v = .ok none) ∧
    (∀ (v : t.Carrier) (e : ValueError),
      t.encode v = .error e ↔ (t.nullElements v).head?.map ValueError.ofNull = some e) ∧
    (∀ (op : Operator) (v : t.Carrier), (∃ p, of op v = .ok p) ↔
      op ≠ .isIn ∧ ∃ c, t.encode v = .ok (some c)) ∧
    (∀ (op : Operator) (vs : List t.Carrier), (∃ p, ofMany op vs = .ok p) ↔
      op = .isIn ∧ vs ≠ [] ∧ ∀ v ∈ vs, ∃ c, t.encode v = .ok (some c)) ∧
    (∀ (vs : List t.Carrier) (fault : ArgumentFault), vs ≠ [] →
      (ofMany .isIn vs = .error (.invalidArgument fault) ↔
        ∃ before v after, vs = before ++ v :: after ∧
          (∀ x ∈ before, ∃ c, t.encode x = .ok (some c)) ∧
          (t.encode v = .ok none ∧ fault = .emptyAt before.length ∨
            ∃ e, t.encode v = .error e ∧ fault = .invalidAt before.length e))) ∧
    (∀ (op : Operator) (v : t.Carrier) (p : Postulate t), of op v = .ok p →
      ∃ c, t.encode v = .ok (some c) ∧ ∀ (n : Node) (prepare : ValuePreparer),
        p.clause n prepare = .ok ⟨n.column.cql, op, [prepare n c]⟩ ∧
        (op = .eq → (⟨n, t, p⟩ : Filter).equality? prepare = some (prepare n c))) ∧
    (∀ (op : Operator) (vs : List t.Carrier) (p : Postulate t), ofMany op vs = .ok p →
      ∃ cs : List Value, (vs.map t.encode = cs.map fun c => .ok (some c)) ∧
        ∀ (n : Node) (prepare : ValuePreparer),
          p.clause n prepare = .ok ⟨n.column.cql, .isIn, cs.map (prepare n)⟩) := by
  refine ⟨t.cell_eq, fun v => (ColumnType.encode_eq_none_iff t v).symm,
    ColumnType.encode_eq_error_iff t, ?_, ?_, fun vs fault hvs => ofMany_eq_error hvs, ?_, ?_⟩
  · intro op v
    constructor
    · rintro ⟨p, hp⟩
      exact ⟨(of_eq_ok.1 hp).1, (of_eq_ok.1 hp).2.1⟩
    · rintro ⟨hop, hv⟩
      exact ⟨_, of_eq_ok.2 ⟨hop, hv, rfl⟩⟩
  · intro op vs
    constructor
    · rintro ⟨p, hp⟩
      obtain ⟨hop, hvs, hall, -⟩ := ofMany_eq_ok.1 hp
      exact ⟨hop, hvs, hall⟩
    · rintro ⟨hop, hvs, hall⟩
      exact ⟨_, ofMany_eq_ok.2 ⟨hop, hvs, hall, rfl⟩⟩
  · intro op v p hp
    obtain ⟨-, ⟨c, hc⟩, rfl⟩ := of_eq_ok.1 hp
    refine ⟨c, hc, fun n prepare => ⟨clause_single hc, ?_⟩⟩
    rintro rfl
    exact equality?_single hc
  · intro op vs p hp
    obtain ⟨-, -, hall, rfl⟩ := ofMany_eq_ok.1 hp
    obtain ⟨cs, hcs⟩ := exists_map_eq (g := fun c => Except.ok (some c)) hall
    exact ⟨cs, hcs, fun n prepare => clause_many hcs⟩

/-- A list of two tags and an empty one are asked for. With a list that holds a null among them
they are not. -/
theorem tags_checked :
    let t : ColumnType := .list (.option .text)
    let tags : Node := ⟨Account.entity, ⟨3, by decide⟩⟩
    (∃ p : Postulate t, ofMany (t := t) .isIn [[some "b", some "a"], []] = .ok p ∧
      p.clause tags (fun _ v => v) =
        .ok ⟨tags.column.cql, .isIn, [.list [.text "b", .text "a"], .list []]⟩) ∧
    ofMany (t := t) .isIn [[], [some "b", none], [none]] =
      .error (.invalidArgument (.invalidAt 1 (.nullElement .list 1))) := by
  intro t tags
  obtain ⟨-, -, -, -, hmany, hfault, -, hclause⟩ := checked_gives_clause t
  constructor
  · obtain ⟨p, hp⟩ := (hmany .isIn [[some "b", some "a"], []]).2 ⟨rfl, by simp, fun v hv => by
      rcases List.mem_cons.1 hv with rfl | hv
      · exact ⟨_, rfl⟩
      · rw [List.mem_singleton.1 hv]
        exact ⟨_, rfl⟩⟩
    obtain ⟨cs, hcs, hprepared⟩ := hclause .isIn _ p hp
    have hcells : [.list [.text "b", .text "a"], .list []] = cs :=
      (List.map_inj_right fun _ _ h => Option.some.inj (Except.ok.inj h)).1 hcs
    refine ⟨p, hp, ?_⟩
    rw [hprepared, ← hcells]
    rfl
  · refine (hfault _ _ (by simp)).2 ⟨[[]], [some "b", none], [[none]], rfl, ?_, .inr ⟨_, rfl, rfl⟩⟩
    intro v hv
    rw [List.mem_singleton.1 hv]
    exact ⟨_, rfl⟩

end Postulate

end WideRow
