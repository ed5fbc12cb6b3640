import WideRow.Proofs.Projection
import WideRow.Proofs.Resolution
import WideRow.Proofs.Statements
import WideRow.Proofs.Table

/-!
# Rows that mirror records

A cached row is right if, of the columns that it has, each holds what the table's record holds:
`Row.Mirrors`. The caches keep rows right in the four ways in which rows are made, and there is
a lemma for each: a row that was read and completed by the values its filters asked for
(`Mirrors.completed`), one row laid over another (`Mirrors.merge`), and a row that follows an
INSERT (`Mirrors.inserted`) or an UPDATE (`Mirrors.updated`).

> `reply_of_accepted`: a row that is right, and that a lookup accepts, gives the item that the
> table would have given.

An UPDATE takes away the columns that it changes element by element, and a column is only taken
away for good if it does not repeat. The columns for which this matters are the `once` of a
statement here.
-/

namespace WideRow

namespace Row

/-- Of the columns that a row has, each holds what the record holds, and those in `once` do not
repeat. -/
structure Mirrors (once : List String) (r : Row) (ρ : Record) : Prop where
  full : r.IsFull
  cell : ∀ c x, r.cell? c = some x → x = ρ c
  once : ∀ c ∈ once, r.HasOnce c

variable {once : List String} {r : Row} {ρ : Record}

/-- A row without columns shows nothing false. -/
theorem mirrors_empty (once : List String) (ρ : Record) : Row.empty.Mirrors once ρ where
  full := isFull_empty
  cell c x h := by
    rw [cell?_empty] at h
    exact absurd h (by simp)
  once c _ := hasOnce_empty c

/-- A row that was just read shows its record. -/
theorem mirrors_row {columns : List String} (h : ∀ c ∈ once, columns.count c ≤ 1) (ρ : Record) :
    (ρ.row columns).Mirrors once ρ where
  full := Record.isFull_row ρ columns
  cell c x hx := by
    rw [Record.cell?_row] at hx
    split at hx
    · exact (Option.some.inj hx).symm
    · exact absurd hx (by simp)
  once c hc := by
    show ((columns.map fun c => (c, ρ c)).map Prod.fst).count c ≤ 1
    rw [List.map_map]
    have hid : (Prod.fst ∘ fun c => (c, ρ c)) = fun c : String => c := rfl
    rw [hid, List.map_id'']
    · exact h c hc
    · exact fun _ => rfl

theorem pairs_row {columns : List String} {p : String × Cell} (h : p ∈ (ρ.row columns).pairs) :
    p.2 = ρ p.1 := by
  rw [Record.row, pairs_ofPairs] at h
  obtain ⟨c, -, rfl⟩ := List.mem_map.1 h
  rfl

/-- A column that the row has holds what the record holds. -/
theorem Mirrors.cell_eq (h : r.Mirrors once ρ) {c : String} (hc : r.cell? c ≠ none) :
    r.cell? c = some (ρ c) := by
  cases hx : r.cell? c with
  | none => exact absurd hx hc
  | some x => rw [h.cell c x hx]

/-! ## One row over another -/

/-- Where the pairs for a column do not differ, the last one is like the first. -/
theorem lookup_reverse_of_all {ps : List (String × Cell)} (h : ∀ p ∈ ps, p.2 = ρ p.1)
    (c : String) : ps.reverse.lookup c = (ps.lookup c).map fun _ => ρ c := by
  cases hx : ps.lookup c with
  | none =>
    rw [List.lookup_eq_none_iff] at hx
    exact List.lookup_eq_none_iff.2 fun p hp => hx p (List.mem_reverse.1 hp)
  | some x =>
    have hsome : (ps.reverse.lookup c).isSome = true := by
      rw [List.lookup_isSome_iff]
      exact ⟨(c, x), List.mem_reverse.2 (mem_of_lookup hx), by simp⟩
    obtain ⟨y, hy⟩ := Option.isSome_iff_exists.1 hsome
    have hmem : (c, y) ∈ ps := List.mem_reverse.1 (mem_of_lookup hy)
    rw [hy, show y = ρ c from h _ hmem]
    rfl

/-- A row whose pairs are all of a record, laid over another row. -/
theorem merge_of_all (h : r.IsFull) {other : Row} (hother : ∀ p ∈ other.pairs, p.2 = ρ p.1) :
    ∃ r', r.merge other = .ok r' ∧ r'.IsFull ∧
      (∀ c, r'.cell? c = ((other.cell? c).map fun _ => ρ c).or (r.cell? c)) ∧
      ∀ c, r.HasOnce c → r'.HasOnce c := by
  obtain ⟨r', hr', hfull, hcell, honce⟩ := merge_spec h other
  refine ⟨r', hr', hfull, fun c => ?_, honce⟩
  rw [hcell, lookup_reverse_of_all hother]
  rfl

/-- What is merged in shows the same record, and all columns of both are there. -/
theorem Mirrors.merge (h : r.Mirrors once ρ) {other : Row}
    (hother : ∀ p ∈ other.pairs, p.2 = ρ p.1) :
    ∃ r', r.merge other = .ok r' ∧ r'.Mirrors once ρ ∧
      ∀ c, r.cell? c ≠ none ∨ other.cell? c ≠ none → r'.cell? c = some (ρ c) := by
  obtain ⟨r', hr', hfull, hcell, honce⟩ := merge_of_all h.full hother
  refine ⟨r', hr', ⟨hfull, fun c x hx => ?_, fun c hc => honce c (h.once c hc)⟩, fun c hc => ?_⟩
  · rw [hcell] at hx
    cases hy : other.cell? c with
    | none =>
      rw [hy] at hx
      exact h.cell c x hx
    | some y =>
      rw [hy] at hx
      exact (Option.some.inj hx).symm
  · rw [hcell]
    cases hy : other.cell? c with
    | none => exact h.cell_eq (hc.resolve_right fun hne => hne hy)
    | some y => rfl

/-! ## Rows that were read -/

/-- A row with a cell for a column that it may lack. -/
def orElse (r : Row) (q : String × Cell) : Row :=
  if r.contains q.1 then r else ⟨r.columns ++ [q.1], r.cells ++ [q.2]⟩

/-- A column that is there stays, and one that is not there is added. -/
theorem orElse_spec (h : r.IsFull) (q : String × Cell) :
    (r.orElse q).IsFull ∧ (∀ c, (r.orElse q).cell? c = (r.cell? c).or ([q].lookup c)) ∧
      (∀ c, r.HasOnce c → (r.orElse q).HasOnce c) ∧
      ∀ p ∈ (r.orElse q).pairs, p ∈ r.pairs ∨ p = q := by
  obtain ⟨column, x⟩ := q
  unfold orElse
  by_cases hin : r.contains column = true
  · rw [if_pos hin]
    refine ⟨h, fun c => ?_, fun _ hc => hc, fun _ hp => .inl hp⟩
    by_cases hc : c = column
    · rw [contains_eq h] at hin
      obtain ⟨y, hy⟩ := Option.isSome_iff_exists.1 hin
      rw [hc, hy]
      rfl
    · have hne : (c == column) = false := by simpa using hc
      simp [List.lookup_cons, hne]
  · rw [if_neg hin]
    have hnot : column ∉ r.columns := by simpa [contains] using hin
    -- a new column goes to the end
    have hpairs : (⟨r.columns ++ [column], r.cells ++ [x]⟩ : Row).pairs =
        r.pairs ++ [(column, x)] := by
      show (r.columns ++ [column]).zip (r.cells ++ [x]) = _
      rw [List.zip_append h.symm]
      rfl
    refine ⟨?_, fun c => ?_, fun c hc => ?_, fun p hp => ?_⟩
    · show (r.cells ++ [x]).length = (r.columns ++ [column]).length
      rw [List.length_append, List.length_append, h]
      rfl
    · rw [cell?, hpairs, List.lookup_append]
      rfl
    · show (r.columns ++ [column]).count c ≤ 1
      rw [List.count_append, List.count_singleton]
      by_cases hcol : column = c
      · subst hcol
        rw [List.count_eq_zero_of_not_mem hnot]
        simp
      · have hne : (column == c) = false := by simpa using hcol
        rw [hne]
        exact hc
    · rw [hpairs, List.mem_append, List.mem_singleton] at hp
      exact hp

/-- Of the cells offered for a column that is missing, the first one is taken. -/
theorem foldl_orElse_spec (h : r.IsFull) (qs : List (String × Cell)) :
    (qs.foldl orElse r).IsFull ∧
      (∀ c, (qs.foldl orElse r).cell? c = (r.cell? c).or (qs.lookup c)) ∧
      (∀ c, r.HasOnce c → (qs.foldl orElse r).HasOnce c) ∧
      ∀ p ∈ (qs.foldl orElse r).pairs, p ∈ r.pairs ∨ p ∈ qs := by
  induction qs generalizing r with
  | nil => exact ⟨h, fun c => by simp, fun _ hc => hc, fun _ hp => .inl hp⟩
  | cons q qs ih =>
    obtain ⟨hfull₁, hcell₁, honce₁, hpairs₁⟩ := orElse_spec h q
    obtain ⟨hfull, hcell, honce, hpairs⟩ := ih hfull₁
    refine ⟨hfull, fun c => ?_, fun c hc => honce c (honce₁ c hc), fun p hp => ?_⟩
    · rw [List.foldl_cons, hcell, hcell₁, Option.or_assoc, ← List.lookup_append]
      rfl
    · rcases hpairs p hp with hp | hp
      · rcases hpairs₁ p hp with hp | rfl
        · exact .inl hp
        · exact .inr (List.mem_cons_self ..)
      · exact .inr (List.mem_cons_of_mem _ hp)

/-- No column loses a place. -/
theorem count_le_foldl_orElse (c : String) (qs : List (String × Cell)) (r : Row) :
    r.columns.count c ≤ (qs.foldl orElse r).columns.count c := by
  induction qs generalizing r with
  | nil => exact Nat.le_refl _
  | cons q qs ih =>
    refine Nat.le_trans ?_ (ih (r.orElse q))
    unfold orElse
    split
    · exact Nat.le_refl _
    · exact (List.sublist_append_left ..).count_le c

end Row

namespace PointQuery.Plan

variable {p : Plan} {once : List String} {ρ : Record}

/-- A row that was fetched gets the columns of the filters that it lacks. -/
theorem completed_spec (p : Plan) {r : Row} (h : r.IsFull) :
    (p.completed r).IsFull ∧
      (∀ c, (p.completed r).cell? c =
        (r.cell? c).or ((cellsOfEqualities p.equalities).lookup c)) ∧
      (∀ c, r.HasOnce c → (p.completed r).HasOnce c) ∧
      ∀ q ∈ (p.completed r).pairs, q ∈ r.pairs ∨ q ∈ cellsOfEqualities p.equalities :=
  Row.foldl_orElse_spec h (cellsOfEqualities p.equalities)

/-- A row that was read, completed by values that the record has. -/
theorem mirrors_completed {columns : List String} (honce : ∀ c ∈ once, columns.count c ≤ 1)
    (heq : ∀ n v, (n, v) ∈ p.equalities → ρ n.column.name = some v) :
    (p.completed (ρ.row columns)).Mirrors once ρ ∧
      (∀ q ∈ (p.completed (ρ.row columns)).pairs, q.2 = ρ q.1) ∧
      ∀ c, (p.completed (ρ.row columns)).cell? c ≠ none ↔
        c ∈ columns ∨ ∃ n v, (n, v) ∈ p.equalities ∧ n.column.name = c := by
  obtain ⟨hfull, hcell, hkeep, hpairs⟩ := p.completed_spec (Record.isFull_row ρ columns)
  have hall : ∀ q ∈ (p.completed (ρ.row columns)).pairs, q.2 = ρ q.1 := by
    intro q hq
    rcases hpairs q hq with hq | hq
    · exact Row.pairs_row hq
    · obtain ⟨⟨n, v⟩, hmem, rfl⟩ := List.mem_map.1 hq
      exact (heq n v hmem).symm
  refine ⟨⟨hfull, fun c x hx => hall _ (Row.mem_of_lookup hx), fun c hc => hkeep c ?_⟩, hall, ?_⟩
  · exact (Row.mirrors_row honce ρ).once c hc
  · intro c
    rw [hcell, Record.cell?_row]
    by_cases hc : c ∈ columns
    · simp [hc]
    · simp only [hc, if_false, Option.none_or, false_or, ne_eq, List.lookup_eq_none_iff,
        cellsOfEqualities, List.mem_map]
      constructor
      · intro hne
        refine Classical.byContradiction fun hno => hne ?_
        rintro _ ⟨⟨n, v⟩, hmem, rfl⟩
        simpa using fun he : c = n.column.name => hno ⟨n, v, hmem, he.symm⟩
      · rintro ⟨n, v, hmem, rfl⟩ hno
        exact absurd (hno _ ⟨(n, v), hmem, rfl⟩) (by simp)

end PointQuery.Plan

/-! ## Rows that answer -/

/-- On a full row the filters can be compared, and they hold if each value agrees with its cell. -/
theorem rowSatisfies_spec {r : Row} (h : r.IsFull) : ∀ equalities : List (Node × Value),
    ∃ b, rowSatisfies r equalities = .ok b ∧ (b = true ↔ ∀ n v, (n, v) ∈ equalities →
      ∃ x, r.cell? n.column.name = some (some x) ∧ x.agrees v = true)
  | [] => ⟨true, rfl, by simp⟩
  | (n, v) :: rest => by
    obtain ⟨b, hb, hiff⟩ := rowSatisfies_spec h rest
    have hsplit : (∀ m w, (m, w) ∈ (n, v) :: rest →
          ∃ x, r.cell? m.column.name = some (some x) ∧ x.agrees w = true) ↔
        (∃ x, r.cell? n.column.name = some (some x) ∧ x.agrees v = true) ∧
          ∀ m w, (m, w) ∈ rest →
            ∃ x, r.cell? m.column.name = some (some x) ∧ x.agrees w = true := by
      constructor
      · exact fun hall => ⟨hall n v (List.mem_cons_self ..),
          fun m w hm => hall m w (List.mem_cons_of_mem _ hm)⟩
      · rintro ⟨hfirst, hrest⟩ m w hm
        rcases List.mem_cons.1 hm with he | hm
        · rw [Prod.mk.injEq] at he
          rw [he.1, he.2]
          exact hfirst
        · exact hrest m w hm
    rw [hsplit, ← hiff, rowSatisfies, Row.find?_eq h, hb]
    cases hcell : r.cell? n.column.name with
    | none => exact ⟨false, rfl, by simp⟩
    | some c =>
      cases c with
      | none => exact ⟨false, rfl, by simp⟩
      | some x =>
        by_cases hx : x.agrees v = true
        · exact ⟨b, if_pos hx, by simp [hx]⟩
        · exact ⟨false, if_neg hx, by simp [hx]⟩

/-- A row answers if it has all columns that are asked for. -/
theorem PointQuery.Plan.covers_iff (p : Plan) {r : Row} (h : r.IsFull) :
    p.covers r = true ↔ ∀ n ∈ p.projection, r.cell? n.column.name ≠ none := by
  unfold covers
  rw [List.all_eq_true]
  refine forall_congr' fun n => forall_congr' fun _ => ?_
  rw [Row.contains_eq h]
  exact Option.isSome_iff_ne_none

/-- Asking whether a full row answers a lookup does not break off. It does if it has the columns
that are read, and the values that the filters ask for. -/
theorem PointQuery.Plan.accepts_spec (p : Plan) {r : Row} (h : r.IsFull) :
    ∃ b, p.accepts r = .ok b ∧ (b = true ↔ (∀ n ∈ p.projection, r.cell? n.column.name ≠ none) ∧
      ∀ n v, (n, v) ∈ p.equalities →
        ∃ x, r.cell? n.column.name = some (some x) ∧ x.agrees v = true) := by
  unfold accepts
  rw [← p.covers_iff h]
  by_cases hcovers : p.covers r = true
  · rw [if_pos hcovers]
    obtain ⟨b, hb, hiff⟩ := rowSatisfies_spec h p.equalities
    exact ⟨b, hb, hiff.trans ⟨fun hall => ⟨hcovers, hall⟩, And.right⟩⟩
  · rw [if_neg hcovers]
    exact ⟨false, rfl, fun hfalse => absurd hfalse (by simp), fun hall => absurd hall.1 hcovers⟩

section

variable {α : Type} {q : Query α} {prepare : ValuePreparer} {st : Statement} {E : Engine}
  {t : Table}

/-- A lookup's answer from the table: the first record that its clauses select. -/
theorem reply_of_lookup (hst : q.single.statement prepare = .ok st) :
    ∃ clauses, q.conditions.filterClauses prepare = .ok clauses ∧ (E.execute st t).2 = t ∧
      ∃ answer, (E.execute st t).1 = .ok answer ∧ answer.first? =
        (t.find? (E.selects clauses)).map (·.row (q.projection.map (·.column.name))) := by
  obtain ⟨e, clauses, -, -, hclauses, rfl⟩ := Query.of_statement (q := q.single.query) hst
  refine ⟨clauses, hclauses, rfl, _, rfl, ?_⟩
  have hcolumns : ∀ ns : List Node, (ns.map (·.column.cql)).map Identifier.read =
      ns.map (·.column.name) := by
    intro ns
    rw [List.map_map]
    exact List.map_congr_left fun n _ => Identifier.read_cql _
  show (((t.filter (E.selects clauses)).take 1).map
    (·.row ((q.projection.map (·.column.cql)).map Identifier.read))).head? = _
  rw [hcolumns, List.head?_map, List.head?_take, List.head?_filter]
  rfl

/-- A selected record has every value that the filters ask for, where values are told. -/
theorem Conditions.value_of_selects {c : Conditions} {clauses : List Clause}
    (hclauses : c.filterClauses prepare = .ok clauses) {ρ : Record}
    (hselected : E.selects clauses ρ = true) {n : Node} {v : Value}
    (hv : (n, v) ∈ c.equalities prepare) {P : Value → Prop} (hP : ExactOn P) (hPv : P v) :
    ρ n.column.name = some v := by
  have hclause := List.all_eq_true.1 hselected _ (Conditions.exists_clause hclauses hv)
  rw [Clause.selects, Identifier.read_cql] at hclause
  cases hx : ρ n.column.name with
  | none =>
    rw [hx] at hclause
    exact absurd hclause (by simp)
  | some x =>
    rw [hx] at hclause
    have hagrees : x.agrees v = true := by simpa [Operator.compares] using hclause
    rw [hP.exact hPv hagrees]

/-- A row that is right, and that a lookup accepts, gives the item that the table would have
given. -/
theorem reply_of_accepted (hst : q.single.statement prepare = .ok st)
    (hreads : q.ReadsProjection) {once : List String} {r : Row} {ρ : Record}
    (hmirror : r.Mirrors once ρ) (hρ : ρ ∈ t)
    (haccepts : (q.single.plan prepare).accepts r = .ok true)
    (honly : q.conditions.onlyEqualities = true) {P : Value → Prop} {n : Node} {v : Value}
    (hv : (n, v) ∈ q.conditions.equalities prepare) (hP : ExactOn P) (hPv : P v)
    (hkey : t.IsKey P n.column.name) :
    (E.execute st t).1.bind q.itemOf = (q.mapper r).map some := by
  obtain ⟨clauses, hclauses, -, answer, hanswer, hfirst⟩ :=
    reply_of_lookup (E := E) (t := t) hst
  obtain ⟨b, hb, haccepted⟩ := (q.single.plan prepare).accepts_spec hmirror.full
  rw [haccepts] at hb
  obtain ⟨hcovers, hequalities⟩ := haccepted.1 (Except.ok.inj hb).symm
  have hfound : ∀ m w, (m, w) ∈ q.conditions.equalities prepare →
      ∃ x, ρ m.column.name = some x ∧ x.agrees w = true := by
    intro m w hmw
    obtain ⟨x, hx, hagrees⟩ := hequalities m w hmw
    exact ⟨x, (hmirror.cell _ _ hx).symm, hagrees⟩
  have hselected : E.selects clauses ρ = true := by
    refine List.all_eq_true.2 fun c hc => ?_
    obtain ⟨m, w, hmw, rfl⟩ := Conditions.exists_equality hclauses honly hc
    obtain ⟨x, hx, hagrees⟩ := hfound m w hmw
    simp [Clause.selects, Identifier.read_cql, hx, Operator.compares, hagrees]
  have hρv : ρ n.column.name = some v := by
    obtain ⟨x, hx, hagrees⟩ := hfound n v hv
    rw [hx, hP.exact hPv hagrees]
  -- the key that the filters name is this record's alone
  have hfind : t.find? (E.selects clauses) = some ρ := by
    cases hfind : t.find? (E.selects clauses) with
    | none => exact absurd hselected (List.find?_eq_none.1 hfind ρ hρ)
    | some τ =>
      have hτv := Conditions.value_of_selects hclauses (List.find?_some hfind) hv hP hPv
      rw [hkey.alone τ (List.mem_of_find?_eq_some hfind) ρ hρ v hτv hρv]
  rw [hanswer]
  show q.itemOf answer = _
  unfold Query.itemOf
  rw [hfirst, hfind]
  show (q.mapper (ρ.row _)).map some = _
  rw [hreads (ρ.row (q.projection.map (·.column.name))) r (Record.isFull_row ..) hmirror.full]
  intro m hm
  refine ⟨ρ m.column.name, ?_, hmirror.cell_eq (hcovers m hm)⟩
  rw [Record.cell?_row, if_pos (List.mem_map_of_mem hm)]

end

/-! ## Rows that follow a write -/

/-- The record after an INSERT of it. -/
def RowInsert.written (i : RowInsert) (prepare : ValuePreparer) (ρ : Record) : Record :=
  ρ.write ((prepare.cells i.values).map fun (n, c) => (n.column.cql, c))

/-- The record after an UPDATE of it. -/
def RowUpdate.changed (u : RowUpdate) (prepare : ValuePreparer) (ρ : Record) : Record :=
  ρ.assign (u.changes.map fun (n, x) => x.assignment n prepare)

/-- The cells that a row has once it followed an UPDATE, whatever it had before. -/
def RowUpdate.told (u : RowUpdate) (prepare : ValuePreparer) (c : String) : Option Cell :=
  if c ∈ u.unknown then none else (u.known prepare).reverse.lookup c

theorem Change.read_assignment (n : Node) (prepare : ValuePreparer) (x : Change) :
    Identifier.read (x.assignment n prepare).column = n.column.name := by
  rw [column_assignment, Identifier.read_cql]

/-- An UPDATE that restricts the key alone changes no column of its name. -/
theorem RowUpdate.ne_of_restrictsOnly {u : RowUpdate} {prepare : ValuePreparer} {st : Statement}
    (hst : u.statement prepare = .ok st) {key : String} (h : st.RestrictsOnly key) :
    ∀ p ∈ u.changes, p.1.column.name ≠ key := by
  obtain ⟨_, _, _, -, -, -, -, rfl⟩ := RowUpdate.of_statement hst
  intro p hp
  rw [← Change.read_assignment p.1 prepare p.2]
  exact h.2.2 _ (List.mem_map_of_mem hp)

/-- An UPDATE that an engine accepts changes no column of the key's name, if the engine spares the
key. -/
theorem Engine.SparesKey.ne {E : Engine} (h : E.SparesKey) {u : RowUpdate}
    {prepare : ValuePreparer} {st : Statement} (hst : u.statement prepare = .ok st) {t : Table}
    (hverdict : E.verdict st t = .accept) : ∀ p ∈ u.changes, p.1.column.name ≠ E.key := by
  obtain ⟨_, _, _, -, -, -, -, rfl⟩ := RowUpdate.of_statement hst
  intro p hp
  rw [← Change.read_assignment p.1 prepare p.2]
  exact h _ _ hverdict _ (List.mem_map_of_mem hp)

/-- A column that is not assigned stays. -/
theorem RowUpdate.changed_of_forall_ne {u : RowUpdate} {column : String}
    (h : ∀ p ∈ u.changes, p.1.column.name ≠ column) (prepare : ValuePreparer) (ρ : Record) :
    u.changed prepare ρ column = ρ column := by
  refine Record.assign_eq_of_not_mem ρ fun a ha => ?_
  obtain ⟨⟨n, x⟩, hmem, rfl⟩ := List.mem_map.1 ha
  rw [Change.read_assignment]
  exact h _ hmem

namespace Row

variable {once : List String} {r : Row} {ρ : Record} {prepare : ValuePreparer}

theorem isFull_row_insert (prepare : ValuePreparer) (i : RowInsert) : (i.row prepare).IsFull :=
  isFull_ofPairs _

/-- What an INSERT binds are the pairs of the row that it writes. -/
theorem read_values (prepare : ValuePreparer) (i : RowInsert) :
    (((prepare.cells i.values).map fun (n, c) => (n.column.cql, c)).map
      fun p : String × Cell => (Identifier.read p.1, p.2)) = (i.row prepare).pairs := by
  rw [RowInsert.row, Row.ofNodes, pairs_ofPairs, List.map_map]
  refine List.map_congr_left fun p _ => ?_
  show (Identifier.read p.1.column.cql, p.2) = (p.1.column.name, p.2)
  rw [Identifier.read_cql]

/-- A row that is right stays so when it follows an INSERT of its record. -/
theorem Mirrors.inserted (h : r.Mirrors once ρ) (prepare : ValuePreparer) (i : RowInsert) :
    ∃ r', r.merge (i.row prepare) = .ok r' ∧
      r'.Mirrors once (i.written prepare ρ) ∧
      ∀ c, r'.cell? c = ((i.row prepare).pairs.reverse.lookup c).or (r.cell? c) := by
  obtain ⟨r', hr', hfull, hcell, honce⟩ := merge_spec h.full (i.row prepare)
  refine ⟨r', hr', ⟨hfull, fun c x hx => ?_, fun c hc => honce c (h.once c hc)⟩, hcell⟩
  rw [RowInsert.written, Record.write_eq, read_values]
  rw [hcell] at hx
  cases hy : (i.row prepare).pairs.reverse.lookup c with
  | none =>
    rw [hy] at hx
    exact h.cell c x hx
  | some y =>
    rw [hy] at hx
    exact (Option.some.inj hx).symm

/-- The cells that changes set, with their columns. -/
def settings (prepare : ValuePreparer) (changes : List (Node × Change)) : List (String × Cell) :=
  changes.filterMap fun
    | (n, .set c) => some (n.column.name, prepare.cell n c)
    | _ => none

/-- An update knows the values of its filters, and those that it sets. -/
theorem known_eq (u : RowUpdate) : u.known prepare =
    cellsOfEqualities (u.conditions.equalities prepare) ++ settings prepare u.changes := rfl

/-- The columns of the filters are known. -/
theorem lookup_known_ne_none {u : RowUpdate} {n : Node} {v : Value}
    (h : (n, v) ∈ u.conditions.equalities prepare) :
    (u.known prepare).reverse.lookup n.column.name ≠ none := by
  intro hnone
  rw [List.lookup_eq_none_iff] at hnone
  have hin : (n.column.name, some v) ∈ u.known prepare :=
    List.mem_append_left _ (List.mem_map.2 ⟨(n, v), h, rfl⟩)
  exact absurd (hnone _ (List.mem_reverse.2 hin)) (by simp)

/-- An assignment reaches its own column only. -/
theorem assign_cons (n : Node) (x : Change) (changes : List (Node × Change)) (ρ : Record) :
    ρ.assign (((n, x) :: changes).map fun (n, x) => x.assignment n prepare) =
      (ρ.set n.column.name ((x.assignment n prepare).cell (ρ n.column.name))).assign
        (changes.map fun (n, x) => x.assignment n prepare) := by
  rw [List.map_cons, Record.assign, List.foldl_cons]
  show Record.assign (ρ.set (Identifier.read (x.assignment n prepare).column)
    ((x.assignment n prepare).cell (ρ (Identifier.read (x.assignment n prepare).column)))) _ = _
  rw [Change.read_assignment]

/-- A column that nothing but settings changes holds what the last one gives it. -/
theorem assign_of_settings {c : String} : ∀ {changes : List (Node × Change)} (ρ : Record),
    c ∉ RowUpdate.unknown { changes } →
    ρ.assign (changes.map fun (n, x) => x.assignment n prepare) c =
      ((settings prepare changes).reverse.lookup c).getD (ρ c)
  | [], _, _ => rfl
  | (n, x) :: changes, ρ, h => by
    rw [assign_cons]
    by_cases hset : ∃ y, x = .set y
    · obtain ⟨y, rfl⟩ := hset
      have hrest : c ∉ RowUpdate.unknown { changes } := h
      have hsettings : settings prepare ((n, .set y) :: changes) =
          (n.column.name, prepare.cell n y) :: settings prepare changes := rfl
      rw [assign_of_settings _ hrest, hsettings, List.reverse_cons, List.lookup_append]
      cases (settings prepare changes).reverse.lookup c with
      | some z => rfl
      | none =>
        by_cases hc : c = n.column.name
        · simp [hc, Record.set, Change.assignment, Assignment.cell]
        · have hne : (c == n.column.name) = false := by simpa using hc
          simp [hc, hne, Record.set, List.lookup_cons]
    · -- any other change makes its column unknown, so it is not this one
      have hunknown : RowUpdate.unknown { changes := (n, x) :: changes } =
          n.column.name :: RowUpdate.unknown { changes } := by
        cases x with
        | set y => exact absurd ⟨y, rfl⟩ hset
        | _ => rfl
      have hsettings : settings prepare ((n, x) :: changes) = settings prepare changes := by
        cases x with
        | set y => exact absurd ⟨y, rfl⟩ hset
        | _ => rfl
      rw [hunknown, List.mem_cons, not_or] at h
      rw [assign_of_settings _ h.2, hsettings, Record.set, if_neg h.1]

/-- The columns that an UPDATE makes known, laid over a row of which every column that it makes
unknown is taken away; none of these may repeat. -/
theorem updated_spec (h : r.IsFull) (prepare : ValuePreparer) (u : RowUpdate)
    (honce : ∀ c ∈ u.unknown, r.HasOnce c) :
    ∃ known r', Row.empty.setAll (u.known prepare) = .ok known ∧
      (do (← r.merge known).removeAll u.unknown) = .ok r' ∧ r'.IsFull ∧
      (∀ c, r'.cell? c = if c ∈ u.unknown then none
        else ((u.known prepare).reverse.lookup c).or (r.cell? c)) ∧
      ∀ c, r.HasOnce c → r'.HasOnce c := by
  obtain ⟨known, hknown, hkfull, hkcell, hkonce⟩ := setAll_spec isFull_empty (u.known prepare)
  obtain ⟨merged, hmerged, hmfull, hmcell, hmonce⟩ := merge_spec h known
  obtain ⟨r', hr', hfull, hcell, honce'⟩ := removeAll_spec hmfull u.unknown
    fun c hc => hmonce c (honce c hc)
  -- the known row repeats no column, so it may be read from either end
  have hlookup : ∀ c, known.pairs.reverse.lookup c = (u.known prepare).reverse.lookup c := by
    intro c
    rw [lookup_reverse_of_hasOnce hkfull (fun d => hkonce d (hasOnce_empty d)), hkcell]
    exact Option.or_none
  refine ⟨known, r', hknown, ?_, hfull, fun c => ?_, fun c hc => honce' c (hmonce c hc)⟩
  · rw [hmerged]
    exact hr'
  · rw [hcell, hmcell, hlookup]

/-- A column that an UPDATE leaves known becomes what the row learns of it, where the record has
the values that the filters ask for. -/
theorem changed_of_known {u : RowUpdate} (heq : ∀ n v, (n, v) ∈ u.conditions.equalities prepare →
      u.changed prepare ρ n.column.name = some v) {c : String} (hc : c ∉ u.unknown) :
    u.changed prepare ρ c = ((u.known prepare).reverse.lookup c).getD (ρ c) := by
  have hassign : u.changed prepare ρ c =
      ((settings prepare u.changes).reverse.lookup c).getD (ρ c) := assign_of_settings ρ hc
  rw [known_eq, List.reverse_append, List.lookup_append]
  cases hy : (settings prepare u.changes).reverse.lookup c with
  | some y =>
    rw [hassign, hy]
    rfl
  | none =>
    rw [Option.none_or]
    cases hz : (cellsOfEqualities (u.conditions.equalities prepare)).reverse.lookup c with
    | none =>
      rw [hassign, hy]
    | some z =>
      have hmem := List.mem_reverse.1 (mem_of_lookup hz)
      obtain ⟨⟨n, v⟩, hnv, he⟩ := List.mem_map.1 hmem
      rw [Prod.mk.injEq] at he
      rw [← he.1, heq n v hnv, ← he.2]
      rfl

/-- Where the record has the values that the filters ask for, an UPDATE tells what becomes of it. -/
theorem eq_changed_of_told {u : RowUpdate} (heq : ∀ n v,
      (n, v) ∈ u.conditions.equalities prepare → u.changed prepare ρ n.column.name = some v)
    {c : String} {x : Cell} (h : u.told prepare c = some x) : x = u.changed prepare ρ c := by
  rw [RowUpdate.told] at h
  split at h
  next => exact absurd h (by simp)
  next hc =>
    rw [changed_of_known heq hc, h]
    rfl

/-- A column that an UPDATE leaves known, and of which it tells nothing, stays. -/
theorem changed_of_lookup_none {u : RowUpdate} {c : String} (hc : c ∉ u.unknown)
    (hnone : (u.known prepare).reverse.lookup c = none) : u.changed prepare ρ c = ρ c := by
  have hassign : u.changed prepare ρ c =
      ((settings prepare u.changes).reverse.lookup c).getD (ρ c) := assign_of_settings ρ hc
  rw [known_eq, List.reverse_append, List.lookup_append, Option.or_eq_none_iff] at hnone
  rw [hassign, hnone.1]
  rfl

/-- A row that is right and follows an UPDATE is right about a record, be it changed or not, that
has what the UPDATE tells. -/
theorem Mirrors.of_told (h : r.Mirrors once ρ) {u : RowUpdate} {r' : Row} (hfull : r'.IsFull)
    (honce : ∀ c ∈ once, r'.HasOnce c)
    (hcell : ∀ c, r'.cell? c = if c ∈ u.unknown then none
      else ((u.known prepare).reverse.lookup c).or (r.cell? c))
    {σ : Record} (hσ : σ = u.changed prepare ρ ∨ σ = ρ)
    (htold : ∀ c x, u.told prepare c = some x → x = σ c) : r'.Mirrors once σ := by
  refine ⟨hfull, fun c x hx => ?_, honce⟩
  rw [hcell] at hx
  split at hx
  next => exact absurd hx (by simp)
  next hc =>
    cases hy : (u.known prepare).reverse.lookup c with
    | some y =>
      rw [hy, Option.some_or, Option.some.injEq] at hx
      rw [← hx]
      exact htold c y (by rw [RowUpdate.told, if_neg hc, hy])
    | none =>
      rw [hy, Option.none_or] at hx
      rw [h.cell c x hx]
      obtain rfl | rfl := hσ
      · exact (changed_of_lookup_none hc hy).symm
      · rfl

/-- A row that is right stays so when it follows an UPDATE of its record: it takes the values
of the filters and the cells that were set, and loses the columns whose content it cannot know. -/
theorem Mirrors.updated (h : r.Mirrors once ρ) (prepare : ValuePreparer) (u : RowUpdate)
    (honce : ∀ c ∈ u.unknown, c ∈ once)
    (heq : ∀ n v, (n, v) ∈ u.conditions.equalities prepare →
      u.changed prepare ρ n.column.name = some v) :
    ∃ known r', Row.empty.setAll (u.known prepare) = .ok known ∧
      (do (← r.merge known).removeAll u.unknown) = .ok r' ∧
      r'.Mirrors once (u.changed prepare ρ) ∧
      (∀ n v, (n, v) ∈ u.conditions.equalities prepare → n.column.name ∉ u.unknown →
        r'.Binds n v) ∧
      ∀ c, r.cell? c ≠ none → c ∉ u.unknown →
        r'.cell? c = some (u.changed prepare ρ c) := by
  obtain ⟨known, r', hknown, hr', hfull, hcell, honce'⟩ :=
    updated_spec h.full prepare u fun c hc => h.once c (honce c hc)
  have hmirror : r'.Mirrors once (u.changed prepare ρ) :=
    h.of_told hfull (fun c hc => honce' c (h.once c hc)) hcell (.inl rfl)
      fun _ _ hx => eq_changed_of_told heq hx
  refine ⟨known, r', hknown, hr', hmirror, fun n v hv hc => ?_, fun c hheld hc => ?_⟩
  · have hne : r'.cell? n.column.name ≠ none := by
      rw [hcell, if_neg hc]
      exact fun hnone => lookup_known_ne_none hv (Option.or_eq_none_iff.1 hnone).1
    rw [Binds, hmirror.cell_eq hne, heq n v hv]
  · have hne : r'.cell? c ≠ none := by
      rw [hcell, if_neg hc]
      exact fun hnone => hheld (Option.or_eq_none_iff.1 hnone).2
    exact hmirror.cell_eq hne

/-- Where an UPDATE takes away columns that repeat, a column keeps its cell as long as it has a
place left. -/
theorem updated_of_holds (h : r.IsFull) (prepare : ValuePreparer) (u : RowUpdate) :
    ∃ known r', Row.empty.setAll (u.known prepare) = .ok known ∧
      (do (← r.merge known).removeAll u.unknown) = .ok r' ∧ r'.IsFull ∧
      ∀ c x, r.Holds c x → (∀ p ∈ u.known prepare, p.1 = c → p.2 = x) →
        u.unknown.count c < r.columns.count c → r'.cell? c = some x := by
  obtain ⟨known, hknown, hkfull, -⟩ := setAll_spec isFull_empty (u.known prepare)
  obtain ⟨merged, hmerged, hmfull, -⟩ := merge_spec h known
  obtain ⟨r', hr', hfull, hholds⟩ := exists_removeAll hmfull u.unknown
  refine ⟨known, r', hknown, ?_, hfull, fun c x hx hgiven hcount => ?_⟩
  · rw [hmerged]
    exact hr'
  · have hempty : Row.empty.Holds c x := fun y hy => absurd hy (by simp [Row.empty, pairs])
    have hk := (hempty.setAll isFull_empty hknown hgiven).1
    obtain ⟨hm, hmcount⟩ := hx.setAll h hmerged fun p hp hc => hk p.2 (by rw [← hc]; exact hp)
    obtain ⟨hlast, hlcount⟩ := hholds c x hm
    exact hlast.cell?_eq hfull (by omega)

end Row

end WideRow
