import WideRow.Proofs.KeyText
import WideRow.Proofs.Names
import WideRow.Proofs.RowView
import WideRow.Session

/-!
# A table in memory

What the statements mean, on a table that is a list of records. A record has a cell for every
column; one column is the table's key. INSERT and UPDATE write the record of a key, which begins
with its key alone where there was none, DELETE takes out the records that its filters select, and
assignments act from left to right. Life times and times of writing mean nothing to the table.

An `Engine` is an executor that keeps such a table. It answers every SELECT; whether it carries
out a write, turns it down as a conditional one whose condition fails, or refuses it with an error
is up to its `verdict`, of which nothing is assumed here.

> `mem_upsert`: of a table whose key tells its records apart, writing one key replaces one record
> and leaves all others.
-/

namespace WideRow

/-- A row of a table: the cell of every column. -/
abbrev Record := String → Cell

/-- The rows of a table, in the order in which they are read. -/
abbrev Table := List Record

/-! ## Cells and clauses -/

/-- The items of a collection; a null is one without items. -/
def Cell.items : Cell → List Value
  | some (.list vs) => vs
  | some (.set vs) => vs
  | _ => []

/-- A cell without the values that agree with some given ones. -/
def Cell.without (vs : List Value) : Cell → Cell
  | some (.list xs) => some (.list (xs.filter fun x => !vs.any x.agrees))
  | some (.set xs) => some (.set (xs.filter fun x => !vs.any x.agrees))
  | c => c

/-- A counter with a number added; a null counts as zero. -/
def Cell.plus (n : Int64) : Cell → Cell
  | some (.counter m) => some (.counter (m + n))
  | some (.bigint m) => some (.bigint (m + n))
  | _ => some (.counter n)

/-- The cell after an assignment to it. -/
def Assignment.cell : Assignment → Cell → Cell
  | .set _ x, _ => x
  | .increment _ n, c => c.plus n
  | .decrement _ n, c => c.plus (-n)
  | .append _ v, c => some (.list (Cell.items c ++ Cell.items (some v)))
  | .prepend _ v, c => some (.list (Cell.items (some v) ++ Cell.items c))
  | .add _ v, c =>
    some (.set (Cell.items c ++ (Cell.items (some v)).filter fun x => !(Cell.items c).any x.agrees))
  | .remove _ v, c => c.without (Cell.items (some v))

/-- Whether a value compares as an operator says, under an order of values. -/
def Operator.compares (less : Value → Value → Bool) : Operator → Value → Value → Bool
  | .eq, x, v => x.agrees v
  | .isIn, x, v => x.agrees v
  | .lt, x, v => less x v
  | .lte, x, v => less x v || x.agrees v
  | .gt, x, v => less v x
  | .gte, x, v => less v x || x.agrees v

/-- Whether a record satisfies a clause; a null satisfies none. -/
def Clause.selects (less : Value → Value → Bool) (c : Clause) (ρ : Record) : Bool :=
  (ρ (Identifier.read c.column)).any fun x => c.values.any fun v => c.operator.compares less x v

/-! ## Records -/

namespace Record

/-- The record that has nothing but its key. -/
def blank (key : String) (v : Value) : Record := fun c => if c = key then some v else none

/-- Gives a column a cell. -/
def set (ρ : Record) (column : String) (x : Cell) : Record := fun c => if c = column then x else ρ c

/-- Makes assignments, one after the other. -/
def assign (ρ : Record) (as : List Assignment) : Record :=
  as.foldl (fun ρ a =>
    ρ.set (Identifier.read a.column) (a.cell (ρ (Identifier.read a.column)))) ρ

/-- Writes the columns of an INSERT. -/
def write (ρ : Record) (values : List (String × Cell)) : Record :=
  values.foldl (fun ρ p => ρ.set (Identifier.read p.1) p.2) ρ

/-- Some columns of a record, as a row. -/
def row (ρ : Record) (columns : List String) : Row := .ofPairs (columns.map fun c => (c, ρ c))

/-- Whether the record is the one of a key. -/
def isAt (ρ : Record) (key : String) (v : Value) : Bool := (ρ key).any (·.agrees v)

/-- A record has a cell for every column that it is read by. -/
theorem isFull_row (ρ : Record) (columns : List String) : (ρ.row columns).IsFull :=
  Row.isFull_ofPairs _

/-- A row that is read has the values of the record, in the columns that were asked for. -/
theorem cell?_row (ρ : Record) (columns : List String) (c : String) :
    (ρ.row columns).cell? c = if c ∈ columns then some (ρ c) else none := by
  rw [row, Row.cell?_ofPairs]
  induction columns with
  | nil => rfl
  | cons d columns ih =>
    rw [List.map_cons, List.lookup_cons, ih]
    by_cases hd : c = d
    · simp [hd]
    · have hne : (c == d) = false := by simpa using hd
      simp [hd, hne]

/-- Assignments change the columns that they name. -/
theorem assign_eq_of_not_mem {c : String} : ∀ {as : List Assignment} (ρ : Record),
    (∀ a ∈ as, Identifier.read a.column ≠ c) → ρ.assign as c = ρ c
  | [], _, _ => rfl
  | a :: as, ρ, h => by
    rw [assign, List.foldl_cons]
    show assign _ as c = _
    rw [assign_eq_of_not_mem _ fun b hb => h b (List.mem_cons_of_mem _ hb), set,
      if_neg (Ne.symm (h a (List.mem_cons_self ..)))]

/-- Of several values for a column the last one is written. -/
theorem write_eq (c : String) : ∀ (values : List (String × Cell)) (ρ : Record),
    ρ.write values c =
      ((values.map fun p => (Identifier.read p.1, p.2)).reverse.lookup c).getD (ρ c)
  | [], ρ => rfl
  | p :: values, ρ => by
    rw [write, List.foldl_cons]
    show write _ values c = _
    rw [write_eq c values, List.map_cons, List.reverse_cons, List.lookup_append]
    cases (values.map fun p => (Identifier.read p.1, p.2)).reverse.lookup c with
    | some x => rfl
    | none =>
      by_cases hc : c = Identifier.read p.1
      · simp [hc, set]
      · have hne : (c == Identifier.read p.1) = false := by simpa using hc
        simp [hc, hne, set, List.lookup_cons]

end Record

/-! ## Tables -/

namespace Table

/-- A column whose values are of a domain and tell the records apart. -/
structure IsKey (t : Table) (P : Value → Prop) (c : String) : Prop where
  fits : ∀ ρ ∈ t, ∀ v, ρ c = some v → P v
  alone : ∀ ρ ∈ t, ∀ σ ∈ t, ∀ v, ρ c = some v → σ c = some v → ρ = σ

/-- The record of a key, one that has nothing but its key where there is none. -/
def recordAt (t : Table) (key : String) (v : Value) : Record :=
  (t.find? (·.isAt key v)).getD (.blank key v)

/-- Writes the record of a key. -/
def upsert (t : Table) (key : String) (v : Value) (f : Record → Record) : Table :=
  if t.any (·.isAt key v) then t.map fun ρ => if ρ.isAt key v then f ρ else ρ
  else t ++ [f (.blank key v)]

variable {t : Table} {P : Value → Prop} {key c : String} {v : Value} {f : Record → Record}

/-- Where values can be told, to agree with the key is to have it. -/
theorem isAt_iff (hP : ExactOn P) (hv : P v) {ρ : Record} :
    ρ.isAt key v = true ↔ ρ key = some v := by
  unfold Record.isAt
  cases ρ key with
  | none => simp
  | some x =>
    rw [Option.any_some, Option.some.injEq]
    exact ⟨hP.exact hv, fun h => by rw [h]; exact hP.refl hv⟩

/-- The record of a key is a record of the table, or there is none with that key. -/
theorem recordAt_spec (hP : ExactOn P) (hv : P v) (key : String) (t : Table) :
    (t.recordAt key v ∈ t ∧ t.recordAt key v key = some v) ∨
      ((∀ ρ ∈ t, ρ key ≠ some v) ∧ t.recordAt key v = .blank key v) := by
  unfold recordAt
  cases h : t.find? (·.isAt key v) with
  | none =>
    refine .inr ⟨fun ρ hρ he => ?_, rfl⟩
    exact List.find?_eq_none.1 h ρ hρ ((isAt_iff hP hv).2 he)
  | some ρ =>
    have hat := List.find?_some h
    exact .inl ⟨List.mem_of_find?_eq_some h, (isAt_iff hP hv).1 hat⟩

/-- The record under a key has the key, also if it is a new one. -/
theorem recordAt_key (hP : ExactOn P) (hv : P v) (key : String) (t : Table) :
    t.recordAt key v key = some v := by
  obtain ⟨-, h⟩ | ⟨-, h⟩ := recordAt_spec hP hv key t
  · exact h
  · rw [h, Record.blank, if_pos rfl]

/-- A record of the table is the one under its key. -/
theorem recordAt_of_mem (hP : ExactOn P) (hkey : t.IsKey P key) {ρ : Record} (hρ : ρ ∈ t)
    (hv : ρ key = some v) : t.recordAt key v = ρ := by
  have hPv := hkey.fits ρ hρ v hv
  obtain ⟨hmem, h⟩ | ⟨h, -⟩ := recordAt_spec hP hPv key t
  · exact hkey.alone _ hmem _ hρ v h hv
  · exact absurd hv (h ρ hρ)

/-- Writing one key replaces one record and leaves all others. -/
theorem mem_upsert (hP : ExactOn P) (hkey : t.IsKey P key) (hv : P v) {σ : Record} :
    σ ∈ t.upsert key v f ↔ σ = f (t.recordAt key v) ∨ (σ ∈ t ∧ σ key ≠ some v) := by
  unfold upsert
  -- either the record of the key is changed in its place, or a blank one is added
  obtain ⟨hmem, hat⟩ | ⟨hnone, hblank⟩ := recordAt_spec hP hv key t
  · have hany : t.any (·.isAt key v) = true :=
      List.any_eq_true.2 ⟨_, hmem, (isAt_iff hP hv).2 hat⟩
    rw [if_pos hany, List.mem_map]
    constructor
    · rintro ⟨ρ, hρ, rfl⟩
      by_cases hm : ρ.isAt key v = true
      · rw [if_pos hm, recordAt_of_mem hP hkey hρ ((isAt_iff hP hv).1 hm)]
        exact .inl rfl
      · rw [if_neg hm]
        exact .inr ⟨hρ, fun he => hm ((isAt_iff hP hv).2 he)⟩
    · rintro (rfl | ⟨hσ, hne⟩)
      · exact ⟨_, hmem, if_pos ((isAt_iff hP hv).2 hat)⟩
      · exact ⟨σ, hσ, if_neg fun hm => hne ((isAt_iff hP hv).1 hm)⟩
  · have hany : ¬t.any (·.isAt key v) = true := by
      rw [List.any_eq_true]
      rintro ⟨ρ, hρ, hm⟩
      exact hnone ρ hρ ((isAt_iff hP hv).1 hm)
    rw [if_neg hany, List.mem_append, List.mem_singleton, hblank]
    constructor
    · rintro (hσ | rfl)
      · exact .inr ⟨hσ, hnone σ hσ⟩
      · exact .inl rfl
    · rintro (rfl | ⟨hσ, -⟩)
      · exact .inr rfl
      · exact .inl hσ

/-- A key column stays one where records change in other columns only. -/
theorem IsKey.map (h : t.IsKey P c) (hf : ∀ ρ, f ρ c = ρ c) : Table.IsKey (t.map f) P c where
  fits := by
    intro σ hσ v hv
    obtain ⟨ρ, hρ, rfl⟩ := List.mem_map.1 hσ
    exact h.fits ρ hρ v (by rw [← hf ρ, hv])
  alone := by
    intro σ hσ τ hτ v hv hw
    obtain ⟨ρ, hρ, rfl⟩ := List.mem_map.1 hσ
    obtain ⟨ω, hω, rfl⟩ := List.mem_map.1 hτ
    rw [hf] at hv hw
    rw [h.alone ρ hρ ω hω v hv hw]

theorem isKey_singleton {ρ : Record} (h : ∀ v, ρ c = some v → P v) : Table.IsKey [ρ] P c where
  fits σ hσ v hv := h v (by rw [← List.mem_singleton.1 hσ, hv])
  alone σ hσ τ hτ _ _ _ := by rw [List.mem_singleton.1 hσ, List.mem_singleton.1 hτ]

/-- What is a key of a table is one of every part of it. -/
theorem IsKey.filter (h : t.IsKey P c) (p : Record → Bool) : Table.IsKey (t.filter p) P c where
  fits ρ hρ := h.fits ρ ((List.mem_filter.1 hρ).1)
  alone ρ hρ σ hσ := h.alone ρ ((List.mem_filter.1 hρ).1) σ ((List.mem_filter.1 hσ).1)

/-- A key column stays one where the record of a key is written but keeps its cell there. -/
theorem IsKey.upsert {Q : Value → Prop} (hQ : ExactOn Q) (hv : Q v) (h : t.IsKey P c)
    (hPv : c = key → P v) (hf : ∀ ρ, ρ key = some v → f ρ c = ρ c) :
    (t.upsert key v f).IsKey P c := by
  unfold Table.upsert
  by_cases hany : t.any (·.isAt key v) = true
  · rw [if_pos hany]
    refine h.map fun ρ => ?_
    by_cases hat : ρ.isAt key v = true
    · rw [if_pos hat]
      exact hf ρ ((isAt_iff hQ hv).1 hat)
    · rw [if_neg hat]
  · rw [if_neg hany]
    -- the new record has no value here but the key's, which no other record has
    have hnew : ∀ x, f (.blank key v) c = some x → c = key ∧ x = v := by
      intro x hx
      rw [hf _ (if_pos rfl), Record.blank] at hx
      split at hx
      next hc => exact ⟨hc, (Option.some.inj hx).symm⟩
      next => exact absurd hx (by simp)
    have hother : ∀ ρ ∈ t, ∀ x, ρ c = some x → f (.blank key v) c ≠ some x := by
      intro ρ hρ x hx hy
      obtain ⟨hc, rfl⟩ := hnew x hy
      refine hany (List.any_eq_true.2 ⟨ρ, hρ, ?_⟩)
      exact (isAt_iff hQ hv).2 (by rw [← hc, hx])
    constructor
    · intro ρ hρ x hx
      rcases List.mem_append.1 hρ with hρ | hρ
      · exact h.fits ρ hρ x hx
      · rw [List.mem_singleton.1 hρ] at hx
        obtain ⟨hc, rfl⟩ := hnew x hx
        exact hPv hc
    · intro ρ hρ σ hσ x hx hy
      rcases List.mem_append.1 hρ with hρ | hρ <;> rcases List.mem_append.1 hσ with hσ | hσ
      · exact h.alone ρ hρ σ hσ x hx hy
      · rw [List.mem_singleton.1 hσ] at hy
        exact absurd hy (hother ρ hρ x hx)
      · rw [List.mem_singleton.1 hρ] at hx
        exact absurd hx (hother σ hσ x hy)
      · rw [List.mem_singleton.1 hρ, List.mem_singleton.1 hσ]

end Table

/-! ## The engine -/

/-- What becomes of a write. -/
inductive Verdict where
  | accept
  /-- The condition of the write does not hold. -/
  | reject
  | refuse (e : Error)

/-- An executor that keeps a table in memory. -/
structure Engine where
  /-- The key column of the table. -/
  key : String
  /-- The order of values, for ranges. -/
  less : Value → Value → Bool
  verdict : Statement → Table → Verdict

namespace Engine

/-- Whether a record satisfies all of some clauses. -/
def selects (E : Engine) (filters : List Clause) (ρ : Record) : Bool :=
  filters.all fun c => c.selects E.less ρ

/-- The records that a SELECT reads. A partition has one record, so an order has nothing to
say. -/
def records (E : Engine) (s : Select) (t : Table) : List Record :=
  let all := t.filter (E.selects s.filters)
  match s.limit with
  | none => all
  | some n => all.take n.toInt.toNat

/-- The answer to a SELECT. -/
def answer (E : Engine) (s : Select) (t : Table) : ResultSet :=
  match s.selection with
  | .columns names =>
    let columns := names.map Identifier.read
    ⟨columns, (E.records s t).map (·.row columns)⟩
  | .count => .ofCells ["count"] [[some (.bigint (Int64.ofNat (E.records s t).length))]]

/-- The keys that a filter names, if there is no other filter. -/
def named? (E : Engine) : List Clause → Option (List Value)
  | [c] =>
    if Identifier.read c.column = E.key ∧ (c.operator = .eq ∨ c.operator = .isIn) then some c.values
    else none
  | _ => none

/-- The keys that are named are the values of the one filter, on the key. -/
theorem of_named? {E : Engine} {clauses : List Clause} {vs : List Value}
    (h : E.named? clauses = some vs) :
    ∃ c, clauses = [c] ∧ Identifier.read c.column = E.key ∧ vs = c.values := by
  unfold named? at h
  split at h
  next c =>
    split at h
    next hcolumn => exact ⟨c, rfl, hcolumn.1, (Option.some.inj h).symm⟩
    next => exact absurd h (by simp)
  next => exact absurd h (by simp)

/-- The table after an accepted write. A row that is inserted needs its key, and every column
once. -/
def change (E : Engine) (st : Statement) (t : Table) : Except Error Table :=
  match st with
  | .update s =>
    match E.named? s.filters with
    | some vs => .ok (vs.foldl (fun t v => t.upsert E.key v (·.assign s.assignments)) t)
    | none => .ok (t.map fun ρ => if E.selects s.filters ρ then ρ.assign s.assignments else ρ)
  | .insert s =>
    let columns := s.values.map fun p => Identifier.read p.1
    match (columns.zip (s.values.map Prod.snd)).lookup E.key with
    | some (some v) =>
      if columns.Nodup then .ok (t.upsert E.key v (·.write s.values))
      else .error (.driver "column inserted twice")
    | _ => .error (.driver "row without key")
  | .delete s => .ok (t.filter fun ρ => !E.selects s.filters ρ)
  | .truncate _ => .ok []
  | .select _ | .text .. => .ok t

/-- Whether a write has a condition. -/
def isConditional : Statement → Bool
  | .update s => !s.conditional.isAlways
  | .insert s => s.ifNotExists
  | .delete s => !s.conditional.isAlways
  | _ => false

/-- The answer that says whether a conditional write was carried out. -/
def applied (b : Bool) : ResultSet := .ofCells [ResultSet.appliedColumn] [[some (.boolean b)]]

/-- Answers a statement. -/
def execute (E : Engine) (st : Statement) (t : Table) : Except Error ResultSet × Table :=
  match st with
  | .select s => (.ok (E.answer s t), t)
  | st =>
    match E.verdict st t with
    | .refuse e => (.error e, t)
    | .reject => (.ok (applied false), t)
    | .accept =>
      match E.change st t with
      | .error e => (.error e, t)
      | .ok t' => (.ok (if isConditional st then applied true else .empty), t')

/-- The executor that keeps the table. -/
def executor (E : Engine) : Executor Table := ⟨fun st _ t => E.execute st t⟩

end Engine

/-- A statement that was not applied changes nothing. -/
theorem Engine.execute_of_not_applied {E : Engine} {st : Statement} {t : Table}
    (h : (E.execute st t).1.bind ResultSet.wasApplied ≠ .ok true) : (E.execute st t).2 = t := by
  unfold execute at h ⊢
  split
  next => rfl
  next hselect =>
    cases hv : E.verdict st t with
    | refuse e => rfl
    | reject => rfl
    | accept =>
      cases hc : E.change st t with
      | error e => rfl
      | ok t' =>
        simp only [hv, hc] at h
        refine absurd ?_ h
        cases isConditional st <;> rfl

/-- A write that was carried out was accepted, and changed the table as it says. -/
theorem Engine.of_applied {E : Engine} {st : Statement} {t : Table}
    (hst : ∀ s, st ≠ .select s) (h : (E.execute st t).1.bind ResultSet.wasApplied = .ok true) :
    E.verdict st t = .accept ∧ E.change st t = .ok (E.execute st t).2 := by
  unfold execute at h ⊢
  split
  next s => exact absurd rfl (hst s)
  next hselect =>
    cases hv : E.verdict st t with
    | refuse e =>
      simp only [hv] at h
      exact absurd h (by simp [Except.bind])
    | reject =>
      simp only [hv] at h
      exact absurd h (by simp [Except.bind, applied, ResultSet.wasApplied, ResultSet.first?,
        ResultSet.ofCells, Row.find?, Row.position?, Row.at?, ResultSet.appliedColumn])
    | accept =>
      cases hc : E.change st t with
      | error e =>
        simp only [hv, hc] at h
        exact absurd h (by simp [Except.bind])
      | ok t' => exact ⟨rfl, rfl⟩

/-- A write that is accepted is carried out. -/
theorem Engine.execute_of_accepted {E : Engine} {st : Statement} {t t' : Table}
    (hst : ∀ s, st ≠ .select s) (hverdict : E.verdict st t = .accept)
    (hchange : E.change st t = .ok t') :
    (E.execute st t).1.bind ResultSet.wasApplied = .ok true ∧ (E.execute st t).2 = t' := by
  unfold execute
  split
  next s => exact absurd rfl (hst s)
  next =>
    simp only [hverdict, hchange, and_true]
    cases isConditional st <;> rfl

/-! ## An engine that is strict -/

/-- Restricts only the key, at most once, and does not assign it. -/
def Statement.RestrictsOnly (key : String) : Statement → Prop
  | .update s => s.filters.length ≤ 1 ∧ (∀ c ∈ s.filters, Identifier.read c.column = key) ∧
      ∀ a ∈ s.assignments, Identifier.read a.column ≠ key
  | .delete s => s.filters.length ≤ 1 ∧ ∀ c ∈ s.filters, Identifier.read c.column = key
  | _ => True

instance (key : String) : (st : Statement) → Decidable (st.RestrictsOnly key)
  | .update _ | .delete _ => inferInstanceAs (Decidable (_ ∧ _))
  | .select _ | .insert _ | .truncate _ | .text .. => inferInstanceAs (Decidable True)

/-- Accepts only updates and deletes that restrict the key alone. -/
def Engine.IsStrict (E : Engine) : Prop :=
  ∀ st t, E.verdict st t = .accept → st.RestrictsOnly E.key

/-- Accepts only updates that do not assign the key. -/
def Engine.SparesKey (E : Engine) : Prop :=
  ∀ s t, E.verdict (.update s) t = .accept →
    ∀ a ∈ s.assignments, Identifier.read a.column ≠ E.key

/-- A strict engine takes no changes of the key. -/
theorem Engine.IsStrict.sparesKey {E : Engine} (h : E.IsStrict) : E.SparesKey :=
  fun s t hverdict => (h (.update s) t hverdict).2.2

/-- Accepts every write without a condition that restricts the key alone. -/
def Engine.plain (key : String) (less : Value → Value → Bool) : Engine where
  key := key
  less := less
  verdict st _ :=
    if st.RestrictsOnly key then (if isConditional st then .reject else .accept)
    else .refuse (.driver "only the key can be restricted")

/-- The plain engine is strict. -/
theorem Engine.isStrict_plain (key : String) (less : Value → Value → Bool) :
    (plain key less).IsStrict := by
  intro st t h
  by_cases hst : st.RestrictsOnly key
  · exact hst
  · have hverdict : (plain key less).verdict st t = .refuse _ := if_neg hst
    rw [hverdict] at h
    exact absurd h (by simp)

end WideRow
