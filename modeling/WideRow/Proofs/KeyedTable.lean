import Std.Data.ExtTreeSet
import WideRow.Proofs.Table

/-!
# A table with a key of several columns

What the statements mean to a database that keeps its tables by a key and its values in an order.
Which values are equal and which is the less is for the order to say (`Storage.order`), and nothing
is assumed of it but that it is one: two values may be equal without being the same, but each is
equal to itself. `Value.agrees`, by which the tables with one key column compare, would not do for
that, since a NaN agrees with nothing and would be in a set once more whenever it is added. A set is
kept as its elements in that order, one for each of the equal ones.

INSERT writes the row of its key, which is made where there is none. An UPDATE makes the rows that
its filters name by a value for every column of the key (`Storage.named`), and changes all rows
that it selects; DELETE takes out the rows that it selects. Where a statement has a condition, no
row is made, and only rows that satisfy the condition are changed or taken out. Assignments act from
left to right. Life times and times of writing mean nothing to the table, and neither do reads and
statements in words.

> `ensure_all`: a table has all named rows after they were made, and making them again does nothing.
-/

namespace WideRow

/-- How a database keeps a table: the columns of the key, and the order of values. -/
structure Storage where
  key : List String
  order : Ord Value
  trans : Std.TransCmp order.compare

instance (D : Storage) : Std.TransCmp D.order.compare := D.trans

/-- The columns of the primary key of an entity. -/
def Entity.keyColumns (e : Entity) : List String := e.primaryKey.map (·.column.name)

namespace Storage

/-- The table of an entity. -/
def of (e : Entity) (order : Ord Value) (trans : Std.TransCmp order.compare) : Storage :=
  ⟨e.keyColumns, order, trans⟩

variable (D : Storage)

/-! ## Cells -/

/-- The elements of a set. -/
abbrev Elements : Type := Std.ExtTreeSet Value D.order.compare

/-- The elements of a list, of equal ones the first. -/
def elements (vs : List Value) : D.Elements := .ofList vs D.order.compare

/-- Whether a value is equal to one of some given ones. -/
def among (vs : List Value) (x : Value) : Bool := vs.any fun v => D.order.compare x v == .eq

/-- A collection without all elements that are equal to some given values. -/
def without (vs : List Value) : Cell → Cell
  | some (.list xs) => some (.list (xs.filter fun x => !D.among vs x))
  | some (.set xs) => some (.set (xs.filter fun x => !D.among vs x))
  | c => c

/-- The set of the elements of a collection and some more. -/
def united (vs : List Value) (c : Cell) : Cell :=
  some (.set (D.elements (Cell.items c) ∪ D.elements vs).toList)

/-- The cell after an assignment to it. -/
def cellAfter : Assignment → Cell → Cell
  | .set _ x, _ => x
  | .increment _ n, c => c.plus n
  | .decrement _ n, c => c.plus (-n)
  | .append _ v, c => some (.list (Cell.items c ++ Cell.items (some v)))
  | .prepend _ v, c => some (.list (Cell.items (some v) ++ Cell.items c))
  | .add _ v, c => D.united (Cell.items (some v)) c
  | .remove _ v, c => D.without (Cell.items (some v)) c

/-- Whether two cells are equal. -/
def sameCell : Cell → Cell → Bool
  | some x, some y => D.order.compare x y == .eq
  | none, none => true
  | _, _ => false

/-! ## Records -/

/-- Whether a value compares with another one as an operator says. -/
def compares (op : Operator) (x v : Value) : Bool :=
  match op with
  | .eq | .isIn => (D.order.compare x v).isEq
  | .lt => (D.order.compare x v).isLT
  | .lte => (D.order.compare x v).isLE
  | .gt => (D.order.compare x v).isGT
  | .gte => (D.order.compare x v).isGE

/-- Whether a record satisfies clauses; a null satisfies none. -/
def selects (clauses : List Clause) (ρ : Record) : Bool :=
  clauses.all fun c =>
    (ρ (Identifier.read c.column)).any fun x => c.values.any fun v => D.compares c.operator x v

/-- Whether a write may change or take out a record, or make one that is not there. -/
def allows (condition : Conditional) (ρ : Record) : Bool :=
  match condition with
  | .always | .ifExists => true
  | .ifAll clauses => D.selects clauses ρ

/-- Makes assignments, one after the other. -/
def assign (assignments : List Assignment) (ρ : Record) : Record :=
  assignments.foldl (fun ρ a =>
    ρ.set (Identifier.read a.column) (D.cellAfter a (ρ (Identifier.read a.column)))) ρ

/-- Whether two records have the same key. -/
def sameKey (ρ σ : Record) : Bool := D.key.all fun c => D.sameCell (ρ c) (σ c)

/-- The values that filters ask of a column by equality or membership. -/
def asked (filters : List Clause) (column : String) : List Value :=
  (filters.filter fun c => Identifier.read c.column == column &&
    (c.operator == .eq || c.operator == .isIn)).flatMap (·.values)

/-- The records that have nothing but a value for each of the columns, as filters ask. -/
def keyed (filters : List Clause) : (columns : List String) → List Record
  | [] => [fun _ => none]
  | c :: cs => (asked filters c).flatMap fun v => (keyed filters cs).map (·.set c (some v))

/-- The records that filters name: they have nothing but their key, and satisfy the filters. -/
def named (filters : List Clause) : List Record := (keyed filters D.key).filter (D.selects filters)

/-! ## Statements -/

/-- A table with a record, which is added if there is none with its key. -/
def ensure (t : Table) (ρ : Record) : Table := if t.any (D.sameKey ρ) then t else t ++ [ρ]

/-- A table after an UPDATE. -/
def update (s : Update) (t : Table) : Table :=
  (if s.conditional.isAlways then (D.named s.filters).foldl D.ensure t else t).map fun ρ =>
    if D.selects s.filters ρ && D.allows s.conditional ρ then D.assign s.assignments ρ else ρ

/-- A table after an INSERT, which must have a value for every column of the key. -/
def insert (s : Insert) (t : Table) : Table :=
  let written : Record := Record.write (fun _ => none) s.values
  if D.key.all (fun c => (written c).isSome) && !(s.ifNotExists && t.any (D.sameKey written)) then
    (D.ensure t written).map fun ρ => if D.sameKey written ρ then ρ.write s.values else ρ
  else t

/-- A table after a DELETE. -/
def delete (s : Delete) (t : Table) : Table :=
  t.filter fun ρ => !(D.selects s.filters ρ && D.allows s.conditional ρ)

/-- A table after a statement. -/
def execute : Statement → Table → Table
  | .update s, t => D.update s t
  | .insert s, t => D.insert s t
  | .delete s, t => D.delete s t
  | .truncate _, _ => []
  | .select _, t => t
  | .text _ _, t => t

/-! ## Keys -/

variable {D} {t : Table} {ρ σ : Record}

@[simp] theorem sameCell_self (c : Cell) : D.sameCell c c = true := by
  cases c with
  | none => rfl
  | some x =>
    have hself : D.order.compare x x = .eq := Std.ReflCmp.compare_self
    rw [sameCell, hself]
    rfl

theorem sameKey_of_eq (h : ∀ c ∈ D.key, ρ c = σ c) : D.sameKey ρ σ = true := by
  refine List.all_eq_true.2 fun c hc => ?_
  rw [h c hc, sameCell_self]

/-- A record that agrees with another one on the key has the same key as whatever that one has. -/
theorem sameKey_congr {τ : Record} (h : ∀ c ∈ D.key, τ c = σ c) :
    D.sameKey ρ τ = D.sameKey ρ σ := by
  rw [Bool.eq_iff_iff, sameKey, sameKey, List.all_eq_true, List.all_eq_true]
  exact forall₂_congr fun c hc => by rw [h c hc]

/-! ## Making rows -/

/-- A record that is there is not made again. -/
theorem ensure_of_any (h : t.any (D.sameKey ρ) = true) : D.ensure t ρ = t := if_pos h

/-- After it was made, a record is there. -/
theorem any_ensure (ρ : Record) (t : Table) : (D.ensure t ρ).any (D.sameKey ρ) = true := by
  unfold ensure
  split
  next h => exact h
  next =>
    rw [List.any_append, Bool.or_eq_true]
    exact .inr (by simp [sameKey_of_eq])

/-- What is in a table stays there when a row is made. -/
theorem any_ensure_of_any {p : Record → Bool} (h : t.any p = true) :
    (D.ensure t ρ).any p = true := by
  unfold ensure
  split
  next => exact h
  next => rw [List.any_append, h, Bool.true_or]

theorem any_foldl_ensure {p : Record → Bool} : ∀ {ρs : List Record} {t : Table},
    t.any p = true → (ρs.foldl D.ensure t).any p = true
  | [], _, h => h
  | ρ :: ρs, t, h => by
    rw [List.foldl_cons]
    exact any_foldl_ensure (any_ensure_of_any h)

/-- A table where rows were made has them all. -/
theorem any_ensure_all : ∀ {ρs : List Record} {t : Table}, ρ ∈ ρs →
    (ρs.foldl D.ensure t).any (D.sameKey ρ) = true
  | σ :: ρs, t, h => by
    rw [List.foldl_cons]
    rcases List.mem_cons.1 h with rfl | h
    · exact any_foldl_ensure (any_ensure ρ t)
    · exact any_ensure_all h

/-- Rows that are there are not made again. -/
theorem ensure_all {t : Table} : ∀ {ρs : List Record},
    (∀ ρ ∈ ρs, t.any (D.sameKey ρ) = true) → ρs.foldl D.ensure t = t
  | [], _ => rfl
  | ρ :: ρs, h => by
    rw [List.foldl_cons, ensure_of_any (h ρ (List.mem_cons_self ..))]
    exact ensure_all fun σ hσ => h σ (List.mem_cons_of_mem ρ hσ)

end Storage

end WideRow
