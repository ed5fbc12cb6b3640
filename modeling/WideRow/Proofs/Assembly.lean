import WideRow.Operation.PointQuery
import WideRow.Operation.RowCount
import WideRow.Operation.RowDelete
import WideRow.Operation.RowInsert

/-!
# How operations are put together

An operation is put together by any number of calls, none of which fails. Some of them have no
effect but that an error is kept. How an operation came about, and the error of the first call that
went wrong on the way, is a relation for each kind of operation (`Query.Made` and its siblings).
What a call is refused for is said there without a look at what the operation keeps.

> `Query.Made.first_eq` and its siblings: an operation keeps the error of the first call that went
> wrong, in the form in which errors are kept.
-/

namespace WideRow

/-! ## What calls are refused for -/

/-- The error that a computation ends with. -/
def fault? {ε α : Type} : Except ε α → Option ε
  | .error e => some e
  | .ok _ => none

/-- Why a property is not given a value: there is no such property, or the value has no cell. -/
def Getter.refusal? {t : ColumnType} (g : Getter t) (v : t.Carrier) : Option Error :=
  match g.resolve, t.encode v with
  | .error e, _ => some e
  | .ok n, .error e => some (.invalidArgument (.invalidFor n.text e))
  | .ok _, .ok _ => none

/-- Why an element is not given to a collection: no such property, no cell, or null. -/
def refusalOfElement? {t t' : ColumnType} (g : Getter t') (v : t.Carrier) : Option Error :=
  match g.resolve, t.encode v with
  | .error e, _ => some e
  | .ok n, .error e => some (.invalidArgument (.invalidFor n.text e))
  | .ok n, .ok none => some (.invalidArgument (.emptyFor n.text))
  | .ok _, .ok (some _) => none

/-- Why rows are not ordered by a property: there is none, or it is no clustering column. -/
def Entity.refusalOfOrder? (e : Entity) (property : String) : Option Error :=
  match e.node property with
  | .error err => some err
  | .ok n => if n.property.role = .clusteringColumn then none
      else some (.mapping (.notClustering n.text))

/-- Why columns are not read as an item of an entity: one of them is of another entity. -/
def Entity.refusalOfColumns? (e : Entity) (columns : List Node) : Option Error :=
  (columns.find? fun n => n.entity ≠ e).map fun n => .mapping (.foreignColumn n.text e.name)

/-- A call that all operations but inserts take. -/
inductive SharedCall where
  | where_ (f : Except Error Filter)
  | onlyIf (f : Except Error Filter)
  | configure (change : StatementOptions → StatementOptions)

namespace SharedCall

/-- Makes the call. -/
def apply {ω : Type} [Restricted ω] [Configured ω] (op : ω) : SharedCall → ω
  | where_ f => Restricted.where_ op f
  | onlyIf f => Restricted.onlyIf op f
  | configure change => Configured.mapOptions change op

/-- What the call is refused for. -/
def refusal? : SharedCall → Option Error
  | where_ f | onlyIf f => fault? f
  | configure _ => none

end SharedCall

/-! ## How operations are put together -/

/-- A query, and the error of the first call that went wrong while it was put together. -/
inductive Query.Made : {α : Type} → Query α → Option Error → Prop
  | ofProperty {t : ColumnType} (g : Getter t) : Made (ofProperty g) (fault? g.resolve)
  | ofProperties (gs : List AnyGetter) :
    Made (ofProperties gs) (gs.findSome? fun g => fault? g.2.resolve)
  | all {α : Type} (m : Mapping α) : Made (all m) none
  | raw : Made raw none
  | column {q : Query Row} {first : Option Error} (h : Made q first) (e : Entity)
    (property : String) : Made (q.column e property) (first.or (fault? (e.node property)))
  | orderBy {α : Type} {q : Query α} {first : Option Error} (h : Made q first) (e : Entity)
    (property : String) (d : Direction) :
    Made (q.orderBy e property d) (first.or (e.refusalOfOrder? property))
  | limited {α : Type} {q : Query α} {first : Option Error} (h : Made q first) (n : Int32) :
    Made (q.limited n) first
  | allowFiltering {α : Type} {q : Query α} {first : Option Error} (h : Made q first) :
    Made q.allowFiltering first
  | withMapper {α β : Type} {q : Query α} {first : Option Error} (h : Made q first)
    (mapper : Row → Except Error β) : Made (q.withMapper mapper) first
  | map {α β : Type} {q : Query α} {first : Option Error} (h : Made q first) (f : α → β) :
    Made (q.map f) first
  | mapTo {α β : Type} {q : Query α} {first : Option Error} (h : Made q first) (m : Mapping β) :
    Made (q.mapTo m) (first.or (m.entity.refusalOfColumns? q.projection))
  | shared {α : Type} {q : Query α} {first : Option Error} (h : Made q first) (c : SharedCall) :
    Made (c.apply q) (first.or c.refusal?)

/-- A query for a single row, with its first error. -/
inductive PointQuery.Made : {α : Type} → PointQuery α → Option Error → Prop
  | single {α : Type} {q : Query α} {first : Option Error} (h : q.Made first) : Made q.single first
  | map {α β : Type} {q : PointQuery α} {first : Option Error} (h : Made q first) (f : α → β) :
    Made (q.map f) first
  | shared {α : Type} {q : PointQuery α} {first : Option Error} (h : Made q first)
    (c : SharedCall) : Made (c.apply q) (first.or c.refusal?)

/-- A count, with its first error. It takes the place of a query that reads one table. -/
inductive RowCount.Made : RowCount → Option Error → Prop
  | of (e : Entity) : Made (of e) none
  | ofQuery {α : Type} {q : Query α} {first : Option Error} (h : q.Made first) :
    Made q.count (first.or (fault? q.entity))
  | allowFiltering {c : RowCount} {first : Option Error} (h : Made c first) :
    Made c.allowFiltering first
  | shared {c : RowCount} {first : Option Error} (h : Made c first) (call : SharedCall) :
    Made (call.apply c) (first.or call.refusal?)

/-- An update, with its first error. -/
inductive RowUpdate.Made : RowUpdate → Option Error → Prop
  | new : Made {} none
  | set {u : RowUpdate} {first : Option Error} (h : Made u first) {t : ColumnType} (g : Getter t)
    (v : t.Carrier) : Made (u.set g v) (first.or (g.refusal? v))
  | increment {u : RowUpdate} {first : Option Error} (h : Made u first) (g : Getter .bigint)
    (delta : Int64) : Made (u.increment g delta) (first.or (fault? g.resolve))
  | decrement {u : RowUpdate} {first : Option Error} (h : Made u first) (g : Getter .bigint)
    (delta : Int64) : Made (u.decrement g delta) (first.or (fault? g.resolve))
  | append {u : RowUpdate} {first : Option Error} (h : Made u first) {t : ColumnType}
    (g : Getter (.list t)) (v : t.Carrier) : Made (u.append g v) (first.or (refusalOfElement? g v))
  | prepend {u : RowUpdate} {first : Option Error} (h : Made u first) {t : ColumnType}
    (g : Getter (.list t)) (v : t.Carrier) :
    Made (u.prepend g v) (first.or (refusalOfElement? g v))
  | discard {u : RowUpdate} {first : Option Error} (h : Made u first) {t : ColumnType}
    (g : Getter (.list t)) (v : t.Carrier) :
    Made (u.discard g v) (first.or (refusalOfElement? g v))
  | add {u : RowUpdate} {first : Option Error} (h : Made u first) {t : ColumnType}
    (g : Getter (.set t)) (v : t.Carrier) : Made (u.add g v) (first.or (refusalOfElement? g v))
  | remove {u : RowUpdate} {first : Option Error} (h : Made u first) {t : ColumnType}
    (g : Getter (.set t)) (v : t.Carrier) : Made (u.remove g v) (first.or (refusalOfElement? g v))
  | ifExists {u : RowUpdate} {first : Option Error} (h : Made u first) : Made u.ifExists first
  | withTtl {u : RowUpdate} {first : Option Error} (h : Made u first) (seconds : Int32) :
    Made (u.withTtl seconds) first
  | withTimestamp {u : RowUpdate} {first : Option Error} (h : Made u first) (micros : Int64) :
    Made (u.withTimestamp micros) first
  | shared {u : RowUpdate} {first : Option Error} (h : Made u first) (c : SharedCall) :
    Made (c.apply u) (first.or c.refusal?)

/-- An insert, with its first error. -/
inductive RowInsert.Made : RowInsert → Option Error → Prop
  | new : Made {} none
  | ofItem {α : Type} (m : Mapping α) (item : α) : Made (ofItem m item) (fault? (m.nodeCells item))
  | value {i : RowInsert} {first : Option Error} (h : Made i first) {t : ColumnType} (g : Getter t)
    (v : t.Carrier) : Made (i.value g v) (first.or (g.refusal? v))
  | ifNotExists {i : RowInsert} {first : Option Error} (h : Made i first) : Made i.ifNotExists first
  | withTtl {i : RowInsert} {first : Option Error} (h : Made i first) (seconds : Int32) :
    Made (i.withTtl seconds) first
  | withTimestamp {i : RowInsert} {first : Option Error} (h : Made i first) (micros : Int64) :
    Made (i.withTimestamp micros) first
  | configure {i : RowInsert} {first : Option Error} (h : Made i first)
    (change : StatementOptions → StatementOptions) : Made (Configured.mapOptions change i) first

/-- A delete, with its first error. -/
inductive RowDelete.Made : RowDelete → Option Error → Prop
  | of (e : Entity) : Made (of e) none
  | ifExists {d : RowDelete} {first : Option Error} (h : Made d first) : Made d.ifExists first
  | withTimestamp {d : RowDelete} {first : Option Error} (h : Made d first) (micros : Int64) :
    Made (d.withTimestamp micros) first
  | shared {d : RowDelete} {first : Option Error} (h : Made d first) (c : SharedCall) :
    Made (c.apply d) (first.or c.refusal?)

/-! ## The error that is kept -/

namespace Pending

/-- Errors of construction are kept as they are. -/
theorem kept_of_isConstruction {e : Error} (h : e.isConstruction = true) : kept e = e := by
  cases e with
  | mapping | invalidArgument => rfl
  | _ => exact absurd h Bool.false_ne_true

/-- Of any other error the text is kept. -/
theorem kept_of_not_isConstruction {e : Error} (h : e.isConstruction = false) :
    kept e = .mapping (.reported e.message) := by
  cases e with
  | mapping | invalidArgument => exact absurd h.symm Bool.false_ne_true
  | _ => rfl

/-- Whatever a call was refused for, what is kept is an error of construction. -/
theorem isConstruction_kept (e : Error) : (kept e).isConstruction = true := by
  cases e <;> rfl

/-- The first error goes on being the first. -/
theorem first_or {p p' : Pending} {first refusal : Option Error}
    (hp : p.first = first.map kept) (hp' : p'.first = p.first.or (refusal.map kept)) :
    p'.first = (first.or refusal).map kept := by
  rw [hp', hp, Option.map_or]

/-- An operation does not come to a statement once it keeps an error. -/
theorem check_bind {α : Type} {p : Pending} {e : Error} (h : p.first = (some e).map kept)
    (f : Unit → Except Error α) : (p.check >>= f) = .error (kept e) := by
  rw [check, h]
  rfl

end Pending

namespace Conditions

variable (c : Conditions)

/-- A filter is refused if it cannot be made, and an earlier refusal stays. -/
theorem first_where (f : Except Error Filter) :
    (c.where_ f).pending.first = c.pending.first.or ((fault? f).map Pending.kept) := by
  cases f with
  | ok f => exact (Option.or_none ..).symm
  | error e => rfl

theorem first_only (f : Except Error Filter) :
    (c.only f).pending.first = c.pending.first.or ((fault? f).map Pending.kept) := by
  cases f with
  | ok f => exact (Option.or_none ..).symm
  | error e => rfl

/-- The conditions after a call. -/
def after : SharedCall → Conditions
  | .where_ f => c.where_ f
  | .onlyIf f => c.only f
  | .configure _ => c

/-- All calls that builders share keep the first refusal. -/
theorem first_after (call : SharedCall) :
    (c.after call).pending.first = c.pending.first.or (call.refusal?.map Pending.kept) := by
  cases call with
  | where_ f => exact c.first_where f
  | onlyIf f => exact c.first_only f
  | configure change => exact (Option.or_none ..).symm

/-- A call of an operation is recorded with the conditions of the operation. -/
theorem first_shared {c c' : Conditions} {first : Option Error} (call : SharedCall)
    (hc : c' = c.after call) (h : c.pending.first = first.map Pending.kept) :
    c'.pending.first = (first.or call.refusal?).map Pending.kept := by
  subst hc
  exact Pending.first_or h (c.first_after call)

end Conditions

namespace Query

variable {α β : Type}

/-- The columns of several properties are missed for the first that does not resolve. -/
theorem fault?_resolveAll : ∀ gs : List AnyGetter,
    fault? (resolveAll gs) = gs.findSome? fun g => fault? g.2.resolve
  | [] => rfl
  | ⟨t, g⟩ :: gs => by
    have ih := fault?_resolveAll gs
    rw [List.findSome?_cons]
    simp only [resolveAll]
    cases hn : g.resolve with
    | error e => simp only [fault?, bind, Except.bind]
    | ok n =>
      rw [show fault? (Except.ok n : Except Error Node) = none from rfl, ← ih]
      cases resolveAll gs with
      | error e => rfl
      | ok columns => rfl

/-- A query of one property is refused for that property. -/
theorem first_ofProperty {t : ColumnType} (g : Getter t) :
    (ofProperty g).conditions.pending.first = (fault? g.resolve).map Pending.kept := by
  unfold ofProperty
  cases g.resolve <;> rfl

/-- A query of several properties is refused for the first of them that cannot be resolved. -/
theorem first_ofProperties (gs : List AnyGetter) :
    (ofProperties gs).conditions.pending.first =
      (gs.findSome? fun g => fault? g.2.resolve).map Pending.kept := by
  rw [← fault?_resolveAll]
  unfold ofProperties
  cases resolveAll gs <;> rfl

theorem first_column (q : Query Row) (e : Entity) (property : String) :
    (q.column e property).conditions.pending.first =
      q.conditions.pending.first.or ((fault? (e.node property)).map Pending.kept) := by
  unfold column
  cases e.node property with
  | ok n => exact (Option.or_none ..).symm
  | error err => rfl

/-- An order is refused for a column that is no clustering column. -/
theorem first_orderBy (q : Query α) (e : Entity) (property : String) (d : Direction) :
    (q.orderBy e property d).conditions.pending.first =
      q.conditions.pending.first.or ((e.refusalOfOrder? property).map Pending.kept) := by
  unfold orderBy Ordered.create Entity.refusalOfOrder?
  cases e.node property with
  | error err => rfl
  | ok n =>
    by_cases hrole : n.property.role = .clusteringColumn
    · simp only [bind, Except.bind, if_pos hrole]
      exact (Option.or_none ..).symm
    · simp only [bind, Except.bind, if_neg hrole]
      rfl

/-- A mapping is refused for a column of another entity. -/
theorem first_mapTo (q : Query α) (m : Mapping β) :
    (q.mapTo m).conditions.pending.first = q.conditions.pending.first.or
      ((m.entity.refusalOfColumns? q.projection).map Pending.kept) := by
  unfold mapTo Entity.refusalOfColumns?
  cases q.projection.find? fun n => n.entity ≠ m.entity with
  | none => exact (Option.or_none ..).symm
  | some n => rfl

/-- A query keeps the error of the first call that went wrong. -/
theorem Made.first_eq {q : Query α} {first : Option Error} (h : q.Made first) :
    q.conditions.pending.first = first.map Pending.kept := by
  induction h with
  | ofProperty g => exact first_ofProperty g
  | ofProperties gs => exact first_ofProperties gs
  | all m => rfl
  | raw => rfl
  | column _ e property ih => exact Pending.first_or ih (first_column _ e property)
  | orderBy _ e property d ih => exact Pending.first_or ih (first_orderBy _ e property d)
  | limited _ n ih => exact ih
  | allowFiltering _ ih => exact ih
  | withMapper _ mapper ih => exact ih
  | map _ f ih => exact ih
  | mapTo _ m ih => exact Pending.first_or ih (first_mapTo _ m)
  | shared _ c ih => exact Conditions.first_shared c (by cases c <;> rfl) ih

end Query

/-- The error that a lookup keeps is that of the first call that was refused. -/
theorem PointQuery.Made.first_eq {α : Type} {q : PointQuery α} {first : Option Error}
    (h : q.Made first) : q.query.conditions.pending.first = first.map Pending.kept := by
  induction h with
  | single h => exact h.first_eq
  | map _ f ih => exact ih
  | shared _ c ih => exact Conditions.first_shared c (by cases c <;> rfl) ih

theorem RowCount.Made.first_eq {c : RowCount} {first : Option Error} (h : c.Made first) :
    c.conditions.pending.first = first.map Pending.kept := by
  induction h with
  | of e => rfl
  | @ofQuery _ q _ h =>
    refine Pending.first_or h.first_eq ?_
    unfold Query.count
    cases q.entity with
    | ok e => exact (Option.or_none ..).symm
    | error e => rfl
  | allowFiltering _ ih => exact ih
  | shared _ call ih => exact Conditions.first_shared call (by cases call <;> rfl) ih

namespace RowUpdate

/-- A change is recorded as an error where its property does not resolve, or where it cannot be
made for the property. -/
theorem first_change {t : ColumnType} (u : RowUpdate) (g : Getter t)
    (make : Node → Except Error Change) : (u.change g make).conditions.pending.first =
      u.conditions.pending.first.or ((fault? (g.resolve >>= make)).map Pending.kept) := by
  unfold change
  cases g.resolve with
  | error e => rfl
  | ok n =>
    simp only [bind, Except.bind]
    cases make n with
    | error e => rfl
    | ok c => exact (Option.or_none ..).symm

/-- To set a column is refused for the column or for the value, and for the column first. -/
theorem fault?_cell {t : ColumnType} (g : Getter t) (v : t.Carrier) :
    fault? (g.resolve >>= fun n => return Change.set (← cellFor t v n)) = g.refusal? v := by
  unfold Getter.refusal? cellFor
  cases g.resolve with
  | error e => rfl
  | ok n => cases t.encode v <;> rfl

/-- To add an element to a collection is refused for the column or for the element. -/
theorem fault?_element {t t' : ColumnType} (g : Getter t') (v : t.Carrier)
    (make : Value → Change) :
    fault? (g.resolve >>= fun n => return make (← elementFor t v n)) = refusalOfElement? g v := by
  unfold refusalOfElement? elementFor cellFor
  cases g.resolve with
  | error e => rfl
  | ok n =>
    cases t.encode v with
    | error e => rfl
    | ok c => cases c <;> rfl

/-- To count up is refused for the column only. -/
theorem fault?_counter (g : Getter .bigint) (c : Change) :
    fault? (g.resolve >>= fun _ => .ok c) = fault? g.resolve := by
  cases g.resolve <;> rfl

/-- The error that an update keeps is that of the first call that was refused. -/
theorem Made.first_eq {u : RowUpdate} {first : Option Error} (h : u.Made first) :
    u.conditions.pending.first = first.map Pending.kept := by
  -- a change to a property is refused for what its making fails with
  have hchange : ∀ {t : ColumnType} {u : RowUpdate} {first refusal : Option Error} (g : Getter t)
      (make : Node → Except Error Change),
      u.conditions.pending.first = first.map Pending.kept →
      fault? (g.resolve >>= make) = refusal →
      (u.change g make).conditions.pending.first = (first.or refusal).map Pending.kept := by
    rintro t u first _ g make ih rfl
    exact Pending.first_or ih (u.first_change g make)
  induction h with
  | new => rfl
  | set _ g v ih => exact hchange g _ ih (fault?_cell g v)
  | increment _ g delta ih => exact hchange g _ ih (fault?_counter g _)
  | decrement _ g delta ih => exact hchange g _ ih (fault?_counter g _)
  | append _ g v ih => exact hchange g _ ih (fault?_element g v .append)
  | prepend _ g v ih => exact hchange g _ ih (fault?_element g v .prepend)
  | discard _ g v ih => exact hchange g _ ih (fault?_element g v .discard)
  | add _ g v ih => exact hchange g _ ih (fault?_element g v .add)
  | remove _ g v ih => exact hchange g _ ih (fault?_element g v .remove)
  | ifExists _ ih => exact ih
  | withTtl _ seconds ih => exact ih
  | withTimestamp _ micros ih => exact ih
  | shared _ c ih => exact Conditions.first_shared c (by cases c <;> rfl) ih

end RowUpdate

namespace RowInsert

/-- A value is refused if it cannot be bound, and an earlier refusal stays. -/
theorem first_value {t : ColumnType} (i : RowInsert) (g : Getter t) (v : t.Carrier) :
    (i.value g v).pending.first =
      i.pending.first.or ((g.refusal? v).map Pending.kept) := by
  unfold value Getter.refusal?
  cases g.resolve with
  | error e => rfl
  | ok n =>
    cases t.encode v with
    | error e => rfl
    | ok c => exact (Option.or_none ..).symm

theorem Made.first_eq {i : RowInsert} {first : Option Error} (h : i.Made first) :
    i.pending.first = first.map Pending.kept := by
  induction h with
  | new => rfl
  | ofItem m item =>
    unfold RowInsert.ofItem
    cases m.nodeCells item <;> rfl
  | value _ g v ih => exact Pending.first_or ih (first_value _ g v)
  | ifNotExists _ ih => exact ih
  | withTtl _ seconds ih => exact ih
  | withTimestamp _ micros ih => exact ih
  | configure _ change ih => exact ih

end RowInsert

theorem RowDelete.Made.first_eq {d : RowDelete} {first : Option Error} (h : d.Made first) :
    d.conditions.pending.first = first.map Pending.kept := by
  induction h with
  | of e => rfl
  | ifExists _ ih => exact ih
  | withTimestamp _ micros ih => exact ih
  | shared _ c ih => exact Conditions.first_shared c (by cases c <;> rfl) ih

end WideRow
