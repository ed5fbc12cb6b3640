import WideRow.Proofs.Admission

/-!
# Operations stay within their table

The entries of all tables share the session cache, and those of all tables share a unit: they are
told apart by their keys alone, and a table is dropped by the text that its keys begin with. Here is
what keeps an operation to its own table. Every key that it writes, marks or drops comes from the
facets of its own entity (`OwnedBy`), or begins with the name of the entity's table and a dot.

> `SessionStep.within_run`: whatever a step of an entity changes in the caches stands under keys of
> its table.
>
> `keeps_other_table`: an entry of another table does not come, change or go, whatever the columns
> of both tables are called and whatever stands in them, as long as no table has a dot in its name.

It takes the dot to tell the tables apart: a table `simple` may stand beside `simple_users`, but one
that is called `simple.users` would have keys that begin with `simple.` too.
-/

namespace WideRow

/-- A key that comes from a row of the entity, or from values for its columns, as they stand in
the filters of an operation. -/
def Entity.Derives (e : Entity) (key : String) : Prop :=
  (∃ r, e.Files r key) ∨ ∃ values, key ∈ Facet.keys (e.facetsOfValues values)

/-- What a cache has under other keys than those of `N` stays. -/
def SessionCache.Within (N : String → Prop) (c c' : SessionCache) : Prop :=
  ∀ key, ¬ N key → c'.rows[key]? = c.rows[key]?

/-- The session cache and all units have the same under a key. -/
structure State.SameUnder {σ : Type} (w w' : State σ) (key : String) : Prop where
  cache : w'.cache.rows[key]? = w.cache.rows[key]?
  units : ∀ i, (w'.units.get? i).map (·.entries[key]?) = (w.units.get? i).map (·.entries[key]?)

/-- Whatever changes in the caches stands under keys of `N`. -/
def State.Within {σ : Type} (N : String → Prop) (w w' : State σ) : Prop :=
  ∀ key, ¬ N key → w.SameUnder w' key

/-- A step is an operation of the entity, or puts an item of it into the session cache. -/
def SessionStep.IsOf (e : Entity) : SessionStep → Prop
  | call _ c => c.entity? = some e
  | keep m _ => m.entity = e
  | begin _ _ | commit _ | abort _ => False

/-! ## Keys of a table -/

/-- Keys that an entity derives begin with its table. -/
theorem Entity.owns_of_derives {e : Entity} {key : String} (h : e.Derives key) : e.Owns key := by
  rcases h with ⟨r, hfiles⟩ | ⟨values, hkey⟩
  · exact owns_of_files hfiles
  · exact owns_of_mem_keys rfl hkey

/-! ## What one step leaves alone -/

section

variable {σ : Type} {s : Session σ} {N M : String → Prop} {w w₁ w₂ : State σ} {db : σ} {i : Nat}
  {key : String}

theorem State.SameUnder.refl (w : State σ) (key : String) : w.SameUnder w key :=
  ⟨rfl, fun _ => rfl⟩

/-- What two steps leave under a key, both leave together. -/
theorem State.SameUnder.trans (h : w.SameUnder w₁ key) (h' : w₁.SameUnder w₂ key) :
    w.SameUnder w₂ key :=
  ⟨h'.cache.trans h.cache, fun i => (h'.units i).trans (h.units i)⟩

/-- A statement changes nothing under any key. -/
theorem State.Moved.sameUnder (h : w.Moved db w₁) (key : String) : w.SameUnder w₁ key where
  cache := by rw [h.cache]
  units i := by
    have hknown := congrArg (Option.map fun known => known.2[key]?) (h.units i)
    rwa [Option.map_map, Option.map_map] at hknown

theorem State.within_refl (w : State σ) : w.Within M w := fun key _ => .refl w key

/-- Steps that keep to some keys keep to them together. -/
theorem State.Within.trans (h : w.Within M w₁) (h' : w₁.Within M w₂) : w.Within M w₂ :=
  fun key hkey => (h key hkey).trans (h' key hkey)

/-- A key of another table does not begin as those of the dropped one. -/
theorem Entity.not_owns {e : Entity} (hkeys : ∀ key, e.Owns key → M key) (hkey : ¬ M key) :
    ¬ (Facet.schemaStart e.table.name).isPrefixOf key = true := mt (hkeys key) hkey

/-- A change of the session cache keeps to the keys that it may touch. -/
theorem SessionCache.Change.within {c c' : SessionCache} (h : c.Change N M c') :
    c.Within M c' := by
  intro key hkey
  cases h with
  | put r _ _ hkeys => rw [rows_put, if_neg (mt (hkeys key) hkey)]
  | invalidate hkeys => rw [rows_invalidate, if_neg (mt (hkeys key) hkey)]
  | invalidateSchema hkeys => rw [rows_invalidateSchema_eq, if_neg (Entity.not_owns hkeys hkey)]

/-- A unit that changes under some keys only changes the state under these. -/
theorem State.within_modify {f : UnitOfWork → UnitOfWork}
    (h : ∀ (u : UnitOfWork) (key : String), ¬ M key → (f u).entries[key]? = u.entries[key]?) :
    w.Within M (w.modifyUnit i f) :=
  fun key hkey => ⟨rfl, w.units.map_get?_modify (fun u => h u key hkey) i⟩

/-- A change of a state keeps to the keys that it may touch. -/
theorem State.Change.within (h : w.Change N M w₁) : w.Within M w₁ := by
  cases h with
  | session hchange => exact fun key hkey => ⟨hchange.within key hkey, fun _ => rfl⟩
  | hold i r _ hkeys | mark i hkeys =>
    refine State.within_modify fun u key hkey => ?_
    rw [UnitOfWork.entries_put, if_neg (mt (hkeys key) hkey)]
  | forget i hkeys =>
    refine State.within_modify fun u key hkey => ?_
    rw [UnitOfWork.entries_evictSchema, if_neg (Entity.not_owns hkeys hkey)]

/-- The caches touch no other keys than those that they may change. -/
theorem State.Works.within (h : w.Works N M w₁) : w.Within M w₁ := by
  induction h with
  | refl => exact w.within_refl
  | tail _ hstep ih =>
    obtain hchange | ⟨_, hmoved⟩ := hstep
    · exact ih.trans hchange.within
    · exact ih.trans fun key _ => hmoved.sameUnder key

/-! ## Runs -/

namespace SessionStep

/-- A step of an entity keeps to the keys of this entity. -/
theorem within_run {e : Entity} {x : SessionStep} (h : x.IsOf e) :
    w.Within (OwnedBy (some e)) (x.run s w) := by
  cases x with
  | call unit c =>
    have hworks := works_call c s unit w
    rw [show c.entity? = some e from h] at hworks
    exact hworks.within
  | keep m item =>
    obtain rfl : m.entity = e := h
    exact (changes_updateCache s m item w).works.within
  | begin label parent => exact h.elim
  | commit i => exact h.elim
  | abort i => exact h.elim

theorem within_stateAfter {e : Entity} : ∀ {past : List SessionStep}, (∀ x ∈ past, x.IsOf e) →
    w.Within (OwnedBy (some e)) (stateAfter s w past)
  | [], _ => w.within_refl
  | x :: _, h => (within_stateAfter fun y hy => h y (List.mem_cons_of_mem x hy)).trans
      (within_run (h x (List.mem_cons_self ..)))

end SessionStep

/-- An operation of one entity, of whatever kind and outside of units or in one, leaves everything
as it was that the session cache and the units have under keys of an entity with another table, if
the names of both tables have no dot: no such entry comes, changes or goes. So does a run of
operations, each in a unit of its choice. -/
theorem keeps_other_table (s : Session σ) {e e' : Entity} (hplain : '.' ∉ e.table.name.toList)
    (hplain' : '.' ∉ e'.table.name.toList) (hother : e.table.name ≠ e'.table.name) {key : String}
    (hkey : e'.Derives key) :
    (∀ (x : SessionStep) (w : State σ), x.IsOf e → w.SameUnder (x.run s w) key) ∧
    ∀ (past : List SessionStep) (w : State σ), (∀ x ∈ past, x.IsOf e) →
      w.SameUnder (SessionStep.stateAfter s w past) key := by
  -- a key is of one table only: the name before its first dot
  have hforeign : ¬ OwnedBy (some e) key := by
    rintro ⟨e₁, he, howns⟩
    obtain rfl := Option.some.inj he
    exact hother (Entity.table_eq_of_owns hplain hplain' howns (Entity.owns_of_derives hkey))
  exact ⟨fun _ _ hx => SessionStep.within_run hx key hforeign,
    fun _ _ hpast => SessionStep.within_stateAfter hpast key hforeign⟩

end

/-! ## Beside the users -/

/-- A table whose name is the beginning of the users' one, with a column that is named like the
users' keys. -/
def Simple.entity : Entity :=
  Entity.declare "Simple" "Simple" "simple"
    |>.cacheable true
    |>.partitionKey "users.id"
    |>.column "name"

namespace Simple

/-- A user is written outside of units and in one, the latest step first. -/
def usersWritten : List SessionStep :=
  [.call (some 0) (.insert (.ofItem User.mapping ⟨7, "Ann", 30⟩)), .begin "unit" none,
    .call none (.insert (.ofItem User.mapping ⟨7, "Ann", 30⟩))]

/-- Writes a row of which all that is said reads like a user's key. -/
def lookalike : RowInsert :=
  RowInsert.value (RowInsert.value {} (t := .text) ⟨entity, "users.id"⟩ "7;simple_users.id==7")
    (t := .text) ⟨entity, "name"⟩ "simple_users.id==7"

/-- Renames all rows. -/
def renameAll : RowUpdate := RowUpdate.set {} (t := .text) ⟨entity, "name"⟩ "simple_users"

/-- The table is written, changed as a whole and emptied, in the unit and outside of it. -/
def cleared : List SessionStep :=
  [.call none (.delete (.of entity)), .call (some 0) (.delete (.of entity)),
    .call none (.update renameAll), .call (some 0) (.update renameAll),
    .call none (.insert lookalike), .call (some 0) (.insert lookalike)]

/-- The user stays in both caches. -/
theorem users_beside_cleared :
    let w := SessionStep.stateAfter Account.compliant (Account.compliant.start ()) usersWritten
    let after := SessionStep.stateAfter Account.compliant w cleared
    User.entity.Derives "simple_users.id==7" ∧
    (w.cache.rows["simple_users.id==7"]?).isSome ∧
    (after.cache.rows["simple_users.id==7"]?).isSome ∧
    ((w.units.get? 0).map (·.entries["simple_users.id==7"]?)).join.isSome ∧
    ((after.units.get? 0).map (·.entries["simple_users.id==7"]?)).join.isSome := by
  intro w after
  have hderives : User.entity.Derives "simple_users.id==7" :=
    .inr ⟨[(⟨User.entity, ⟨0, by decide⟩⟩, .int 7)], by decide +kernel⟩
  have hsteps : ∀ x ∈ cleared, x.IsOf entity := by
    intro x hx
    simp only [cleared, List.mem_cons, List.not_mem_nil, or_false] at hx
    rcases hx with rfl | rfl | rfl | rfl | rfl | rfl
    all_goals rfl
  have hsame : w.SameUnder after "simple_users.id==7" :=
    (keeps_other_table Account.compliant (by decide) (by decide) (by decide) hderives).2 cleared w
      hsteps
  have hcached : (w.cache.rows["simple_users.id==7"]?).isSome := by decide +kernel
  have hheld : ((w.units.get? 0).map (·.entries["simple_users.id==7"]?)).join.isSome := by
    decide +kernel
  refine ⟨hderives, hcached, ?_, hheld, ?_⟩
  · rw [hsame.cache]
    exact hcached
  · rw [hsame.units]
    exact hheld

end Simple

end WideRow
