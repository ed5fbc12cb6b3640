import WideRow.Proofs.Aftermath
import WideRow.Proofs.Publication
import WideRow.Proofs.ReadYourWrites

/-!
# A session cache that units leave alone

What runs in units of work stays there until a unit without a parent is committed: the session
cache gets no row and changes none. Some writes cannot name the rows that they change, and make the
session cache drop a table at once (`Call.dropped?`): an applied update whose filters bind no key,
and the emptying of a table.

> `rows_runSteps`: after a run in units, without the commit of one that has no parent, the session
> cache has what it had before, less the tables that were dropped on the way and the entries that
> the library dropped by itself.

All keys of a table begin with its name and a dot. So the text before the first dot tells the table
of a key (`Facet.tableOf?`), as long as no table has a dot in its name.
-/

namespace WideRow

/-! ## The table of a key -/

namespace Facet

/-- The table that a cache key is of: the text before the first dot. -/
def tableOf? (key : String) : Option String :=
  if '.' ∈ key.toList then some (String.ofList (key.toList.takeWhile (· ≠ '.'))) else none

/-- A text with a dot is what stands before its first dot, that dot, and the rest. -/
theorem exists_rest {cs : List Char} (h : '.' ∈ cs) :
    ∃ rest, cs = cs.takeWhile (· ≠ '.') ++ '.' :: rest := by
  induction cs with
  | nil => exact absurd h (by simp)
  | cons c cs ih =>
    by_cases hc : c = '.'
    · exact ⟨cs, by simp [hc]⟩
    · obtain ⟨rest, hrest⟩ := ih ((List.mem_cons.1 h).resolve_left (Ne.symm hc))
      refine ⟨rest, ?_⟩
      rw [List.takeWhile_cons_of_pos (by simpa using hc), List.cons_append, ← hrest]

/-- The keys of a table are those that begin with its name and a dot. -/
theorem tableOf?_eq_some {table key : String} (h : '.' ∉ table.toList) :
    tableOf? key = some table ↔ (schemaStart table).isPrefixOf key = true := by
  have hstart : (schemaStart table).isPrefixOf key = true ↔
      ∃ rest, key.toList = table.toList ++ '.' :: rest := by
    refine String.startsWith_string_iff.trans ?_
    rw [schemaStart, String.toList_append]
    constructor
    · rintro ⟨rest, hrest⟩
      exact ⟨rest, by rw [← hrest]; simp⟩
    · rintro ⟨rest, hrest⟩
      exact ⟨rest, by rw [hrest]; simp⟩
  rw [hstart, tableOf?]
  constructor
  · intro htable
    split at htable
    next hdot =>
      obtain ⟨rest, hrest⟩ := exists_rest hdot
      rw [← Option.some.inj htable, String.toList_ofList]
      exact ⟨rest, hrest⟩
    next => exact absurd htable (by simp)
  · rintro ⟨rest, hrest⟩
    have htake : key.toList.takeWhile (· ≠ '.') = table.toList := by
      rw [hrest, List.takeWhile_append_of_pos fun c hc => ?_]
      · simp
      · simpa using fun he : c = '.' => h (he ▸ hc)
    rw [if_pos (by rw [hrest]; simp), htake, String.ofList_toList]

/-- The keys of facets are of the table that the facets name. -/
theorem tableOf?_of_mem_keys {facets : List Facet} {table key : String}
    (hname : schemaName? facets = some table) (hplain : '.' ∉ table.toList)
    (h : key ∈ keys facets) : tableOf? key = some table := by
  rw [keys, hname] at h
  obtain ⟨f, -, rfl⟩ := List.mem_map.1 h
  rw [tableOf?_eq_some hplain]
  exact String.startsWith_string_iff.2 (by simp)

end Facet

namespace Entity

variable {e : Entity} {use : CacheUse} {key : String}

/-- The keys of a row are of the table of its entity. -/
theorem tableOf?_of_keysOfRow (htable : '.' ∉ e.table.name.toList) {r : Row} {keys : List String}
    (hkeys : (⟨use, some e⟩ : CachePolicy).keysOfRow r = .ok keys) (h : key ∈ keys) :
    Facet.tableOf? key = some e.table.name := by
  unfold CachePolicy.keysOfRow CachePolicy.facetsOfRow Entity.facetsOfRow Entity.facets at hkeys
  simp only at hkeys
  cases hbound : e.keyShapes.mapM (Facet.bind? (Facet.cellIn r)) with
  | error err =>
    rw [hbound] at hkeys
    exact absurd hkeys (by simp [bind, Except.bind, Except.map])
  | ok bound =>
    rw [hbound] at hkeys
    rw [← Except.ok.inj hkeys] at h
    exact Facet.tableOf?_of_mem_keys rfl htable h

/-- The keys of filters are of the table of their entity. -/
theorem tableOf?_of_keys (htable : '.' ∉ e.table.name.toList) {c : Conditions}
    {prepare : ValuePreparer} (h : key ∈ c.keys ⟨use, some e⟩ prepare) :
    Facet.tableOf? key = some e.table.name := by
  unfold Conditions.keys at h
  split at h
  next => exact Facet.tableOf?_of_mem_keys rfl htable h
  next => exact absurd h (by simp)

end Entity

/-! ## What one call drops -/

section

variable {σ : Type} {s : Session σ} {i : Nat} {w : State σ}

/-- Whether the database carries out a write. -/
def Session.isApplied (s : Session σ) (o : StatementOptions) (st : Statement) (db : σ) : Bool :=
  match (s.reply o st db).1.bind ResultSet.wasApplied with
  | .ok applied => applied
  | .error _ => false

/-- A write was applied if its reply says so. -/
theorem Session.isApplied_eq_true {o : StatementOptions} {st : Statement} {db : σ} :
    s.isApplied o st db = true ↔ (s.reply o st db).1.bind ResultSet.wasApplied = .ok true := by
  unfold isApplied
  cases (s.reply o st db).1.bind ResultSet.wasApplied <;> simp

/-- The table that a call in a unit makes the session cache drop: that of an applied update whose
filters bind no key, or the one that is emptied. -/
def Call.dropped? (s : Session σ) (w : State σ) : Call → Option String
  | update u =>
    match u.statement s.prepare, u.entity with
    | .ok st, .ok e =>
      if s.isApplied u.options st w.database = true ∧
          u.conditions.keys ⟨.update, some e⟩ s.prepare = [] then some e.table.name
      else none
    | _, _ => none
  | delete d =>
    match d.statement s.prepare with
    | .ok st =>
      if s.isApplied d.options st w.database = true ∧ d.isTruncate = true then
        some d.entity.table.name
      else none
    | .error _ => none
  | lookup _ | read _ | count _ | insert _ => none

/-- The session cache without a table, if there is one to drop. -/
def SessionCache.without (c : SessionCache) : Option String → SessionCache
  | none => c
  | some table => c.invalidateSchema table

theorem ignoresCounts_cache (c : SessionCache) :
    State.IgnoresCounts fun w : State σ => w.cache = c :=
  fun _ _ hmoved h => hmoved.cache.trans h

/-- A lookup in a unit leaves the session cache alone. -/
theorem cache_lookup {α : Type} (q : Query α) : (q.single.run s (some i) w).2.cache = w.cache :=
  lookup_leaves (ignoresCounts_cache w.cache) (fun _ _ => rfl) fun _ _ =>
    ⟨fun _ h => h.cache, fun _ h => h.cache, fun _ _ _ _ _ _ h => h.cache,
      fun _ _ _ _ _ _ _ h _ => h.cache⟩

theorem cache_insert (x : RowInsert) : (x.run s (some i) w).2.cache = w.cache := by
  refine insert_leaves (ignoresCounts_cache w.cache) (fun _ _ => rfl) fun st hst =>
    ⟨fun _ w₁ h => h.cache, fun _ w₁ h => ?_⟩
  obtain ⟨e, he, -⟩ := RowInsert.of_statement hst
  unfold RowInsert.writeThrough
  simp only [he]
  cases CachePolicy.keysOfRow ⟨.update, some e⟩ (x.row s.prepare) with
  | error e => exact h.cache
  | ok keys =>
    by_cases hnil : keys.isEmpty = true
    · simp only [hnil, if_true]
      exact h.cache
    · simp only [Bool.eq_false_iff.2 hnil, Bool.false_eq_true, if_false]
      cases RowInsert.followInUnit ⟨.update, some e⟩ (x.row s.prepare) keys i w₁.units with
      | error e => exact h.cache
      | ok units => exact h.cache

/-- So does an update, unless it has no keys: then it drops the table. -/
theorem cache_update (u : RowUpdate) : (u.run s (some i) w).2.cache =
    w.cache.without ((Call.update u).dropped? s w) := by
  refine update_leaves (ignoresCounts_cache _) (fun e hst => ?_) fun st hst =>
    ⟨fun hun w₁ h => ?_, fun happlied w₁ h => ?_⟩
  · simp only [Call.dropped?, hst, SessionCache.without]
  -- a write that is not carried out drops nothing
  · obtain ⟨e, -, -, he, -⟩ := RowUpdate.of_statement hst
    have hnot : s.isApplied u.options st w.database = false :=
      Bool.eq_false_iff.2 fun happlied => hun (Session.isApplied_eq_true.1 happlied)
    simp only [Call.dropped?, hst, he, hnot, Bool.false_eq_true, false_and, if_false,
      SessionCache.without]
    exact h.cache
  · obtain ⟨e, -, -, he, -⟩ := RowUpdate.of_statement hst
    have hdone := Session.isApplied_eq_true.2 happlied
    simp only [Call.dropped?, hst, he, hdone, true_and]
    by_cases hnil : u.conditions.keys ⟨.update, some e⟩ s.prepare = []
    · rw [RowUpdate.writeThrough_of_no_keys he hnil]
      simp only [hnil, if_true, SessionCache.without, h.cache]
    · have hsome : (u.conditions.keys ⟨.update, some e⟩ s.prepare).isEmpty = false := by
        simpa using hnil
      unfold RowUpdate.writeThrough
      simp only [he]
      simp only [hnil, hsome, Bool.false_eq_true, if_false, SessionCache.without]
      cases u.followInUnit s.prepare ⟨.update, some e⟩ _ i w₁.units w₁.cache with
      | error e => exact h.cache
      | ok units => exact h.cache

theorem cache_delete (d : RowDelete) : (d.run s (some i) w).2.cache =
    w.cache.without ((Call.delete d).dropped? s w) := by
  refine delete_leaves (ignoresCounts_cache _) (fun e hst => ?_) fun st hst =>
    ⟨fun hun w₁ h => ?_, fun happlied w₁ h => ?_⟩
  · simp only [Call.dropped?, hst, SessionCache.without]
  · have hnot : s.isApplied d.options st w.database = false :=
      Bool.eq_false_iff.2 fun happlied => hun (Session.isApplied_eq_true.1 happlied)
    simp only [Call.dropped?, hst, hnot, Bool.false_eq_true, false_and, if_false,
      SessionCache.without]
    exact h.cache
  · have hdone := Session.isApplied_eq_true.2 happlied
    simp only [Call.dropped?, hst, hdone, true_and]
    by_cases htruncate : d.isTruncate = true
    · rw [RowDelete.writeThrough_of_truncate htruncate]
      simp only [htruncate, if_true, SessionCache.without, h.cache]
    · -- a delete of some rows changes the unit only
      have hrows := Bool.eq_false_iff.2 htruncate
      simp only [htruncate, Bool.false_eq_true, if_false, SessionCache.without]
      by_cases hnil : d.conditions.keys ⟨.delete, some d.entity⟩ s.prepare = []
      · rw [RowDelete.writeThrough_of_no_keys hrows hnil]
        exact h.cache
      · rw [RowDelete.writeThrough_of_keys hrows hnil]
        cases RowDelete.deletedKeys ⟨.delete, some d.entity⟩
          (d.conditions.keys ⟨.delete, some d.entity⟩ s.prepare) i w₁.units w₁.cache with
        | error e => exact h.cache
        | ok all => exact h.cache

/-- A call in a unit makes the session cache drop a table, or leaves it alone. -/
theorem cache_run (c : Call) :
    (c.run s (some i) w).2.cache = w.cache.without (c.dropped? s w) := by
  cases c with
  | lookup q => exact cache_lookup q
  | read q =>
    exact read_leaves (ignoresCounts_cache w.cache) rfl fun _ _ _ h => h.cache
  | count c =>
    exact count_leaves (ignoresCounts_cache w.cache) rfl fun _ _ _ h => h.cache
  | insert x => exact cache_insert x
  | update u => exact cache_update u
  | delete d => exact cache_delete d

end

/-! ## Runs in units -/

/-- A step of a run in units of work. -/
inductive UnitStep where
  /-- Runs an operation in a unit. -/
  | call (i : Nat) (c : Call)
  /-- Begins a nested unit. -/
  | begin (label : String) (parent : Nat)
  | commit (i : Nat)
  | abort (i : Nat)

section

variable {σ : Type} (s : Session σ)

namespace UnitStep

/-- Takes a step. -/
def run : UnitStep → State σ → State σ
  | call i c, w => (c.run s (some i) w).2
  | begin label parent, w => (w.begin label (some parent)).2
  | commit i, w => (w.commit i).2
  | abort i, w => (w.abort i).2

/-- The table that a step makes the session cache drop. -/
def dropped? (w : State σ) : UnitStep → Option String
  | call _ c => c.dropped? s w
  | begin _ _ | commit _ | abort _ => none

/-- A step commits no unit but a nested one. -/
def SparesRoot (w : State σ) : UnitStep → Prop
  | commit i => (w.units.get? i).all (·.parent.isSome) = true
  | call _ _ | begin _ _ | abort _ => True

instance (w : State σ) : (x : UnitStep) → Decidable (x.SparesRoot w)
  | commit _ => inferInstanceAs (Decidable (_ = true))
  | call _ _ | begin _ _ | abort _ => inferInstanceAs (Decidable True)

/-- A write of a step is of a table with no dot in its name. -/
def HasPlainTable : UnitStep → Prop
  | call _ (.update u) => ∀ e, u.entity = .ok e → '.' ∉ e.table.name.toList
  | call _ (.delete d) => '.' ∉ d.entity.table.name.toList
  | _ => True

end UnitStep

variable (p : Evictor)

/-- Takes steps one after the other. Before each of them and after the last, the library may drop
entries of the session cache. What it drops in the midst of a step might as well go before or after:
a step reads the session cache, and the only thing that it does to it is to drop a table. -/
def Session.runSteps : Nat → List UnitStep → State σ → State σ
  | moment, [], w => w.settle p moment
  | moment, x :: steps, w => runSteps (moment + 1) steps (x.run s (w.settle p moment))

/-- The tables that a run makes the session cache drop. -/
def Session.droppedTables : Nat → List UnitStep → State σ → List String
  | _, [], _ => []
  | moment, x :: steps, w =>
    (x.dropped? s (w.settle p moment)).toList ++
      droppedTables (moment + 1) steps (x.run s (w.settle p moment))

/-- Whether the library drops the entry of a key by itself in the course of a run. -/
def Session.loses : Nat → List UnitStep → State σ → String → Bool
  | moment, [], w, key => p.drops moment w.cache key
  | moment, x :: steps, w, key =>
    p.drops moment w.cache key || loses (moment + 1) steps (x.run s (w.settle p moment)) key

/-- A run commits no unit but nested ones. -/
def Session.SparesRoots : Nat → List UnitStep → State σ → Prop
  | _, [], _ => True
  | moment, x :: steps, w =>
    x.SparesRoot (w.settle p moment) ∧ SparesRoots (moment + 1) steps (x.run s (w.settle p moment))

variable {s p} {w : State σ} {moment : Nat}

/-- A nested unit is committed into its parent, and the session cache sees nothing of it. -/
theorem cache_commit_of_nested {i : Nat} (h : (UnitStep.commit i).SparesRoot w) :
    (w.commit i).2.cache = w.cache := by
  obtain ⟨-, hsame⟩ | ⟨u, hu, -, ⟨hroot, -⟩ | ⟨p, -, hclosed⟩⟩ := w.commit_cases i
  · rw [hsame]
  · rw [UnitStep.SparesRoot, hu, Option.all_some, hroot] at h
    exact absurd h (by simp)
  · rw [hclosed]

/-- A step makes the session cache drop a table, or leaves it alone. -/
theorem cache_step {x : UnitStep} (h : x.SparesRoot w) :
    (x.run s w).cache = w.cache.without (x.dropped? s w) := by
  cases x with
  | call i c => exact cache_run c
  | begin label parent => rfl
  | commit i => exact cache_commit_of_nested h
  | abort i => exact w.cache_abort i

/-- The table that a step drops is the one of the step. -/
theorem plain_of_dropped? {x : UnitStep} (h : x.HasPlainTable) {table : String}
    (hdropped : x.dropped? s w = some table) : '.' ∉ table.toList := by
  cases x with
  | call i c =>
    cases c with
    | update u =>
      simp only [UnitStep.dropped?, Call.dropped?] at hdropped
      split at hdropped
      next st e hst he =>
        split at hdropped
        next =>
          rw [← Option.some.inj hdropped]
          exact h e he
        next => exact absurd hdropped (by simp)
      next => exact absurd hdropped (by simp)
    | delete d =>
      simp only [UnitStep.dropped?, Call.dropped?] at hdropped
      split at hdropped
      next st hst =>
        split at hdropped
        next =>
          rw [← Option.some.inj hdropped]
          exact h
        next => exact absurd hdropped (by simp)
      next => exact absurd hdropped (by simp)
    | lookup q | read q | count x | insert x =>
      exact absurd hdropped (by simp [UnitStep.dropped?, Call.dropped?])
  | begin label parent | commit i | abort i =>
    exact absurd hdropped (by simp [UnitStep.dropped?])

/-- To drop a table leaves the settings. -/
theorem sameSettings_without (c : SessionCache) (table : Option String) :
    c.SameSettings (c.without table) := by
  cases table <;> exact ⟨rfl, rfl, rfl⟩

theorem size_without_le (c : SessionCache) (table : Option String) :
    (c.without table).size ≤ c.size := by
  cases table with
  | none => exact Nat.le_refl _
  | some t => exact c.size_invalidateSchema_le t

/-- Dropping a table drops what the keys of that table stand for. -/
theorem rows_without (c : SessionCache) (table : Option String)
    (h : ∀ t, table = some t → '.' ∉ t.toList) (key : String) : (c.without table).rows[key]? =
      if table.isSome ∧ Facet.tableOf? key = table then none else c.rows[key]? := by
  cases table with
  | none => simp [SessionCache.without]
  | some t =>
    rw [SessionCache.without, SessionCache.rows_invalidateSchema_eq]
    simp [Facet.tableOf?_eq_some (h t rfl)]

/-- One step, and what the library drops before it. -/
theorem rows_step {x : UnitStep} (hplain : x.HasPlainTable)
    (hspares : x.SparesRoot (w.settle p moment)) (key : String) :
    (x.run s (w.settle p moment)).cache.rows[key]? =
      if p.drops moment w.cache key = true ∨ (x.dropped? s (w.settle p moment)).isSome = true ∧
        Facet.tableOf? key = x.dropped? s (w.settle p moment) then none
      else w.cache.rows[key]? := by
  have hsettled : (w.settle p moment).cache.rows[key]? =
      if p.drops moment w.cache key = true then none else w.cache.rows[key]? :=
    w.cache.rows_evict (p.drops moment w.cache) key
  rw [cache_step hspares, rows_without _ _ (fun t ht => plain_of_dropped? hplain ht), hsettled]
  by_cases hlost : p.drops moment w.cache key = true <;> simp [hlost]

/-- A step in units leaves the settings of the session cache. -/
theorem sameSettings_step {x : UnitStep} (hspares : x.SparesRoot (w.settle p moment)) :
    w.cache.SameSettings (x.run s (w.settle p moment)).cache := by
  rw [cache_step hspares]
  exact (w.cache.sameSettings_evict _).trans (sameSettings_without ..)

/-- A run in units of work, in which no unit is committed but nested ones, drops tables from the
session cache. Besides, the library drops entries, and nothing else is done to it. -/
theorem rows_runSteps : ∀ {steps : List UnitStep} {moment : Nat} {w : State σ},
    (∀ x ∈ steps, x.HasPlainTable) → s.SparesRoots p moment steps w →
    w.cache.SameSettings (s.runSteps p moment steps w).cache ∧
      ∀ key : String, (s.runSteps p moment steps w).cache.rows[key]? =
        if s.loses p moment steps w key = true ∨
          ∃ table ∈ s.droppedTables p moment steps w, Facet.tableOf? key = some table then none
        else w.cache.rows[key]?
  | [], moment, w, _, _ => by
    refine ⟨w.cache.sameSettings_evict _, fun key => ?_⟩
    show (w.cache.evict (p.drops moment w.cache)).rows[key]? = _
    simp [SessionCache.rows_evict, Session.loses, Session.droppedTables]
  | x :: steps, moment, w, hplain, hspares => by
    obtain ⟨hsettings, hrows⟩ := rows_runSteps (w := x.run s (w.settle p moment))
      (fun y hy => hplain y (List.mem_cons_of_mem _ hy)) hspares.2
    refine ⟨(sameSettings_step hspares.1).trans hsettings, fun key => ?_⟩
    have hfirst := rows_step (s := s) (hplain x (List.mem_cons_self ..)) hspares.1 key
    -- an entry goes before the first step or by it, or later on
    have hiff : (s.loses p moment (x :: steps) w key = true ∨
          ∃ table ∈ s.droppedTables p moment (x :: steps) w, Facet.tableOf? key = some table) ↔
        (p.drops moment w.cache key = true ∨ (x.dropped? s (w.settle p moment)).isSome = true ∧
          Facet.tableOf? key = x.dropped? s (w.settle p moment)) ∨
        (s.loses p (moment + 1) steps (x.run s (w.settle p moment)) key = true ∨
          ∃ table ∈ s.droppedTables p (moment + 1) steps (x.run s (w.settle p moment)),
            Facet.tableOf? key = some table) := by
      rw [Session.loses, Session.droppedTables, Bool.or_eq_true]
      cases x.dropped? s (w.settle p moment) <;> simp [or_assoc, or_left_comm]
    show (s.runSteps p (moment + 1) steps (x.run s (w.settle p moment))).cache.rows[key]? = _
    rw [hrows, hfirst]
    split
    next hlater => rw [if_pos (hiff.2 (.inr hlater))]
    next hnot =>
      split
      next hnow => rw [if_pos (hiff.2 (.inl hnow))]
      next hkept => rw [if_neg fun hgone => (hiff.1 hgone).elim hkept hnot]

/-- From a cache that has room the library drops nothing in the course of a run. -/
theorem loses_of_room (hp : p.IsDocumented) : ∀ {steps : List UnitStep} {moment : Nat}
    {w : State σ}, s.SparesRoots p moment steps w → w.cache.HasRoom → ∀ key : String,
      s.loses p moment steps w key = false
  | [], moment, w, _, hroom, key => hp.keeps moment w.cache key hroom
  | x :: steps, moment, w, hspares, hroom, key => by
    have hstep : (x.run s (w.settle p moment)).cache.HasRoom := by
      refine hroom.of_size_le (sameSettings_step hspares.1) ?_
      rw [cache_step hspares.1]
      exact Nat.le_trans (size_without_le ..) (w.cache.size_evict_le _)
    rw [Session.loses, hp.keeps moment w.cache key hroom, loses_of_room hp hspares.2 hstep]
    rfl

/-- From the opening of units until one that has no parent is committed, the session cache gets no
row and changes none. It has what it had, less what the library dropped by itself, and less all that
belongs to the tables that were dropped by an applied update without keys or by the emptying of a
table. A library that keeps its promise drops nothing by itself if there was room at first. To abort
a unit leaves the session cache as it is. What belongs to a table are the keys of the rows and
filters of its entities. -/
theorem session_cache_in_units (s : Session σ) (p : Evictor) (moment : Nat)
    {steps : List UnitStep} {w : State σ} (hplain : ∀ x ∈ steps, x.HasPlainTable)
    (hspares : s.SparesRoots p moment steps w) :
    let after := s.runSteps p moment steps w
    (∀ key : String, after.cache.rows[key]? =
      if s.loses p moment steps w key = true ∨
        ∃ table ∈ s.droppedTables p moment steps w, Facet.tableOf? key = some table then none
      else w.cache.rows[key]?) ∧
    (p.IsDocumented → w.cache.HasRoom → ∀ key : String, s.loses p moment steps w key = false) ∧
    w.cache.SameSettings after.cache ∧
    (∀ i, (after.abort i).2.cache = after.cache) ∧
    ∀ (e : Entity) (use : CacheUse) (key : String), '.' ∉ e.table.name.toList →
      ((∃ r keys, (⟨use, some e⟩ : CachePolicy).keysOfRow r = .ok keys ∧ key ∈ keys) ∨
        ∃ c : Conditions, key ∈ c.keys ⟨use, some e⟩ s.prepare) →
      Facet.tableOf? key = some e.table.name := by
  obtain ⟨hsettings, hrows⟩ := rows_runSteps hplain hspares
  refine ⟨hrows, fun hp hroom => loses_of_room hp hspares hroom, hsettings, State.cache_abort _,
    fun e use key htable hkey => ?_⟩
  obtain ⟨r, keys, hkeys, hmem⟩ | ⟨c, hmem⟩ := hkey
  · exact Entity.tableOf?_of_keysOfRow htable hkeys hmem
  · exact Entity.tableOf?_of_keys htable hmem

end

/-! ## Renaming users -/

namespace User

/-- Gives several users one name. -/
def renameAll (ids : List Int32) (name : String) : RowUpdate :=
  Restricted.where_ (RowUpdate.set {} (t := .text) ⟨entity, "name"⟩ name)
    (Filter.isIn (t := .int) ⟨entity, "id"⟩ ids)

/-- A user is read and renamed in a nested unit, which is committed. -/
def nestedRename : List UnitStep :=
  [.begin "nested" 0, .call 1 (.lookup (nameOf 5)), .call 1 (.update (rename 5 "Bea")), .commit 1]

/-- The same, and then the parent renames all users. -/
def renameAfterwards : List UnitStep :=
  nestedRename ++ [.call 0 (.update (renameAll [5, 6] "Bea"))]

/-- The cached row stays as it is, and is dropped by the update that does not name its rows. The
library has room for it, and drops nothing. -/
theorem cache_renamed :
    (session.runSteps .ofCapacity 0 nestedRename opened).cache.rows[entity.keyOf idNode (.int 5)]? =
        some (ann.row ["id", "override_name"]) ∧
      (session.runSteps .ofCapacity 0 renameAfterwards opened).cache.rows[entity.keyOf idNode
        (.int 5)]? = none := by
  have hentity : ∀ {u : RowUpdate}, u.entity = .ok entity →
      ∀ e, u.entity = .ok e → '.' ∉ e.table.name.toList := by
    intro u hu e he
    rw [hu, Except.ok.injEq] at he
    rw [← he]
    decide
  have hplain : ∀ x ∈ nestedRename, x.HasPlainTable := by
    simp only [nestedRename, List.forall_mem_cons]
    exact ⟨trivial, trivial, hentity rfl, trivial, by simp⟩
  have hplain' : ∀ x ∈ renameAfterwards, x.HasPlainTable := by
    simp only [renameAfterwards, List.forall_mem_append, List.forall_mem_singleton]
    exact ⟨hplain, hentity rfl⟩
  have hspares : session.SparesRoots .ofCapacity 0 nestedRename opened :=
    ⟨trivial, trivial, trivial, by decide +kernel, trivial⟩
  have hspares' : session.SparesRoots .ofCapacity 0 renameAfterwards opened :=
    ⟨trivial, trivial, trivial, by decide +kernel, trivial, trivial⟩
  have hnone : session.droppedTables .ofCapacity 0 nestedRename opened = [] := by decide +kernel
  have hall : session.droppedTables .ofCapacity 0 renameAfterwards opened = ["simple_users"] := by
    decide +kernel
  have hcached : opened.cache.rows[entity.keyOf idNode (.int 5)]? =
      some (ann.row ["id", "override_name"]) := Std.ExtTreeMap.getElem?_insert_self
  obtain ⟨hrows, hkept, -⟩ := session_cache_in_units session .ofCapacity 0 hplain hspares
  obtain ⟨hrows', -⟩ := session_cache_in_units session .ofCapacity 0 hplain' hspares'
  constructor
  · rw [hrows, hnone, hcached, hkept Evictor.isDocumented_ofCapacity (by decide +kernel)]
    simp
  · rw [hrows', hall, if_pos]
    exact .inr ⟨_, List.mem_singleton_self _, by decide⟩

end User

end WideRow
