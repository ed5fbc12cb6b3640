import WideRow.Proofs.Transparency
import WideRow.Proofs.UnitUpkeep
import WideRow.Sample.Entities

/-!
# Reading what a unit has written

A unit of work is opened on a table and a session cache whose rows are right, and nobody else
writes while it is open. What it reads should be what the table holds, its own writes included.
It is, up to one kind of lookup:

> `runAll_in_unit`: as long as no lookup is overtaken, a run in the unit has the results that the
> table alone gives. The first one that is overtaken returns what the table held when the unit was
> opened.

A lookup is overtaken (`Query.IsOvertaken`) if the row of the unit does not answer it and that of
the session cache does, although the record has changed since. The row of a unit is short of
columns after an insert of some of them, or after one was changed element by element. So to read
such a column in the unit that has just changed it is to read it as it was before, once the
session cache has it. Over an empty session cache every run is right (`runAll_in_unit_of_cold`).
-/

namespace WideRow

/-- A lookup in a unit whose row is that of the session cache, of a record that is not the one it
was when the unit was opened. -/
def Query.IsOvertaken {α : Type} (q : Query α) (prepare : ValuePreparer) (i : Nat)
    (opening : Table) (w : State Table) : Prop :=
  (q.single.plan prepare).TakesFromSession i w ∧
    ∃ n v, (n, v) ∈ q.conditions.equalities prepare ∧
      ¬ opening.SameAt w.database n.column.name v

namespace Call

/-- A lookup that is overtaken. -/
def IsOvertaken (prepare : ValuePreparer) (i : Nat) (opening : Table) (w : State Table) :
    Call → Prop
  | lookup q => q.IsOvertaken prepare i opening w
  | _ => False

/-- An operation of one entity that names one record by its primary key, where the values of the
key are among some given ones. Reading all rows and counting them is free. -/
def NamesRecord (e : Entity) (k : Node) (Keys : Value → Prop) (prepare : ValuePreparer) :
    Call → Prop
  | lookup q => q.ReadsProjection ∧ (∀ n ∈ q.projection, n.entity = e) ∧
      q.conditions.Names k ∧ q.conditions.Fit (fun _ => Keys) prepare
  | read _ | count _ => True
  | insert x => (∀ p ∈ x.values, p.1.entity = e) ∧
      ∀ p ∈ prepare.cells x.values, p.1.column.name = k.column.name → ∀ v, p.2 = some v → Keys v
  | update u => (∀ p ∈ u.changes, p.1.entity = e) ∧ u.conditions.Names k ∧
      u.conditions.Fit (fun _ => Keys) prepare
  | delete d => d.entity = e ∧ d.conditions.Names k ∧ d.conditions.Fit (fun _ => Keys) prepare

end Call

section

variable {K : Keyring} {E : Engine} {s : Session Table} {once : List String} {i : Nat}
  {opening : Table} {c : SessionCache} {w : State Table}

/-- What a lookup in a unit relies on. -/
theorem Keyring.fitsLookup_of_names (honly : K.nodes = [K.primary]) {α : Type} {q : Query α}
    {Keys : Value → Prop} (hfits : K.Fits = fun _ => Keys)
    (hcall : (Call.lookup q).NamesRecord K.entity K.primary Keys s.prepare)
    (honce : ∀ x ∈ once, (Call.lookup q).projected.count x ≤ 1) :
    K.FitsLookup once s.prepare q ∧ q.conditions.Names K.primary := by
  obtain ⟨hreads, hentity, hnames, hfilters⟩ := hcall
  refine ⟨⟨hreads, hentity, ?_, honce, fun n hn hread => ?_⟩, hnames⟩
  · rw [hfits]
    exact hfilters
  · rw [honly, List.mem_singleton] at hn
    rwa [hn] at hread

/-- An operation that names its record and is not overtaken comes to what the table says, and the
unit goes on tracking it. -/
theorem Keyring.step_in_unit (call : Call) (honly : K.nodes = [K.primary])
    (hs : s.executor = E.executor)
    (hkey : E.key = K.primary.column.name) (hstrict : E.IsStrict)
    (hshows : K.Shows once c opening) {Keys : Value → Prop} (hfits : K.Fits = fun _ => Keys)
    (hcall : call.NamesRecord K.entity K.primary Keys s.prepare)
    (hmutated : ∀ x ∈ call.mutated, x ∈ once)
    (honce : ∀ x ∈ once, call.projected.count x ≤ 1)
    (hfresh : ¬ call.IsOvertaken s.prepare i opening w) (h : K.InUnit once i opening c w) :
    call.Follows s (K.InUnit once i opening c) w (call.run s (some i) w) := by
  have hignores := ignoresCounts_inUnit K once i opening c
  cases call with
  | lookup q =>
    obtain ⟨hq, hnames⟩ := Keyring.fitsLookup_of_names honly hfits hcall honce
    refine lookup_in_unit honly hs hshows hq hnames (fun htakes x hx => ?_) h
    exact Classical.byContradiction fun hchanged => hfresh ⟨htakes, _, _, hx, hchanged⟩
  | read q => exact read_keeps hignores hs h
  | count x => exact count_keeps hignores hs h
  | insert x =>
    refine insert_in_unit honly hs hkey ⟨hcall.1, fun p hp hname v hv => ?_⟩ h
    rw [hfits]
    exact hcall.2 p hp hname v hv
  | update u =>
    obtain ⟨hentity, hnames, hfilters⟩ := hcall
    have hu : K.FitsUpdate once s.prepare u := ⟨hentity, by rw [hfits]; exact hfilters, hmutated⟩
    refine update_in_unit honly hs hkey hshows hu hnames (fun st t hst hv p hp => ?_) h
    rw [← hkey]
    exact RowUpdate.ne_of_restrictsOnly hst (hstrict st t hv) p hp
  | delete d =>
    obtain ⟨hentity, hnames, hfilters⟩ := hcall
    exact delete_in_unit honly hs hshows hentity (by rw [hfits]; exact hfilters) hnames h

end

section

variable {e : Entity} {k : Node} {E : Engine} {s : Session Table} {w : State Table} {i : Nat}

/-- A unit that was just opened tracks the table. -/
theorem Keyring.inUnit_of_opened {K : Keyring} (once : List String) (htable : K.IsTable w.database)
    {u : UnitOfWork} (hunit : w.units.get? i = some u) (hparent : u.parent = none)
    (hentries : u.entries = ∅) : K.InUnit once i w.database w.cache w := by
  refine ⟨rfl, htable, u, hunit, hparent, ?_, fun _ _ _ _ _ => Iff.rfl⟩
  intro v entry _ hentry
  rw [hentries, Std.ExtTreeMap.getElem?_empty] at hentry
  exact absurd hentry (by simp)

theorem Keyring.isTable_ofPrimary {Keys : Value → Prop} (hexact : ExactOn Keys)
    (htells : TextTells Keys) (hprimary : e.primaryKey = [k]) (hunique : e.uniques = [])
    {t : Table} (htable : t.IsKey Keys k.column.name)
    (hvalued : ∀ ρ ∈ t, ∃ v, ρ k.column.name = some v) :
    (ofPrimary (fun _ => Keys) hprimary hunique (fun _ => hexact) htells).IsTable t where
  keys n hn := by
    rw [List.mem_singleton.1 hn]
    exact htable
  valued := hvalued

/-- A run in a unit reads what the table holds, as long as no lookup is overtaken; and after such a
run a lookup returns what the table holds, or what it held when the unit was opened, according to
whether it is overtaken. -/
theorem runAll_in_unit (Keys : Value → Prop) (hexact : ExactOn Keys) (htells : TextTells Keys)
    (hprimary : e.primaryKey = [k]) (hunique : e.uniques = [])
    (hkey : E.key = k.column.name) (hstrict : E.IsStrict) (hs : s.executor = E.executor)
    (htable : w.database.IsKey Keys k.column.name)
    (hvalued : ∀ ρ ∈ w.database, ∃ v, ρ k.column.name = some v) {calls : List Call}
    (hcached : ∀ v r, Keys v → w.cache.rows[e.keyOf k v]? = some r →
      ∃ ρ ∈ w.database, ρ k.column.name = some v ∧ r.Mirrors (calls.flatMap Call.mutated) ρ)
    {u : UnitOfWork} (hunit : w.units.get? i = some u) (hparent : u.parent = none)
    (hentries : u.entries = ∅)
    (hcalls : ∀ c ∈ calls, c.NamesRecord e k Keys s.prepare)
    (honce : ∀ x ∈ calls.flatMap Call.mutated, ∀ c ∈ calls, c.projected.count x ≤ 1)
    (hfresh : s.Along (some i) (fun c w' => ¬ c.IsOvertaken s.prepare i w.database w') calls w) :
    (s.runAll (some i) calls w).1 = (s.directAll calls w.database).1 ∧
      (s.runAll (some i) calls w).2.database = (s.directAll calls w.database).2 ∧
      ∀ {α : Type} (q : Query α), (Call.lookup q).NamesRecord e k Keys s.prepare →
        (∀ x ∈ calls.flatMap Call.mutated, (Call.lookup q).projected.count x ≤ 1) →
        let after := (s.runAll (some i) calls w).2
        (¬ q.IsOvertaken s.prepare i w.database after →
          (q.single.run s (some i) after).1 = ((Call.lookup q).direct s after.database).1) ∧
        (q.IsOvertaken s.prepare i w.database after →
          (q.single.run s (some i) after).1 = ((Call.lookup q).direct s w.database).1) := by
  let K := Keyring.ofPrimary (fun _ => Keys) hprimary hunique (fun _ => hexact) htells
  have honly : K.nodes = [K.primary] := rfl
  have hkeyed := Keyring.isTable_ofPrimary hexact htells hprimary hunique htable hvalued
  have hshows : K.Shows (calls.flatMap Call.mutated) w.cache w.database := hcached
  have hrun := runAll_follows_along (s := s) (some i) calls
    (Q := K.InUnit (calls.flatMap Call.mutated) i w.database w.cache)
    (fun c hc w' hw' hnot => K.step_in_unit c honly hs hkey hstrict hshows rfl (hcalls c hc)
      (fun x hx => List.mem_flatMap.2 ⟨c, hc, hx⟩) (fun x hx => honce x hx c hc) hnot hw')
    hfresh (Keyring.inUnit_of_opened _ hkeyed hunit hparent hentries)
  refine ⟨hrun.1, hrun.2.1, fun q hq hcount => ⟨fun hnot => ?_, fun htaken => ?_⟩⟩
  · have hmutated : ∀ x ∈ (Call.lookup q).mutated, x ∈ calls.flatMap Call.mutated := by
      simp [Call.mutated]
    exact (K.step_in_unit (.lookup q) honly hs hkey hstrict hshows rfl hq hmutated
      hcount hnot hrun.2.2).result
  · obtain ⟨hfits, hnames⟩ := Keyring.fitsLookup_of_names honly rfl hq hcount
    exact Keyring.result_of_takesFromSession honly hs hkeyed hshows hfits hnames htaken.1 hrun.2.2

/-- Where the session cache is empty, no lookup is overtaken. -/
theorem not_isOvertaken_of_cold {prepare : ValuePreparer} {opening : Table}
    (h : ∀ key : String, w.cache.rows[key]? = none) (c : Call) :
    ¬ c.IsOvertaken prepare i opening w := by
  cases c with
  | lookup q =>
    rintro ⟨⟨-, -, -, r, hr⟩, -⟩
    rw [PointQuery.Plan.fromSession?, SessionCache.get?_eq_none.2 fun key _ => h key] at hr
    exact absurd hr (by simp)
  | _ => exact not_false

/-- Where the session cache is empty, a run in a unit reads what the table holds. -/
theorem runAll_in_unit_of_cold (Keys : Value → Prop) (hexact : ExactOn Keys)
    (htells : TextTells Keys) (hprimary : e.primaryKey = [k]) (hunique : e.uniques = [])
    (hkey : E.key = k.column.name) (hstrict : E.IsStrict) (hs : s.executor = E.executor)
    (htable : w.database.IsKey Keys k.column.name)
    (hvalued : ∀ ρ ∈ w.database, ∃ v, ρ k.column.name = some v)
    (hcold : ∀ key : String, w.cache.rows[key]? = none)
    {u : UnitOfWork} (hunit : w.units.get? i = some u) (hparent : u.parent = none)
    (hentries : u.entries = ∅) {calls : List Call}
    (hcalls : ∀ c ∈ calls, c.NamesRecord e k Keys s.prepare)
    (honce : ∀ x ∈ calls.flatMap Call.mutated, ∀ c ∈ calls, c.projected.count x ≤ 1) :
    (s.runAll (some i) calls w).1 = (s.directAll calls w.database).1 ∧
      (s.runAll (some i) calls w).2.database = (s.directAll calls w.database).2 := by
  let K := Keyring.ofPrimary (fun _ => Keys) hprimary hunique (fun _ => hexact) htells
  have hkeyed := Keyring.isTable_ofPrimary hexact htells hprimary hunique htable hvalued
  have hshows : K.Shows (calls.flatMap Call.mutated) w.cache w.database := by
    intro v r _ hr
    rw [hcold] at hr
    exact absurd hr (by simp)
  have hrun := runAll_follows (s := s) (some i) calls
    (Q := K.InUnit (calls.flatMap Call.mutated) i w.database w.cache)
    (fun c hc w' hw' => K.step_in_unit c rfl hs hkey hstrict hshows rfl (hcalls c hc)
      (fun x hx => List.mem_flatMap.2 ⟨c, hc, hx⟩) (fun x hx => honce x hx c hc)
      (not_isOvertaken_of_cold (fun key => by rw [hw'.cache]; exact hcold key) c) hw')
    (Keyring.inUnit_of_opened _ hkeyed hunit hparent hentries)
  exact ⟨hrun.1, hrun.2.1⟩

end

/-! ## Users -/

namespace User

/-- What the columns of the table hold. -/
def kind (column : String) : ValueKind :=
  if column = "override_name" then .scalar .text else .scalar .int

/-- The key column of the table. -/
def idNode : Node := ⟨entity, ⟨0, by decide⟩⟩

/-- A session with a table of users in memory. -/
def session : Session Table where
  executor := (Engine.plain "id" fun _ _ => false).executor

/-- Reads the name of a user. -/
def nameOf (id : Int32) : Query String :=
  Restricted.whereEq (Query.ofProperty (t := .text) ⟨entity, "name"⟩) (t := .int) ⟨entity, "id"⟩ id

/-- Gives a user another name. -/
def rename (id : Int32) (name : String) : RowUpdate :=
  Restricted.whereEq (RowUpdate.set {} (t := .text) ⟨entity, "name"⟩ name) (t := .int)
    ⟨entity, "id"⟩ id

/-- Ann, who is thirty. -/
def ann : Record :=
  ((Record.blank "id" (.int 5)).set "override_name" (some (.text "Ann"))).set "age"
    (some (.int 30))

/-- A unit was opened on a table with one user whose name is cached. -/
def opened : State Table where
  database := [ann]
  cache.rows := (∅ : Std.ExtTreeMap String Row compare).insert (entity.keyOf idNode (.int 5))
    (ann.row ["id", "override_name"])
  units := Units.begin {} "rename" none

/-- The session cache has the row of the user, and no other one. -/
theorem rows_opened {v : Value} {r : Row} (hv : (kind "id").holds v = true)
    (hr : opened.cache.rows[entity.keyOf idNode v]? = some r) :
    v = .int 5 ∧ r = ann.row ["id", "override_name"] := by
  have hrows : (opened.cache.rows[entity.keyOf idNode v]?) =
      if entity.keyOf idNode (.int 5) = entity.keyOf idNode v then
        some (ann.row ["id", "override_name"]) else none := by
    simp [opened, Std.ExtTreeMap.getElem?_insert]
  rw [hrows] at hr
  split at hr
  next hkey =>
    have htells : TextTells fun v => (kind "id").holds v = true := ValueKind.textTells (by decide)
    exact ⟨(htells (.int 5) v rfl hv (Entity.display_of_keyOf hkey)).symm,
      (Option.some.inj hr).symm⟩
  next => exact absurd hr (by simp)

/-- The user is read, renamed, and read again. -/
def rereading : List Call := [.lookup (nameOf 5), .update (rename 5 "Bea"), .lookup (nameOf 5)]

/-- The unit reads the old name and then the new one. -/
theorem runAll_reread :
    (session.runAll (some 0) rereading opened).1 = (session.directAll rereading [ann]).1 := by
  have hlookup : Call.NamesRecord entity idNode (fun v => (kind "id").holds v = true) .identity
      (.lookup (nameOf 5)) := by
    have hclauses : (nameOf 5).conditions.filterClauses .identity =
        .ok [⟨"id", .eq, [.int 5]⟩] := rfl
    refine ⟨Query.readsProjection_ofProperty _, by decide, ⟨_, rfl, rfl, rfl⟩, ?_⟩
    exact Conditions.fit_of_clauses hclauses (by decide)
  have hupdate : Call.NamesRecord entity idNode (fun v => (kind "id").holds v = true) .identity
      (.update (rename 5 "Bea")) := by
    have hclauses : (rename 5 "Bea").conditions.filterClauses .identity =
        .ok [⟨"id", .eq, [.int 5]⟩] := rfl
    refine ⟨by decide, ⟨_, rfl, rfl, rfl⟩, ?_⟩
    exact Conditions.fit_of_clauses hclauses (by decide)
  have htells : TextTells fun v => (kind "id").holds v = true := ValueKind.textTells (by decide)
  refine (runAll_in_unit (e := entity) (k := idNode) (E := Engine.plain "id" fun _ _ => false)
    (w := opened) (u := { label := "rename", parent := none }) _ (kind "id").exactOn htells
    (by decide) (by decide) rfl (Engine.isStrict_plain _ _) rfl ?_ ?_ ?_ rfl rfl rfl ?_ (by decide)
    ?_).1
  · exact Table.isKey_singleton fun v hv => by rw [← Option.some.inj hv]; rfl
  · intro ρ hρ
    rw [List.mem_singleton.1 hρ]
    exact ⟨.int 5, rfl⟩
  · intro v r hv hr
    obtain ⟨rfl, rfl⟩ := rows_opened hv hr
    exact ⟨ann, List.mem_singleton_self _, rfl, Row.mirrors_row (by decide) _⟩
  · simp only [rereading, List.forall_mem_cons]
    exact ⟨hlookup, hupdate, hlookup, by simp⟩
  · -- the first lookup does take its row from the session cache
    refine ⟨fun htaken => ?_, not_false, fun htaken => absurd htaken.1 (by decide +kernel), trivial⟩
    obtain ⟨-, _, _, -, hchanged⟩ := htaken
    exact hchanged fun _ _ => Iff.rfl

end User

end WideRow
