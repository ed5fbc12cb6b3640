import WideRow.Proofs.Hits
import WideRow.Proofs.Projection
import WideRow.Proofs.Rekeying

/-!
# Hits and misses

A lookup makes its item of a row: of the one that the caches have, or of the one that its statement
brings. The first usually has more columns, in another order. A query whose items are made of the
cells of its columns does not see the difference; one that is given whole rows does.

> `hit_eq_miss`: a lookup of a typed projection that the caches answer returns what it returns
> without them from a table with which the cached row agrees. A lookup of rows is given the cached
> row as it is, with all its columns, where the statement would have brought those of its
> projection.

Which of the two kinds a query is, `Query.HasForm` tells from the way in which it is made.
-/

namespace WideRow

/-- What a query makes its items of: the cells of its columns, or whole rows. -/
inductive Query.Form (α : Type) where
  | typed
  | rows (f : Row → Except Error α)

/-- Something is made of every item. -/
def Query.Form.map {α β : Type} (g : α → β) : Query.Form α → Query.Form β
  | typed => typed
  | rows f => rows fun r => (f r).map g

/-- A mapping makes its items of the cells of the entity's columns, and of nothing else of a row. -/
def Mapping.ReadsColumns {α : Type} (m : Mapping α) : Prop := (Query.all m).ReadsProjection

namespace Query

/-- The ways to make a query, and what its items are made of then. -/
inductive HasForm : {α : Type} → Query α → Form α → Prop
  | ofProperty {t : ColumnType} (g : Getter t) : HasForm (ofProperty g) .typed
  | ofProperties (gs : List AnyGetter) : HasForm (ofProperties gs) .typed
  | all {α : Type} {m : Mapping α} (hm : m.ReadsColumns) : HasForm (all m) .typed
  | raw : HasForm raw (.rows .ok)
  | column {q : Query Row} {form : Form Row} (e : Entity) (property : String)
      (h : HasForm q form) : HasForm (q.column e property) form
  | mapTo {α β : Type} (q : Query α) {m : Mapping β} (hm : m.ReadsColumns) :
      HasForm (q.mapTo m) .typed
  | withMapper {α β : Type} (q : Query α) (f : Row → Except Error β) :
      HasForm (q.withMapper f) (.rows f)
  | map {α β : Type} {q : Query α} {form : Form α} (g : α → β) (h : HasForm q form) :
      HasForm (q.map g) (form.map g)
  | restricted {α : Type} {q : Query α} {form : Form α} (f : Conditions → Conditions)
      (h : HasForm q form) : HasForm (Restricted.mapConditions f q) form
  | configured {α : Type} {q : Query α} {form : Form α} (f : StatementOptions → StatementOptions)
      (h : HasForm q form) : HasForm (Configured.mapOptions f q) form
  | orderBy {α : Type} {q : Query α} {form : Form α} (e : Entity) (property : String)
      (d : Direction) (h : HasForm q form) : HasForm (q.orderBy e property d) form
  | limited {α : Type} {q : Query α} {form : Form α} (n : Int32) (h : HasForm q form) :
      HasForm (q.limited n) form
  | allowFiltering {α : Type} {q : Query α} {form : Form α} (h : HasForm q form) :
      HasForm q.allowFiltering form

/-- What a form says of the mapper. -/
def Form.Means {α : Type} (q : Query α) : Form α → Prop
  | typed => q.ReadsProjection
  | rows f => q.mapper = f

section

variable {α β : Type} {q q' : Query α} {form : Form α}

/-- To read more columns, of the same or other rows, does not change what a form says. -/
theorem Form.Means.of_mapper (h : form.Means q) (hmapper : q'.mapper = q.mapper)
    (hcolumns : ∀ n ∈ q.projection, n ∈ q'.projection) : form.Means q' := by
  cases form with
  | rows f => exact hmapper.trans h
  | typed =>
    intro r r' hr hr' hcells
    rw [hmapper]
    exact h r r' hr hr' fun n hn => hcells n (hcolumns n hn)

/-- To map what a form gives is to map what the query gives. -/
theorem Form.Means.map (h : form.Means q) (g : α → β) : (form.map g).Means (q.map g) := by
  cases form with
  | typed => exact ReadsProjection.map h g
  | rows f =>
    have hmapper : q.mapper = f := h
    show (fun r => (q.mapper r).map g) = _
    rw [hmapper]

/-- A query gives what its form says, for every row. -/
theorem HasForm.means (h : q.HasForm form) : form.Means q := by
  induction h with
  | ofProperty g => exact readsProjection_ofProperty g
  | ofProperties gs => exact readsProjection_ofProperties gs
  | all hm => exact hm
  | raw => rfl
  | column e property _ ih =>
    -- a typed query of rows reads one column more than its mapper looks at
    unfold Query.column
    split
    next => exact ih.of_mapper rfl fun _ => List.mem_append_left _
    next => exact ih.of_mapper rfl fun _ => id
  | mapTo q hm => exact hm
  | withMapper q f => rfl
  | map g _ ih => exact ih.map g
  | restricted f _ ih => exact ih.of_mapper rfl fun _ => id
  | configured f _ ih => exact ih.of_mapper rfl fun _ => id
  | orderBy e property d _ ih =>
    unfold Query.orderBy
    split <;> exact ih.of_mapper rfl fun _ => id
  | limited n _ ih => exact ih.of_mapper rfl fun _ => id
  | allowFiltering _ ih => exact ih.of_mapper rfl fun _ => id

end

end Query

/-! ## Lookups that miss -/

section

variable {σ : Type} {s : Session σ} {w w' : State σ} {db : σ} {i : Nat} {unit : Option Nat}
  {p : PointQuery.Plan} {r : Row}

/-- A full row has facets, for an entity or for none. -/
theorem CachePolicy.exists_facetsOfRow (policy : CachePolicy) (hr : r.IsFull) :
    ∃ facets, policy.facetsOfRow r = .ok facets := by
  unfold facetsOfRow
  cases policy.entity with
  | none => exact ⟨[], rfl⟩
  | some e => exact WideRow.exists_facetsOfRow e hr

/-- A full row can be stored. -/
theorem CachePolicy.exists_update (policy : CachePolicy) (c : SessionCache) (hr : r.IsFull) :
    ∃ outcome, policy.update c r = .ok outcome := by
  obtain ⟨facets, hfacets⟩ := policy.exists_facetsOfRow hr
  unfold update
  rw [hfacets]
  by_cases hfew : facets.length < Facet.leastForSession
  · exact ⟨(false, c), if_pos hfew⟩
  · exact ⟨_, if_neg hfew⟩

namespace PointQuery.Plan

/-- The caches have no answer to a lookup. -/
def Misses (p : Plan) (unit : Option Nat) (w : State σ) : Prop :=
  ∃ populate, (p.resolve unit w).1 = .ok (.miss populate)

instance (p : Plan) (unit : Option Nat) (w : State σ) : Decidable (p.Misses unit w) :=
  match h : (p.resolve unit w).1 with
  | .ok (.miss populate) => isTrue ⟨populate, h⟩
  | .ok .deleted => isFalse fun ⟨_, h'⟩ => by cases h.symm.trans h'
  | .ok (.hit _) => isFalse fun ⟨_, h'⟩ => by cases h.symm.trans h'
  | .error _ => isFalse fun ⟨_, h'⟩ => by cases h.symm.trans h'

/-- A lookup that does not use the caches misses. -/
theorem misses_of_not_usesCache (h : p.usesCache = false) (unit : Option Nat) (w : State σ) :
    p.Misses unit w := by
  cases unit with
  | none => exact ⟨p.policy.admits w.cache, by simp [resolve, withoutUnit, h]⟩
  | some i => exact ⟨false, by simp [resolve, withinUnit, h]⟩

/-- Caches that have no answer are left as they are. -/
theorem Misses.moved (h : p.Misses unit w) : w.Moved w.database (p.resolve unit w).2 := by
  obtain ⟨populate, hmiss⟩ := h
  cases unit with
  | none => exact p.moved_withoutUnit w
  | some i =>
    by_cases htakes : p.TakesFromSession i w
    · -- a row that is taken from the session cache is a hit
      obtain ⟨r, w₁, -, -, hwithin⟩ := withinUnit_of_takesFromSession htakes
      rw [show p.resolve (some i) w = p.withinUnit i w from rfl, hwithin] at hmiss
      cases hkeys : p.policy.keysOfRow r with
      | error e => simp [hkeys] at hmiss
      | ok keys => simp [hkeys] at hmiss
    · exact (withinUnit_of_not_takesFromSession htakes).1

theorem exists_populateSession (hfull : w.HasFullRows) (hr : r.IsFull) :
    ∃ c, p.populateSession r w.cache = .ok c := by
  obtain ⟨facets, hfacets⟩ := p.policy.exists_facetsOfRow hr
  unfold populateSession CachePolicy.keysOfRow
  simp only [hfacets, Except.map, bind, Except.bind]
  split
  next => exact ⟨_, rfl⟩
  next =>
    cases hget : w.cache.get? (Facet.keys facets) with
    | none =>
      obtain ⟨outcome, hupdate⟩ := p.policy.exists_update w.cache hr
      simp only [hupdate]
      exact ⟨_, rfl⟩
    | some known =>
      obtain ⟨merged, hmerged, hmfull, -⟩ := Row.merge_spec (hfull.get? hget) r
      obtain ⟨outcome, hupdate⟩ := p.policy.exists_update w.cache hmfull
      simp only [hmerged, hupdate]
      exact ⟨_, rfl⟩

/-- A full row can be stored in a unit. -/
theorem exists_populateUnit (hfull : w.HasFullRows) (hr : r.IsFull) (i : Nat) :
    ∃ units, p.populateUnit r i w.units = .ok units := by
  obtain ⟨facets, hfacets⟩ := p.policy.exists_facetsOfRow hr
  rw [populateUnit_eq]
  simp only [hfacets, bind, Except.bind]
  split
  next => exact ⟨_, rfl⟩
  next =>
    cases hlookup : w.units.lookup i (Facet.keys facets) with
    | deleted | missing => exact ⟨_, rfl⟩
    | found known =>
      obtain ⟨merged, hmerged, -⟩ := Row.merge_spec (hfull.lookup hlookup) r
      simp only [UnitAnswer.merged, hmerged]
      exact ⟨_, rfl⟩

/-- Full rows can be put into caches that have only full rows. -/
theorem exists_populate (hfull : w.HasFullRows) (hr : r.IsFull) (unit : Option Nat) :
    ∃ w', p.populate r unit w = (.ok (), w') := by
  have hcompleted := (p.completed_spec hr).1
  cases unit with
  | none =>
    obtain ⟨c, hc⟩ := exists_populateSession (p := p) hfull hcompleted
    exact ⟨{ w with cache := c }, by simp only [populate, hc]⟩
  | some i =>
    obtain ⟨units, hunits⟩ := exists_populateUnit (p := p) hfull hcompleted i
    exact ⟨{ w with units }, by simp only [populate, hunits]⟩

end PointQuery.Plan

section

variable {α : Type} {q q' : Query α} {st : Statement} {answer : ResultSet}

/-- A lookup that misses returns the item of the row that its statement brings. -/
theorem single_run_of_misses (hst : q.single.statement s.prepare = .ok st)
    (hmisses : (q.single.plan s.prepare).Misses unit w) (hfull : w.HasFullRows)
    (hreply : (s.reply q.options st w.database).1 = .ok answer) (hfirst : answer.first? = some r)
    (hr : r.IsFull) : (q.single.run s unit w).1 = (q.mapper r).map some := by
  have hevents := w.moved_events (w.events ++ q.single.query.warnings st)
  generalize hw₁ : ({ w with events := w.events ++ q.single.query.warnings st } : State σ) = w₁
    at hevents
  obtain ⟨populate, hmiss⟩ := hmisses
  rw [← PointQuery.Plan.fst_resolve_of_moved hevents] at hmiss
  have hmoved := hevents.trans (PointQuery.Plan.Misses.moved ⟨populate, hmiss⟩)
  generalize hresolve : (q.single.plan s.prepare).resolve unit w₁ = resolved at hmiss hmoved
  obtain ⟨resolution, w₂⟩ := resolved
  obtain rfl : resolution = .ok (.miss populate) := hmiss
  obtain ⟨w₃, hexec, hasked⟩ := execute_eq (s := s) unit .selectFirst q.options st w₂
  rw [hmoved.database, hevents.database, hreply] at hexec
  have hfull₃ := (hfull.moved hmoved).moved hasked
  have hanswer : (q.single.answer s unit w).1 = (q.mapper r).map some := by
    have hoptions : q.single.query.options = q.options := rfl
    rw [PointQuery.answer_eq hst, hw₁, hresolve]
    unfold PointQuery.finish PointQuery.fetch
    simp only [hoptions, hexec, hfirst]
    -- what is kept for later lookups does not touch the item
    cases populate with
    | false => rfl
    | true =>
      obtain ⟨w₄, hpopulate⟩ := (q.single.plan s.prepare).exists_populate hfull₃ hr unit
      simp only [if_true, hpopulate]
      rfl
  exact (counted_fst _).trans hanswer

/-! ## Hits against misses -/

/-- A lookup with the caches skipped: it is told to ignore them, or they have no answer to it. -/
def Query.IsSent (q q' : Query α) (s : Session σ) (unit : Option Nat) (w : State σ) : Prop :=
  q' = Configured.ignoreCache q ∨ q' = q ∧ (q.single.plan s.prepare).Misses unit w

/-- A lookup that is sent gives what its mapper makes of the first row of the answer. -/
theorem single_run_of_isSent (hst : q.single.statement s.prepare = .ok st)
    (hsent : q.IsSent q' s unit w) (hfull : w.HasFullRows)
    (hreply : (s.reply q.options st w.database).1 = .ok answer) (hfirst : answer.first? = some r)
    (hr : r.IsFull) : (q'.single.run s unit w).1 = (q.mapper r).map some := by
  obtain rfl | ⟨rfl, hmisses⟩ := hsent
  · have hmisses := PointQuery.Plan.misses_of_not_usesCache
      (p := (Configured.ignoreCache q).single.plan s.prepare) rfl unit w
    exact single_run_of_misses (q := Configured.ignoreCache q) hst hmisses hfull hreply hfirst hr
  · exact single_run_of_misses hst hmisses hfull hreply hfirst hr

/-- A lookup is answered from the caches with a row that agrees with a record, and past them with
what its statement brings of the record. -/
theorem hit_eq_miss {unit' : Option Nat} {ρ : Record}
    (hst : q.single.statement s.prepare = .ok st)
    (hhits : (q.single.plan s.prepare).Hits unit w r) (hagrees : r.Mirrors [] ρ)
    (hsent : q.IsSent q' s unit' w') (hfull : w'.HasFullRows)
    (hreply : (s.reply q.options st w'.database).1 = .ok answer)
    (hfirst : answer.first? = some (ρ.row (q.projection.map (·.column.name)))) :
    (q.HasForm .typed → (q.single.run s unit w).1 = (q'.single.run s unit' w').1) ∧
    ∀ f, q.HasForm (.rows f) → (q.single.run s unit w).1 = (f r).map some ∧
      (q'.single.run s unit' w').1 =
        (f (ρ.row (q.projection.map (·.column.name)))).map some := by
  have hhit := (isAnsweredBy_of_hits hst hhits).result
  have hmiss := single_run_of_isSent hst hsent hfull hreply hfirst (Record.isFull_row ..)
  constructor
  · intro hform
    have hreads : q.ReadsProjection := hform.means
    -- the row that hits has every column of the projection, with what the record holds there
    obtain ⟨b, hb, haccepted⟩ := (q.single.plan s.prepare).accepts_spec hagrees.full
    rw [hhits.accepts] at hb
    obtain ⟨hcovers, -⟩ := haccepted.1 (Except.ok.inj hb).symm
    rw [hhit, hmiss, hreads r _ hagrees.full (Record.isFull_row ..) fun n hn => ?_]
    refine ⟨ρ n.column.name, hagrees.cell_eq (hcovers n hn), ?_⟩
    rw [Record.cell?_row, if_pos (List.mem_map_of_mem hn)]
  · intro f hform
    have hmapper : q.mapper = f := hform.means
    rw [hhit, hmiss, hmapper]
    exact ⟨rfl, rfl⟩

end

end

/-! ## Accounts -/

namespace Account

/-- Reads the whole account with an email address. -/
def accountOf (email : String) : Query Account :=
  Restricted.whereEq (Query.all mapping) (t := .text) ⟨entity, "email"⟩ email

/-- Reads the balance as a row. -/
def rawBalanceOf (email : String) : Query Row :=
  Restricted.whereEq (Query.raw.column entity "balance") (t := .text) ⟨entity, "email"⟩ email

/-- The record of an account with tags. -/
def tagged : Record := (record ⟨7⟩ "a@b" 10).set "tags" (some (.list [.text "gold"]))

/-- The account as a cached row, with its columns in another order than that of the table. -/
def reordered : Row := tagged.row ["tags", "email", "balance", "id"]

/-- The session cache has the account by its email address. -/
def warm : State Table :=
  { session.start [tagged] with
    cache := SessionCache.put {} [entity.keyOf emailNode (.text "a@b")] reordered }

/-- Accounts are made of the columns of their table. -/
theorem readsColumns_mapping : mapping.ReadsColumns := by
  intro r r' hr hr' h
  have hproperty := fun property t =>
    Query.getProperty_congr (e := entity) hr hr' h property t
  show (do
    let id ← r.getProperty entity "id" .uuid
    let email ← r.getProperty entity "email" .text
    let balance ← r.getProperty entity "balance" .int
    let tags ← r.getProperty entity "tags" (.list .text)
    return (⟨id, email, balance, tags⟩ : Account)) = _
  simp only [hproperty]
  rfl

theorem get?_warm : warm.cache.get? [entity.keyOf emailNode (.text "a@b")] = some reordered := by
  rw [SessionCache.get?_singleton]
  exact (SessionCache.rows_put ..).trans (if_pos (List.mem_singleton_self _))

theorem hits_accountOf :
    ((accountOf "a@b").single.plan session.prepare).Hits none warm reordered :=
  PointQuery.Plan.hits_outside.2 ⟨rfl, by decide, get?_warm, by with_unfolding_all rfl⟩

theorem hits_rawBalanceOf :
    ((rawBalanceOf "a@b").single.plan session.prepare).Hits none warm reordered :=
  PointQuery.Plan.hits_outside.2 ⟨rfl, by decide, get?_warm, by with_unfolding_all rfl⟩

theorem mirrors_reordered : reordered.Mirrors [] tagged :=
  Row.mirrors_row (by simp) tagged

/-- A whole account comes from the cache as from the table. A balance that is read as a row comes
from the cache with the rest of the account. -/
theorem account_of_hit :
    ((accountOf "a@b").single.run session none warm).1 =
        ((Configured.ignoreCache (accountOf "a@b")).single.run session none
          (session.start [tagged])).1 ∧
      ((rawBalanceOf "a@b").single.run session none warm).1 = .ok (some reordered) ∧
      ((Configured.ignoreCache (rawBalanceOf "a@b")).single.run session none
        (session.start [tagged])).1 = .ok (some (tagged.row ["balance"])) := by
  have hfull : (session.start [tagged]).HasFullRows := fun key r h =>
    absurd h (SessionStep.not_has_start _ key r)
  have haccount : (accountOf "a@b").HasForm .typed := .restricted _ (.all readsColumns_mapping)
  have hraw : (rawBalanceOf "a@b").HasForm (.rows .ok) := .restricted _ (.column _ _ .raw)
  have hsent : ∀ {α : Type} (q : Query α),
      q.IsSent (Configured.ignoreCache q) session none (session.start [tagged]) :=
    fun _ => .inl rfl
  have hfirst := hit_eq_miss (q := accountOf "a@b") rfl hits_accountOf mirrors_reordered
    (hsent _) hfull rfl (by with_unfolding_all rfl)
  have hsecond := hit_eq_miss (q := rawBalanceOf "a@b") rfl hits_rawBalanceOf mirrors_reordered
    (hsent _) hfull rfl (by with_unfolding_all rfl)
  exact ⟨hfirst.1 haccount, hsecond.2 _ hraw⟩

end Account

end WideRow
