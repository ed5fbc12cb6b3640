import WideRow.Proofs.Resolution
import WideRow.Proofs.Statements
import WideRow.Proofs.WriteThrough

/-!
# Runs that follow the database

Inside a unit of work or outside of all of them, what a call comes to should be what the database
alone says. `Call.Follows` says so of one call, together with something, `Q`, that holds of the
state afterwards; for each kind of operation there is a lemma with what is left to show. A run
follows the database call by call:

> `runAll_follows`: if every call follows the database wherever `Q` holds and keeps `Q`, a run
> has the results and the final database of a run of the database alone.

What is counted and logged on the way is kept out of sight: `Q` ignores it, and the lemmas hand
on states that are the same up to it, `State.Moved`. The first use is a cache that is switched
off, where `Q` says that it is still off (`runAll_of_isOff`).
-/

namespace WideRow

/-- A call comes to what the database alone says, and `Q` holds of the state that it leaves. -/
structure Call.Follows {σ : Type} (s : Session σ) (Q : State σ → Prop) (c : Call)
    (w : State σ) (outcome : Outcome σ c.Result) : Prop where
  result : outcome.1 = (c.direct s w.database).1
  database : outcome.2.database = (c.direct s w.database).2
  kept : Q outcome.2

section

variable {σ : Type} {s : Session σ} {unit : Option Nat} {Q : State σ → Prop} {w : State σ}

/-- A statement that cannot be built is not sent. -/
theorem direct_of_error {c : Call} {e : Error} (h : c.statement s.prepare = .error e) (db : σ) :
    c.direct s db = (.error e, db) := by
  rw [Call.direct, h]

/-- Without caches, a call is the statement, the reply and what is read from it. -/
theorem direct_of_ok {c : Call} {st : Statement} (h : c.statement s.prepare = .ok st) (db : σ) :
    c.direct s db = ((s.reply c.options st db).1.bind c.result, (s.reply c.options st db).2) := by
  rw [Call.direct, h]

/-- What makes a write follow the database: `Q` stays where the write was not carried out, and
the caches can follow where it was. -/
structure Session.CanWrite (s : Session σ) (Q : State σ → Prop) (w : State σ)
    (o : StatementOptions) (st : Statement) (through : State σ → Outcome σ Unit) : Prop where
  unapplied : (s.reply o st w.database).1.bind ResultSet.wasApplied ≠ .ok true →
    ∀ w₁, w.Moved (s.reply o st w.database).2 w₁ → Q w₁
  applied : (s.reply o st w.database).1.bind ResultSet.wasApplied = .ok true →
    ∀ w₁, w.Moved (s.reply o st w.database).2 w₁ →
      ∃ w₂, through w₁ = (.ok (), w₂) ∧ w₂.database = w₁.database ∧ Q w₂

/-- A write that goes through the caches has the result and the database of the statement alone, if
the caches can follow it. -/
theorem write_follows {k : OperationKind} {o : StatementOptions} {st : Statement}
    {through : State σ → Outcome σ Unit} (h : s.CanWrite Q w o st through) {w' : State σ}
    (hw' : w.Moved w.database w') :
    (s.write unit k o st through w').1 =
        (s.reply o st w.database).1.bind ResultSet.acknowledged ∧
      (s.write unit k o st through w').2.database = (s.reply o st w.database).2 ∧
      Q (s.write unit k o st through w').2 := by
  obtain ⟨w₁, hexec, hmoved⟩ := hw'.execute_eq (s := s) unit k o st
  by_cases happlied : (s.reply o st w.database).1.bind ResultSet.wasApplied = .ok true
  · obtain ⟨w₂, hthrough, hdb₂, hQ⟩ := h.applied happlied w₁ hmoved
    rw [write_of_applied (by rw [hexec, happlied]) (by rw [hexec, hthrough]), hexec]
    exact ⟨rfl, hdb₂.trans hmoved.database, hQ⟩
  · rw [write_of_not_applied (by rw [hexec]; exact happlied), hexec]
    exact ⟨rfl, hmoved.database, h.unapplied happlied w₁ hmoved⟩

/-- To count a call when it is over changes neither result nor database. -/
theorem counted_follows (hQ : State.IgnoresCounts Q) {c : Call} {k : OperationKind}
    {run : State σ → Outcome σ c.Result} (h : c.Follows s Q w (run w)) :
    c.Follows s Q w (Session.counted k run w) where
  result := (counted_fst run).trans h.result
  database := (moved_counted run).database.trans h.database
  kept := hQ _ _ (moved_counted run) h.kept

/-- A call whose statement cannot be built leaves all as it was. -/
theorem follows_of_error {c : Call} {e : Error} (hst : c.statement s.prepare = .error e)
    (h : Q w) : c.Follows s Q w (.error e, w) where
  result := by rw [direct_of_error hst]
  database := by rw [direct_of_error hst]
  kept := h

theorem follows_of_ok {c : Call} {st : Statement} {reply : Except Error ResultSet × σ}
    (hst : c.statement s.prepare = .ok st) (hreply : s.reply c.options st w.database = reply)
    {outcome : Outcome σ c.Result} (hresult : outcome.1 = reply.1.bind c.result)
    (hdb : outcome.2.database = reply.2) (h : Q outcome.2) : c.Follows s Q w outcome := by
  subst hreply
  have hdirect := direct_of_ok hst w.database
  exact ⟨hresult.trans (congrArg Prod.fst hdirect).symm,
    hdb.trans (congrArg Prod.snd hdirect).symm, h⟩

/-! ## Writes -/

/-- An insert follows its statement if the caches can take the written row up. -/
theorem insert_follows {i : RowInsert} (hQ : State.IgnoresCounts Q) (hw : Q w)
    (h : ∀ st, i.statement s.prepare = .ok st →
      s.CanWrite Q w i.options st (i.writeThrough s.prepare unit)) :
    Call.Follows s Q (.insert i) w (i.run s unit w) := by
  refine counted_follows (c := .insert i) hQ ?_
  unfold RowInsert.apply RowInsert.build
  cases hst : i.statement s.prepare with
  | error e => exact follows_of_error (c := .insert i) hst hw
  | ok st =>
    obtain ⟨hresult, hdb, hkept⟩ := write_follows (k := .insert) (h st hst) (.refl w)
    exact follows_of_ok (c := .insert i) hst rfl hresult hdb hkept

/-- An update does if they can take the change up. -/
theorem update_follows {u : RowUpdate} (hQ : State.IgnoresCounts Q) (hw : Q w)
    (h : ∀ st, u.statement s.prepare = .ok st →
      s.CanWrite Q w u.options st (u.writeThrough s.prepare unit)) :
    Call.Follows s Q (.update u) w (u.run s unit w) := by
  refine counted_follows (c := .update u) hQ ?_
  unfold RowUpdate.apply RowUpdate.build
  cases hst : u.statement s.prepare with
  | error e => exact follows_of_error (c := .update u) hst hw
  | ok st =>
    obtain ⟨hresult, hdb, hkept⟩ := write_follows (k := .update) (h st hst) (.refl w)
    exact follows_of_ok (c := .update u) hst rfl hresult hdb hkept

/-- A delete does if they can drop what is deleted. -/
theorem delete_follows {d : RowDelete} (hQ : State.IgnoresCounts Q) (hw : Q w)
    (h : ∀ st, d.statement s.prepare = .ok st →
      s.CanWrite Q w d.options st (d.writeThrough s.prepare unit)) :
    Call.Follows s Q (.delete d) w (d.run s unit w) := by
  refine counted_follows (c := .delete d) hQ ?_
  unfold RowDelete.apply RowDelete.build
  cases hst : d.statement s.prepare with
  | error e => exact follows_of_error (c := .delete d) hst hw
  | ok st =>
    obtain ⟨hresult, hdb, hkept⟩ := write_follows (k := .delete) (h st hst)
      (w.moved_events (w.events ++ d.warnings st))
    exact follows_of_ok (c := .delete d) hst rfl hresult hdb hkept

/-! ## Reads -/

/-- A read goes past the caches, so that nothing of them is asked but to stay as they are. -/
theorem read_follows {α : Type} {q : Query α} (hQ : State.IgnoresCounts Q) (hw : Q w)
    (h : ∀ st, q.statement s.prepare = .ok st →
      ∀ w₁, w.Moved (s.reply q.options st w.database).2 w₁ → Q w₁) :
    Call.Follows s Q (.read q) w (q.run s unit w) := by
  refine counted_follows (c := .read q) hQ ?_
  unfold Query.fetch Query.build
  cases hst : q.statement s.prepare with
  | error e => exact follows_of_error (c := .read q) hst hw
  | ok st =>
    obtain ⟨w', hexec, hmoved⟩ := execute_eq (s := s) unit .select q.options st
      { w with events := w.events ++ q.warnings st }
    have hkept := h st hst w' ((w.moved_events _).trans hmoved)
    simp only [hexec]
    generalize hreply : s.reply q.options st w.database = reply at *
    obtain ⟨answer, db⟩ := reply
    cases answer with
    | error e => exact follows_of_ok (c := .read q) hst hreply rfl hmoved.database hkept
    | ok answer => exact follows_of_ok (c := .read q) hst hreply rfl hmoved.database hkept

theorem count_follows {c : RowCount} (hQ : State.IgnoresCounts Q) (hw : Q w)
    (h : ∀ st, c.statement s.prepare = .ok st →
      ∀ w₁, w.Moved (s.reply c.options st w.database).2 w₁ → Q w₁) :
    Call.Follows s Q (.count c) w (c.run s unit w) := by
  have hrun : c.run s unit w =
      ((Session.counted .count (c.fetch s unit) w).1.map fun counts => counts.head?.getD 0,
        (Session.counted .count (c.fetch s unit) w).2) := by
    unfold RowCount.run
    obtain ⟨counts, w'⟩ := Session.counted .count (c.fetch s unit) w
    cases counts <;> rfl
  have hcounted : Call.Follows s Q (.count c) w
      ((c.fetch s unit w).1.map fun counts => counts.head?.getD 0, (c.fetch s unit w).2) := by
    unfold RowCount.fetch RowCount.build
    cases hst : c.statement s.prepare with
    | error e => exact follows_of_error (c := .count c) hst hw
    | ok st =>
      obtain ⟨w', hexec, hmoved⟩ := execute_eq (s := s) unit .count c.options st w
      have hkept := h st hst w' hmoved
      simp only [hexec]
      generalize hreply : s.reply c.options st w.database = reply at *
      obtain ⟨answer, db⟩ := reply
      cases answer with
      | error e => exact follows_of_ok (c := .count c) hst hreply rfl hmoved.database hkept
      | ok answer => exact follows_of_ok (c := .count c) hst hreply rfl hmoved.database hkept
  rw [hrun]
  have hmoved := moved_counted (w := w) (k := .count) (c.fetch s unit)
  refine ⟨?_, hmoved.database.trans hcounted.database, hQ _ _ hmoved hcounted.kept⟩
  rw [counted_fst]
  exact hcounted.result

/-! ## Lookups -/

/-- What makes a lookup follow the database once the caches were asked: they answer as the database
would, or miss and can take what the database answers. -/
def Session.CanAnswer {α : Type} (s : Session σ) (unit : Option Nat) (Q : State σ → Prop)
    (q : Query α) (st : Statement) (db : σ) (w₂ : State σ) : PointQuery.Resolution → Prop
  | .deleted => (s.reply q.options st db).1.bind q.itemOf = .ok none ∧
      (s.reply q.options st db).2 = db ∧ Q w₂
  | .hit r => (s.reply q.options st db).1.bind q.itemOf = (q.mapper r).map some ∧
      (s.reply q.options st db).2 = db ∧ Q w₂
  | .miss populate => ∀ w₃, w₂.Moved (s.reply q.options st db).2 w₃ → Q w₃ ∧
      (populate = true → ∀ answer r, (s.reply q.options st db).1 = .ok answer →
        answer.first? = some r → ∃ w₄, (q.single.plan s.prepare).populate r unit w₃ =
          (.ok (), w₄) ∧ w₄.database = w₃.database ∧ Q w₄)

theorem itemOf_of_none {α : Type} {q : Query α} {answer : ResultSet}
    (h : answer.first? = none) : q.itemOf answer = .ok none := by
  rw [Query.itemOf, h]

theorem itemOf_of_some {α : Type} {q : Query α} {answer : ResultSet} {r : Row}
    (h : answer.first? = some r) : q.itemOf answer = (q.mapper r).map some := by
  rw [Query.itemOf, h]

/-- What is made of the answer of the caches. -/
theorem finish_follows {α : Type} {q : Query α} {st : Statement}
    (hst : q.single.statement s.prepare = .ok st) {found : PointQuery.Resolution} {w₂ : State σ}
    (hdb₂ : w₂.database = w.database) (h : s.CanAnswer unit Q q st w.database w₂ found) :
    Call.Follows s Q (.lookup q) w (q.single.finish s unit st (.ok found, w₂)) := by
  cases found with
  | deleted =>
    obtain ⟨hitem, hsame, hkept⟩ := h
    exact follows_of_ok (c := .lookup q) hst rfl hitem.symm (hdb₂.trans hsame.symm) hkept
  | hit r =>
    obtain ⟨hitem, hsame, hkept⟩ := h
    exact follows_of_ok (c := .lookup q) hst rfl hitem.symm (hdb₂.trans hsame.symm) hkept
  | miss populate =>
    -- the database is asked, and only a row that is found can go into the caches
    obtain ⟨w₃, hexec, hmoved⟩ := execute_eq (s := s) unit .selectFirst q.options st w₂
    rw [hdb₂] at hexec hmoved
    obtain ⟨hkept, hpopulate⟩ := h w₃ hmoved
    have hoptions : q.single.query.options = q.options := rfl
    unfold PointQuery.finish PointQuery.fetch
    simp only [hoptions, hexec]
    have hdb₃ := hmoved.database
    generalize hreply : s.reply q.options st w.database = reply at *
    obtain ⟨answer, db⟩ := reply
    cases answer with
    | error e => exact follows_of_ok (c := .lookup q) hst hreply rfl hdb₃ hkept
    | ok answer =>
      cases hfirst : answer.first? with
      | none =>
        simp only [hfirst]
        exact follows_of_ok (c := .lookup q) hst hreply (itemOf_of_none hfirst).symm hdb₃ hkept
      | some r =>
        simp only [hfirst]
        have hresult := (itemOf_of_some (q := q) hfirst).symm
        cases populate with
        | false => exact follows_of_ok (c := .lookup q) hst hreply hresult hdb₃ hkept
        | true =>
          obtain ⟨w₄, hw₄, hdb₄, hkept₄⟩ := hpopulate rfl answer r rfl hfirst
          simp only [if_true, hw₄]
          exact follows_of_ok (c := .lookup q) hst hreply hresult (hdb₄.trans hdb₃) hkept₄

/-- A lookup follows its statement if the caches answer like the database or let it ask the
database. -/
theorem lookup_follows {α : Type} {q : Query α} (hQ : State.IgnoresCounts Q) (hw : Q w)
    (h : ∀ st, q.single.statement s.prepare = .ok st → ∀ w₁, w.Moved w.database w₁ →
      ∃ found w₂, (q.single.plan s.prepare).resolve unit w₁ = (.ok found, w₂) ∧
        w₂.database = w.database ∧ s.CanAnswer unit Q q st w.database w₂ found) :
    Call.Follows s Q (.lookup q) w (q.single.run s unit w) := by
  refine counted_follows (c := .lookup q) hQ ?_
  cases hst : q.single.statement s.prepare with
  | error e =>
    rw [PointQuery.answer_of_error hst]
    exact follows_of_error (c := .lookup q) hst hw
  | ok st =>
    obtain ⟨found, w₂, hfound, hdb₂, hcase⟩ := h st hst
      _ (w.moved_events (w.events ++ q.single.query.warnings st))
    rw [PointQuery.answer_eq hst, hfound]
    exact finish_follows hst hdb₂ hcase

/-- A lookup whose statement cannot be built fails. -/
theorem single_run_of_error {α : Type} {q : Query α} {e : Error}
    (hst : q.single.statement s.prepare = .error e) : (q.single.run s unit w).1 = .error e := by
  unfold PointQuery.run
  rw [counted_fst, PointQuery.answer_of_error hst]

/-- A lookup that the caches answer returns the item of their row. -/
theorem single_run_of_hit {α : Type} {q : Query α} {st : Statement} {r : Row} {w' : State σ}
    (hst : q.single.statement s.prepare = .ok st)
    (h : (q.single.plan s.prepare).resolve unit
      { w with events := w.events ++ q.single.query.warnings st } = (.ok (.hit r), w')) :
    (q.single.run s unit w).1 = (q.mapper r).map some ∧
      w'.Moved w'.database (q.single.run s unit w).2 := by
  have hanswer : q.single.answer s unit w = ((q.mapper r).map some, w') := by
    rw [PointQuery.answer_eq hst, h]
    rfl
  have hmoved := moved_counted (w := w) (k := .selectFirst) (q.single.answer s unit)
  unfold PointQuery.run
  rw [counted_fst]
  rw [hanswer] at hmoved ⊢
  exact ⟨rfl, hmoved⟩

/-- A lookup that the caches miss returns the item of the row that the database answers, and
leaves the state with the row in the caches. -/
theorem single_run_of_miss {α : Type} {q : Query α} {st : Statement} {r : Row} {answer : ResultSet}
    {w₂ : State σ} (hst : q.single.statement s.prepare = .ok st)
    (h : (q.single.plan s.prepare).resolve unit
      { w with events := w.events ++ q.single.query.warnings st } = (.ok (.miss true), w₂))
    (hreply : (s.reply q.options st w₂.database).1 = .ok answer) (hfirst : answer.first? = some r)
    (w₄ : State σ) (hpopulate : ∀ w₃, w₂.Moved (s.reply q.options st w₂.database).2 w₃ →
      ∃ w₅, (q.single.plan s.prepare).populate r unit w₃ = (.ok (), w₅) ∧ w₄.Moved w₄.database w₅) :
    (q.single.run s unit w).1 = (q.mapper r).map some ∧
      w₄.Moved w₄.database (q.single.run s unit w).2 := by
  obtain ⟨w₃, hexec, hmoved⟩ := execute_eq (s := s) unit .selectFirst q.options st w₂
  obtain ⟨w₅, hw₅, hmoved₅⟩ := hpopulate w₃ hmoved
  have hanswer : q.single.answer s unit w = ((q.mapper r).map some, w₅) := by
    have hoptions : q.single.query.options = q.options := rfl
    rw [PointQuery.answer_eq hst, h]
    unfold PointQuery.finish PointQuery.fetch
    simp only [hoptions, hexec, hreply, hfirst, if_true, hw₅]
    rfl
  have hcounted := moved_counted (w := w) (k := .selectFirst) (q.single.answer s unit)
  unfold PointQuery.run
  rw [counted_fst]
  rw [hanswer] at hcounted ⊢
  refine ⟨rfl, hmoved₅.trans ?_⟩
  rw [← hmoved₅.database]
  exact hcounted

/-! ## Runs -/

/-- Where every call leaves the database as its statement alone does, so does a run. -/
theorem runAll_database {unit : Option Nat} : ∀ {calls : List Call} {w : State σ},
    s.Along unit (fun c w => (c.run s unit w).2.database = (c.direct s w.database).2) calls w →
    (s.runAll unit calls w).2.database = (s.directAll calls w.database).2
  | [], _, _ => rfl
  | c :: calls, w, ⟨hfirst, hrest⟩ => by
    show (s.runAll unit calls (c.run s unit w).2).2.database = _
    rw [runAll_database hrest, hfirst]
    rfl

/-- A run whose calls follow the database has the results and the final database of a run of the
database alone. -/
theorem runAll_of_along (unit : Option Nat) :
    ∀ (calls : List Call) {w : State σ},
      s.Along unit (fun c w => c.Follows s Q w (c.run s unit w)) calls w →
      (s.runAll unit calls w).1 = (s.directAll calls w.database).1 ∧
        (s.runAll unit calls w).2.database = (s.directAll calls w.database).2
  | [], w, _ => ⟨rfl, rfl⟩
  | c :: calls, w, ⟨hfirst, hrest⟩ => by
    obtain ⟨hresults, hdb⟩ := runAll_of_along unit calls hrest
    rw [hfirst.database] at hresults hdb
    refine ⟨?_, hdb⟩
    simp only [Session.runAll, Session.directAll]
    rw [hfirst.result, hresults]

/-- If every call of which `P` is so follows the database wherever `Q` holds and keeps `Q`, then a
run along which `P` is so has the results and the final database of a run of the database alone. -/
theorem runAll_follows_along (unit : Option Nat) {P : Call → State σ → Prop} (calls : List Call)
    (hstep : ∀ c ∈ calls, ∀ w : State σ, Q w → P c w → c.Follows s Q w (c.run s unit w))
    (hcalls : s.Along unit P calls w) (hw : Q w) :
    (s.runAll unit calls w).1 = (s.directAll calls w.database).1 ∧
      (s.runAll unit calls w).2.database = (s.directAll calls w.database).2 ∧
      Q (s.runAll unit calls w).2 := by
  obtain ⟨hfollows, hend⟩ := Session.Along.of_step s (fun c hc w hw hP =>
    have hfirst := hstep c hc w hw hP
    ⟨hfirst, hfirst.kept⟩) hcalls hw
  obtain ⟨hresults, hdb⟩ := runAll_of_along unit calls hfollows
  exact ⟨hresults, hdb, hend⟩

/-- If every call follows the database wherever `Q` holds and keeps `Q`, a run has the results
and the final database of a run of the database alone. -/
theorem runAll_follows (unit : Option Nat) (calls : List Call)
    (hstep : ∀ c ∈ calls, ∀ w : State σ, Q w → c.Follows s Q w (c.run s unit w)) (hw : Q w) :
    (s.runAll unit calls w).1 = (s.directAll calls w.database).1 ∧
      (s.runAll unit calls w).2.database = (s.directAll calls w.database).2 ∧
      Q (s.runAll unit calls w).2 :=
  runAll_follows_along unit calls (fun c hc w hw _ => hstep c hc w hw)
    (Session.Along.of_forall s fun _ _ _ => trivial) hw

end

/-! ## A cache that is switched off -/

/-- A session cache that takes no rows and has none. -/
structure SessionCache.IsOff (c : SessionCache) : Prop where
  disabled : c.isEnabled = false
  empty : ∀ key : String, c.rows[key]? = none

/-- A cache that is switched off admits nothing. -/
theorem admits_of_isOff {c : SessionCache} (h : c.IsOff) (p : CachePolicy) :
    p.admits c = false := by
  rw [CachePolicy.admits, h.disabled, Bool.false_and]

/-- An eviction finds nothing in a cache that is off. -/
theorem evict_of_isOff {c : SessionCache} (h : c.IsOff) (p : CachePolicy) (keys : List String) :
    ∃ c', p.evict c keys = .ok c' ∧ c'.IsOff := by
  unfold CachePolicy.evict
  by_cases hkeys : keys.isEmpty = true
  · rw [if_pos hkeys]
    cases p.schema? with
    | none => exact ⟨c, rfl, h⟩
    | some schema =>
      refine ⟨_, rfl, h.disabled, fun key => ?_⟩
      rw [SessionCache.invalidateSchema, Std.ExtTreeMap.getElem?_filter', h.empty]
      rfl
  · rw [if_neg hkeys, SessionCache.get?_eq_none.2 fun key _ => h.empty key]
    refine ⟨_, rfl, h.disabled, fun key => ?_⟩
    rw [SessionCache.rows_invalidate, h.empty, ite_self]

section

variable {σ : Type} {s : Session σ} {w : State σ}

/-- The session cache of a state is off. -/
def State.IsUncached (w : State σ) : Prop := w.cache.IsOff

theorem ignoresCounts_isUncached : State.IgnoresCounts (State.IsUncached (σ := σ)) := by
  intro w w' hmoved h
  unfold State.IsUncached
  rw [hmoved.cache]
  exact h

/-- To send a statement does not switch the cache on. -/
theorem isUncached_of_moved {db : σ} {w' : State σ} (h : w.IsUncached) (hmoved : w.Moved db w') :
    w'.IsUncached := by
  unfold State.IsUncached
  rw [hmoved.cache]
  exact h

/-- Without a cache, every lookup asks the database. -/
theorem lookup_of_isUncached {α : Type} (q : Query α) (h : w.IsUncached) :
    Call.Follows s State.IsUncached (.lookup q) w (q.single.run s none w) := by
  refine lookup_follows ignoresCounts_isUncached h fun st _ w₁ hw₁ => ?_
  have hoff := isUncached_of_moved h hw₁
  have hadmits : (q.single.plan s.prepare).policy.admits w₁.cache = false :=
    admits_of_isOff hoff _
  refine ⟨.miss false, w₁, ?_, hw₁.database, fun w₃ hw₃ => ⟨isUncached_of_moved hoff hw₃, ?_⟩⟩
  · simp [PointQuery.Plan.resolve, PointQuery.Plan.withoutUnit, hadmits]
  · simp

/-- Without a cache, there is nothing for a write to follow. -/
theorem insert_of_isUncached (i : RowInsert) (h : w.IsUncached) :
    Call.Follows s State.IsUncached (.insert i) w (i.run s none w) := by
  refine insert_follows ignoresCounts_isUncached h fun st hst =>
    ⟨fun _ w₁ hw₁ => isUncached_of_moved h hw₁, fun _ w₁ hw₁ => ?_⟩
  have hoff := isUncached_of_moved h hw₁
  obtain ⟨e, he, -⟩ := RowInsert.of_statement hst
  obtain ⟨facets, hfacets⟩ := exists_facetsOfRow e (r := i.row s.prepare) (Row.isFull_ofPairs _)
  have hkeys : (⟨.update, some e⟩ : CachePolicy).keysOfRow (i.row s.prepare) =
      .ok (Facet.keys facets) := congrArg (Except.map Facet.keys) hfacets
  have hadmits : (⟨.update, some e⟩ : CachePolicy).admits w₁.cache = false :=
    admits_of_isOff hoff _
  exact ⟨w₁, RowInsert.writeThrough_of_refused he hkeys (by simp [hadmits]), rfl, hoff⟩

theorem update_of_isUncached (u : RowUpdate) (h : w.IsUncached) :
    Call.Follows s State.IsUncached (.update u) w (u.run s none w) := by
  refine update_follows ignoresCounts_isUncached h fun st hst =>
    ⟨fun _ w₁ hw₁ => isUncached_of_moved h hw₁, fun _ w₁ hw₁ => ?_⟩
  have hoff := isUncached_of_moved h hw₁
  obtain ⟨e, -, -, he, -⟩ := RowUpdate.of_statement hst
  have hadmits : (⟨.update, some e⟩ : CachePolicy).admits w₁.cache = false :=
    admits_of_isOff hoff _
  exact ⟨w₁, RowUpdate.writeThrough_of_refused he (by simp [hadmits]), rfl, hoff⟩

theorem delete_of_isUncached (d : RowDelete) (h : w.IsUncached) :
    Call.Follows s State.IsUncached (.delete d) w (d.run s none w) := by
  refine delete_follows ignoresCounts_isUncached h fun st _ =>
    ⟨fun _ w₁ hw₁ => isUncached_of_moved h hw₁, fun _ w₁ hw₁ => ?_⟩
  obtain ⟨c', hc', hoff⟩ := evict_of_isOff (isUncached_of_moved h hw₁) ⟨.delete, some d.entity⟩
    (if d.isTruncate then [] else d.conditions.keys ⟨.delete, some d.entity⟩ s.prepare)
  exact ⟨{ w₁ with cache := c' }, RowDelete.writeThrough_outside hc', rfl, hoff⟩

/-- Without a cache, every call is the statement alone. -/
theorem run_of_isUncached (c : Call) (h : w.IsUncached) :
    c.Follows s State.IsUncached w (c.run s none w) := by
  cases c with
  | lookup q => exact lookup_of_isUncached q h
  | read q =>
    exact read_follows ignoresCounts_isUncached h fun _ _ _ hw₁ => isUncached_of_moved h hw₁
  | count c =>
    exact count_follows ignoresCounts_isUncached h fun _ _ _ hw₁ => isUncached_of_moved h hw₁
  | insert i => exact insert_of_isUncached i h
  | update u => exact update_of_isUncached u h
  | delete d => exact delete_of_isUncached d h

/-- Without a session cache, a run outside all units is a run of the database alone. -/
theorem runAll_of_isOff (calls : List Call) (h : w.cache.IsOff) :
    (s.runAll none calls w).1 = (s.directAll calls w.database).1 ∧
      (s.runAll none calls w).2.database = (s.directAll calls w.database).2 :=
  have hrun := runAll_follows none (Q := State.IsUncached) calls
    (fun c _ _ hw => run_of_isUncached c hw) h
  ⟨hrun.1, hrun.2.1⟩

end

end WideRow
