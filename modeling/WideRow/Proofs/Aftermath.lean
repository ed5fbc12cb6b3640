import WideRow.Proofs.Resolution
import WideRow.Proofs.Following

/-!
# What an operation leaves

Whether something, `Q`, holds of the state after an operation is decided by what the operation did
to the caches; what it counted and logged is of no concern. For each kind of operation there is a
lemma that says what is left to show. A write is followed by the caches or not (`Session.Leaves`).
A lookup in a unit leaves the caches alone, or puts into the unit the row that it took from the
session cache, or the row that the database answered (`Query.Leaves`). Outside of units it leaves
the session cache alone, or puts there the row that the database answered (`Query.LeavesOutside`).

Nothing is said here of results, nor of the database being right.
-/

namespace WideRow

section

variable {σ : Type} {s : Session σ} {unit : Option Nat} {Q : State σ → Prop} {w w' : State σ}

/-- What makes `Q` hold after a write: it holds where the write was not carried out, and where it
was and the caches have followed it. -/
structure Session.Leaves (s : Session σ) (Q : State σ → Prop) (w : State σ)
    (o : StatementOptions) (st : Statement) (through : State σ → Outcome σ Unit) : Prop where
  unapplied : (s.reply o st w.database).1.bind ResultSet.wasApplied ≠ .ok true →
    ∀ w₁, w.Moved (s.reply o st w.database).2 w₁ → Q w₁
  applied : (s.reply o st w.database).1.bind ResultSet.wasApplied = .ok true →
    ∀ w₁, w.Moved (s.reply o st w.database).2 w₁ → Q (through w₁).2

/-- A write leaves what was to show, if it does whether or not the caches follow. -/
theorem write_leaves {k : OperationKind} {o : StatementOptions} {st : Statement}
    {through : State σ → Outcome σ Unit} (h : s.Leaves Q w o st through)
    (hw' : w.Moved w.database w') : Q (s.write unit k o st through w').2 := by
  obtain ⟨w₁, hexec, hmoved⟩ := hw'.execute_eq (s := s) unit k o st
  by_cases happlied : (s.reply o st w.database).1.bind ResultSet.wasApplied = .ok true
  · rw [write_snd_of_applied (by rw [hexec, happlied]), hexec]
    exact h.applied happlied w₁ hmoved
  · rw [write_of_not_applied (by rw [hexec]; exact happlied), hexec]
    exact h.unapplied happlied w₁ hmoved

theorem counted_leaves {α : Type} (hQ : State.IgnoresCounts Q) {k : OperationKind}
    {run : State σ → Outcome σ α} (h : Q (run w).2) : Q (Session.counted k run w).2 :=
  hQ _ _ (moved_counted run) h

/-- An insert that could not be built leaves all as it was. -/
theorem insert_leaves {x : RowInsert} (hQ : State.IgnoresCounts Q)
    (hw : ∀ e, x.statement s.prepare = .error e → Q w)
    (h : ∀ st, x.statement s.prepare = .ok st →
      s.Leaves Q w x.options st (x.writeThrough s.prepare unit)) : Q (x.run s unit w).2 := by
  refine counted_leaves hQ ?_
  unfold RowInsert.apply RowInsert.build
  cases hst : x.statement s.prepare with
  | error e => exact hw e hst
  | ok st => exact write_leaves (h st hst) (.refl w)

theorem update_leaves {u : RowUpdate} (hQ : State.IgnoresCounts Q)
    (hw : ∀ e, u.statement s.prepare = .error e → Q w)
    (h : ∀ st, u.statement s.prepare = .ok st →
      s.Leaves Q w u.options st (u.writeThrough s.prepare unit)) : Q (u.run s unit w).2 := by
  refine counted_leaves hQ ?_
  unfold RowUpdate.apply RowUpdate.build
  cases hst : u.statement s.prepare with
  | error e => exact hw e hst
  | ok st => exact write_leaves (h st hst) (.refl w)

/-- An update that is carried out leaves what the caches come to when they follow it. -/
theorem update_leaves_of_applied {u : RowUpdate} {st : Statement} (hQ : State.IgnoresCounts Q)
    (hst : u.statement s.prepare = .ok st)
    (happlied : (s.reply u.options st w.database).1.bind ResultSet.wasApplied = .ok true)
    (h : ∀ w₁, w.Moved (s.reply u.options st w.database).2 w₁ →
      Q (u.writeThrough s.prepare unit w₁).2) : Q (u.run s unit w).2 := by
  refine update_leaves hQ (fun e herror => ?_) fun st' hst' => ?_
  · exact absurd (hst.symm.trans herror) (by simp)
  · obtain rfl : st = st' := Except.ok.inj (hst.symm.trans hst')
    exact ⟨fun hnot => absurd happlied hnot, fun _ => h⟩

theorem delete_leaves {d : RowDelete} (hQ : State.IgnoresCounts Q)
    (hw : ∀ e, d.statement s.prepare = .error e → Q w)
    (h : ∀ st, d.statement s.prepare = .ok st →
      s.Leaves Q w d.options st (d.writeThrough s.prepare unit)) : Q (d.run s unit w).2 := by
  refine counted_leaves hQ ?_
  unfold RowDelete.apply RowDelete.build
  cases hst : d.statement s.prepare with
  | error e => exact hw e hst
  | ok st => exact write_leaves (h st hst) (w.moved_events _)

/-- A delete that is carried out leaves what the caches come to when they follow it. -/
theorem delete_leaves_of_applied {d : RowDelete} {st : Statement} (hQ : State.IgnoresCounts Q)
    (hst : d.statement s.prepare = .ok st)
    (happlied : (s.reply d.options st w.database).1.bind ResultSet.wasApplied = .ok true)
    (h : ∀ w₁, w.Moved (s.reply d.options st w.database).2 w₁ →
      Q (d.writeThrough s.prepare unit w₁).2) : Q (d.run s unit w).2 := by
  refine delete_leaves hQ (fun e herror => ?_) fun st' hst' => ?_
  · exact absurd (hst.symm.trans herror) (by simp)
  · obtain rfl : st = st' := Except.ok.inj (hst.symm.trans hst')
    exact ⟨fun hnot => absurd happlied hnot, fun _ => h⟩

/-- Reading rows does nothing to the caches. -/
theorem read_leaves {α : Type} {q : Query α} (hQ : State.IgnoresCounts Q) (hw : Q w)
    (h : ∀ st, q.statement s.prepare = .ok st →
      ∀ w₁, w.Moved (s.reply q.options st w.database).2 w₁ → Q w₁) : Q (q.run s unit w).2 :=
  (read_follows hQ hw h).kept

/-- Counting rows does nothing to the caches. -/
theorem count_leaves {c : RowCount} (hQ : State.IgnoresCounts Q) (hw : Q w)
    (h : ∀ st, c.statement s.prepare = .ok st →
      ∀ w₁, w.Moved (s.reply c.options st w.database).2 w₁ → Q w₁) : Q (c.run s unit w).2 :=
  (count_follows hQ hw h).kept

/-! ## Lookups in a unit -/

/-- What makes `Q` hold after a lookup in a unit: it holds if the caches are left alone, if the row
of the session cache goes into the unit, and if the row goes there that the database answers. -/
structure Query.Leaves {α : Type} (q : Query α) (s : Session σ) (Q : State σ → Prop) (i : Nat)
    (w : State σ) (st : Statement) : Prop where
  answered : ∀ w₁, w.Moved w.database w₁ → Q w₁
  asked : ∀ w₁, w.Moved (s.reply q.options st w.database).2 w₁ → Q w₁
  taken : (q.single.plan s.prepare).TakesFromSession i w → ∀ r keys,
    (q.single.plan s.prepare).fromSession? w.cache = .ok (some r) →
    (q.single.plan s.prepare).policy.keysOfRow r = .ok keys →
    ∀ w₁, w.Moved w.database w₁ → Q (w₁.modifyUnit i (·.put keys (.row r false)))
  kept : (q.single.plan s.prepare).KeepsAnswer i w → ∀ answer r,
    (s.reply q.options st w.database).1 = .ok answer → answer.first? = some r →
    ∀ w₁ units, w.Moved (s.reply q.options st w.database).2 w₁ →
      (q.single.plan s.prepare).populateUnit ((q.single.plan s.prepare).completed r) i w₁.units =
        .ok units → Q { w₁ with units }

/-- A lookup in a unit that asks the database puts the answer into the unit, or nothing. -/
theorem fetch_leaves {α : Type} {q : Query α} {i : Nat} {st : Statement}
    (h : q.Leaves s Q i w st) (hw' : w.Moved w.database w') {populate : Bool}
    (hpopulate : populate = true → (q.single.plan s.prepare).KeepsAnswer i w) :
    Q (q.single.fetch s (some i) (q.single.plan s.prepare) populate st w').2 := by
  obtain ⟨w₁, hmoved, hfetch | ⟨hwanted, answer, r, hreply, hfirst, hfetch⟩⟩ :=
    q.single.fetch_cases (s := s) (some i) (q.single.plan s.prepare) populate st hw'
  · rw [hfetch]
    exact h.asked w₁ hmoved
  · rw [hfetch, PointQuery.Plan.populate]
    cases hunits : (q.single.plan s.prepare).populateUnit ((q.single.plan s.prepare).completed r)
      i w₁.units with
    | error e => exact h.asked w₁ hmoved
    | ok units => exact h.kept (hpopulate hwanted) answer r hreply hfirst w₁ units hmoved hunits

/-- A lookup in a unit is answered by the caches or asks the database. -/
theorem lookup_leaves {α : Type} {q : Query α} {i : Nat} (hQ : State.IgnoresCounts Q)
    (hw : ∀ e, q.single.statement s.prepare = .error e → Q w)
    (h : ∀ st, q.single.statement s.prepare = .ok st → q.Leaves s Q i w st) :
    Q (q.single.run s (some i) w).2 := by
  refine counted_leaves hQ ?_
  cases hst : q.single.statement s.prepare with
  | error e =>
    rw [PointQuery.answer_of_error hst]
    exact hw e hst
  | ok st =>
    have hleaves := h st hst
    obtain ⟨r, w₁, htakes, hr, hmoved, hanswer⟩ |
      ⟨-, w₁, hmoved, ⟨-, hanswer⟩ | ⟨populate, hkeeps, hanswer⟩⟩ :=
        PointQuery.answer_in_unit hst i w
    · rw [hanswer]
      cases hkeys : (q.single.plan s.prepare).policy.keysOfRow r with
      | error e => exact hleaves.answered w₁ hmoved
      | ok keys => exact hleaves.taken htakes r keys hr hkeys w₁ hmoved
    · rw [hanswer]
      exact hleaves.answered w₁ hmoved
    · rw [hanswer]
      exact fetch_leaves hleaves hmoved hkeeps.1

/-! ## Lookups outside of units -/

/-- What makes `Q` hold after a lookup outside of units: it holds if the caches are left alone, and
if the session cache admits the row that the database answers. -/
structure Query.LeavesOutside {α : Type} (q : Query α) (s : Session σ) (Q : State σ → Prop)
    (w : State σ) (st : Statement) : Prop where
  answered : ∀ w₁, w.Moved w.database w₁ → Q w₁
  asked : ∀ w₁, w.Moved (s.reply q.options st w.database).2 w₁ → Q w₁
  kept : (q.single.plan s.prepare).policy.admits w.cache = true → ∀ answer r,
    (s.reply q.options st w.database).1 = .ok answer → answer.first? = some r →
    ∀ w₁ cache, w.Moved (s.reply q.options st w.database).2 w₁ →
      (q.single.plan s.prepare).populateSession ((q.single.plan s.prepare).completed r) w₁.cache =
        .ok cache → Q { w₁ with cache }

/-- Outside of units the answer goes to the session cache, or nowhere. -/
theorem fetch_leaves_outside {α : Type} {q : Query α} {st : Statement}
    (h : q.LeavesOutside s Q w st) (hw' : w.Moved w.database w') {populate : Bool}
    (hpopulate : populate = true → (q.single.plan s.prepare).policy.admits w.cache = true) :
    Q (q.single.fetch s none (q.single.plan s.prepare) populate st w').2 := by
  obtain ⟨w₁, hmoved, hfetch | ⟨hwanted, answer, r, hreply, hfirst, hfetch⟩⟩ :=
    q.single.fetch_cases (s := s) none (q.single.plan s.prepare) populate st hw'
  · rw [hfetch]
    exact h.asked w₁ hmoved
  · rw [hfetch, PointQuery.Plan.populate]
    cases hcache : (q.single.plan s.prepare).populateSession
      ((q.single.plan s.prepare).completed r) w₁.cache with
    | error e => exact h.asked w₁ hmoved
    | ok cache => exact h.kept (hpopulate hwanted) answer r hreply hfirst w₁ cache hmoved hcache

/-- A lookup outside of units touches the session cache only. -/
theorem lookup_leaves_outside {α : Type} {q : Query α} (hQ : State.IgnoresCounts Q)
    (hw : ∀ e, q.single.statement s.prepare = .error e → Q w)
    (h : ∀ st, q.single.statement s.prepare = .ok st → q.LeavesOutside s Q w st) :
    Q (q.single.run s none w).2 := by
  refine counted_leaves hQ ?_
  cases hst : q.single.statement s.prepare with
  | error e =>
    rw [PointQuery.answer_of_error hst]
    exact hw e hst
  | ok st =>
    have hleaves := h st hst
    obtain ⟨w₁, hmoved, hanswer | ⟨populate, hadmits, hanswer⟩⟩ := PointQuery.answer_outside hst w
    · rw [hanswer]
      exact hleaves.answered w₁ hmoved
    · rw [hanswer]
      exact fetch_leaves_outside hleaves hmoved hadmits

end

end WideRow
