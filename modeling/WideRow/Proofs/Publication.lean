import WideRow.Proofs.Retention

/-!
# What a commit publishes

Units of work that nest are changed and closed by calls (`UnitCall`). The calls so far, the latest
first, tell what a unit holds: what was last said of a key counts, whether in the unit itself or in
a nested one that was committed into it, and a nested unit says it when it is committed, with what
it held then. `UnitCall.history` and `UnitHistory.entryFor?` say so without looking at any unit.

> `commit_publishes_once`: the commit of a unit without a parent brings what its history says into
> the session cache, and a unit that was closed cannot be closed again.

Nothing is asked of the order in which the units are closed. A nested unit that is committed after
its parent was closed goes into a unit that nobody can commit any more.
-/

namespace WideRow

/-- What happened to a unit of work. -/
inductive UnitHistory where
  | begun
  | put (before : UnitHistory) (keys : List String) (entry : UnitEntry)
  | evicted (before : UnitHistory) (schema : String)
  /-- A nested unit was committed, after all that had happened to it. -/
  | absorbed (before nested : UnitHistory)

/-- What a unit holds under a key after what happened to it. -/
def UnitHistory.entryFor? (key : String) : UnitHistory → Option UnitEntry
  | begun => none
  | put before keys entry => if key ∈ keys then some entry else before.entryFor? key
  | evicted before schema =>
    if (Facet.schemaStart schema).isPrefixOf key = true then none else before.entryFor? key
  | absorbed before nested => (nested.entryFor? key).or (before.entryFor? key)

/-- A call on units of work. -/
inductive UnitCall where
  | begin (label : String) (parent : Option Nat)
  /-- Caches a row, or that there is none, under some keys. -/
  | put (i : Nat) (keys : List String) (entry : UnitEntry)
  | evictSchema (i : Nat) (schema : String)
  | commit (i : Nat)
  | abort (i : Nat)

namespace UnitCall

/-- The unit that a call is on. -/
def unit? : UnitCall → Option Nat
  | begin _ parent => parent
  | put i _ _ | evictSchema i _ | commit i | abort i => some i

/-- Whether a call closes a unit, if it is still open. -/
def closes (i : Nat) : UnitCall → Bool
  | commit j | abort j => j == i
  | _ => false

/-- How many units were begun. -/
def begun : List UnitCall → Nat
  | [] => 0
  | begin _ _ :: past => begun past + 1
  | _ :: past => begun past

/-- The parent that a unit was begun with. -/
def parentOf : List UnitCall → Nat → Option Nat
  | [], _ => none
  | begin _ parent :: past, i => if i = begun past then parent else parentOf past i
  | _ :: past, i => parentOf past i

/-- Whether a unit was closed. -/
def isClosed (past : List UnitCall) (i : Nat) : Bool := past.any (·.closes i)

/-- What happened to a unit. -/
def history : List UnitCall → Nat → UnitHistory
  | [], _ => .begun
  | put j keys entry :: past, i =>
    if j = i then .put (history past i) keys entry else history past i
  | evictSchema j schema :: past, i =>
    if j = i then .evicted (history past i) schema else history past i
  | commit j :: past, i =>
    if isClosed past j = false ∧ parentOf past j = some i then
      .absorbed (history past i) (history past j)
    else history past i
  | begin _ _ :: past, i | abort _ :: past, i => history past i

/-- Every call is on a unit that had been begun. -/
def Proper : List UnitCall → Prop
  | [] => True
  | c :: past => (∀ i, c.unit? = some i → i < begun past) ∧ Proper past

section

variable {σ : Type}

/-- Makes a call. -/
def run : UnitCall → State σ → Outcome σ Unit
  | begin label parent, w => (.ok (), (w.begin label parent).2)
  | put i keys entry, w => (.ok (), w.modifyUnit i (·.put keys entry))
  | evictSchema i schema, w => (.ok (), w.modifyUnit i (·.evictSchema schema))
  | commit i, w => w.commit i
  | abort i, w => w.abort i

/-- The state after calls. -/
def stateAfter (w : State σ) : List UnitCall → State σ
  | [] => w
  | c :: past => (c.run (stateAfter w past)).2

end

/-! ## Units that were not begun yet -/

/-- A unit that was not begun is not closed. -/
theorem isClosed_of_le {past : List UnitCall} (h : Proper past) {i : Nat} (hi : begun past ≤ i) :
    isClosed past i = false := by
  induction past with
  | nil => rfl
  | cons c past ih =>
    have hle : begun past ≤ i := by
      cases c <;> simp only [begun] at hi <;> omega
    have hc : c.closes i = false := by
      cases c with
      | commit j | abort j =>
        have hj : j < begun past := h.1 j rfl
        simp only [closes, beq_eq_false_iff_ne]
        omega
      | _ => rfl
    rw [isClosed, List.any_cons, hc, Bool.false_or]
    exact ih h.2 hle

/-- A parent was begun before its unit. -/
theorem lt_of_parentOf {past : List UnitCall} (h : Proper past) {i p : Nat}
    (hp : parentOf past i = some p) : p < i ∧ i < begun past := by
  induction past with
  | nil => exact absurd hp (by simp [parentOf])
  | cons c past ih =>
    cases c with
    | begin label parent =>
      rw [parentOf] at hp
      simp only [begun]
      split at hp
      next hi =>
        have hlt := h.1 p hp
        omega
      next =>
        have hlt := ih h.2 hp
        omega
    | _ => exact ih h.2 hp

/-- Nothing has happened to a unit that was not begun. -/
theorem history_of_le {past : List UnitCall} (h : Proper past) {i : Nat} (hi : begun past ≤ i) :
    history past i = .begun := by
  induction past with
  | nil => rfl
  | cons c past ih =>
    cases c with
    | begin label parent =>
      simp only [begun] at hi
      exact ih h.2 (by omega)
    | put j keys entry | evictSchema j schema =>
      have hj : j < begun past := h.1 j rfl
      rw [history, if_neg (by simp only [begun] at hi; omega)]
      exact ih h.2 hi
    | commit j =>
      rw [history, if_neg]
      · exact ih h.2 hi
      · rintro ⟨-, hparent⟩
        have hlt := lt_of_parentOf h.2 hparent
        simp only [begun] at hi
        omega
    | abort j => exact ih h.2 hi

/-! ## What the units hold -/

/-- The units are what the calls make of them. What a closed unit holds is of no concern. -/
structure Describes (past : List UnitCall) (us : Units) : Prop where
  length : us.list.length = begun past
  parent : ∀ i u, us.get? i = some u → u.parent = parentOf past i
  isOpen : ∀ i u, us.get? i = some u → (u.status = .opened ↔ isClosed past i = false)
  entries : ∀ i u, us.get? i = some u → u.status = .opened →
    ∀ key : String, u.entries[key]? = (history past i).entryFor? key

variable {past : List UnitCall} {us : Units}

/-- Every unit that was begun is there. -/
theorem Describes.exists_get? (h : Describes past us) {i : Nat} (hi : i < begun past) :
    ∃ u, us.get? i = some u := by
  rw [← h.length] at hi
  exact ⟨us.list[i], List.getElem?_eq_getElem hi⟩

/-- To begin a unit gives it the next number, and leaves all others. -/
theorem Describes.begin (h : Describes past us) (hproper : Proper past) (label : String)
    (parent : Option Nat) : Describes (.begin label parent :: past) (us.begin label parent) := by
  -- either a unit that was there before, or the new one
  have hcases : ∀ i u, (us.begin label parent).get? i = some u →
      (us.get? i = some u ∧ i ≠ begun past) ∨ (u = { label, parent } ∧ i = begun past) := by
    intro i u hu
    have hlist : (us.list ++ [({ label, parent } : UnitOfWork)])[i]? = some u := hu
    rw [List.getElem?_append] at hlist
    split at hlist
    next hi => exact .inl ⟨hlist, by rw [← h.length]; omega⟩
    next hi =>
      rw [List.getElem?_singleton] at hlist
      split at hlist
      next hzero => exact .inr ⟨(Option.some.inj hlist).symm, by rw [← h.length]; omega⟩
      next => exact absurd hlist (by simp)
  have hclosed : ∀ i, isClosed (.begin label parent :: past) i = isClosed past i := fun _ => rfl
  constructor
  · show (us.list ++ [({ label, parent } : UnitOfWork)]).length = begun past + 1
    rw [List.length_append, h.length, List.length_singleton]
  · intro i u hu
    rw [parentOf]
    obtain ⟨hu, hne⟩ | ⟨rfl, rfl⟩ := hcases i u hu
    · rw [if_neg hne, h.parent i u hu]
    · rw [if_pos rfl]
  · intro i u hu
    rw [hclosed]
    obtain ⟨hu, -⟩ | ⟨rfl, rfl⟩ := hcases i u hu
    · exact h.isOpen i u hu
    · simp [isClosed_of_le hproper (Nat.le_refl _)]
  · intro i u hu hopen key
    show _ = (history past i).entryFor? key
    obtain ⟨hu, -⟩ | ⟨rfl, rfl⟩ := hcases i u hu
    · exact h.entries i u hu hopen key
    · rw [history_of_le hproper (Nat.le_refl _)]
      exact Std.ExtTreeMap.getElem?_empty

/-- A unit is edited in its entries only. -/
theorem Describes.edit (h : Describes past us) {c : UnitCall} {j : Nat}
    {f : UnitOfWork → UnitOfWork} (hf : ∀ u, (f u).parent = u.parent ∧ (f u).status = u.status)
    (hbegun : begun (c :: past) = begun past) (hparent : parentOf (c :: past) = parentOf past)
    (hcloses : ∀ i, c.closes i = false)
    (hother : ∀ i, i ≠ j → history (c :: past) i = history past i)
    (hedit : ∀ u : UnitOfWork, (∀ key : String, u.entries[key]? = (history past j).entryFor? key) →
      ∀ key : String, (f u).entries[key]? = (history (c :: past) j).entryFor? key) :
    Describes (c :: past) (us.modify j f) := by
  -- an edit closes nothing
  have hclosed : ∀ i, isClosed (c :: past) i = isClosed past i := by
    intro i
    rw [isClosed, List.any_cons, hcloses, Bool.false_or]
    rfl
  constructor
  · rw [hbegun, ← h.length]
    exact List.length_modify ..
  · intro i u hu
    obtain ⟨u₀, hu₀, rfl⟩ := Units.exists_of_get?_modify hu
    rw [hparent, ← h.parent i u₀ hu₀]
    split
    next => exact (hf u₀).1
    next => rfl
  · intro i u hu
    obtain ⟨u₀, hu₀, rfl⟩ := Units.exists_of_get?_modify hu
    rw [hclosed, ← h.isOpen i u₀ hu₀]
    split
    next => rw [(hf u₀).2]
    next => rfl
  · intro i u hu hopen key
    obtain ⟨u₀, hu₀, rfl⟩ := Units.exists_of_get?_modify hu
    by_cases hj : j = i
    · subst hj
      rw [if_pos rfl] at hopen ⊢
      rw [(hf u₀).2] at hopen
      exact hedit u₀ (h.entries j u₀ hu₀ hopen) key
    · rw [if_neg hj] at hopen ⊢
      rw [hother i (Ne.symm hj)]
      exact h.entries i u₀ hu₀ hopen key

/-- Which units are closed after one more was. -/
theorem isClosed_cons {c : UnitCall} {i : Nat} (hc : c = .commit i ∨ c = .abort i)
    (past : List UnitCall) (j : Nat) :
    isClosed (c :: past) j = if i = j then true else isClosed past j := by
  rw [isClosed, List.any_cons]
  by_cases hj : i = j
  · subst hj
    obtain rfl | rfl := hc <;> simp [closes]
  · obtain rfl | rfl := hc <;> simp [closes, hj, isClosed]

/-- Closing a unit once more changes nothing that the calls tell. -/
theorem Describes.closed_again (h : Describes past us) {c : UnitCall} {i : Nat}
    (hc : c = .commit i ∨ c = .abort i) (hclosed : isClosed past i = true) :
    Describes (c :: past) us := by
  have hsame : ∀ j, isClosed (c :: past) j = isClosed past j := by
    intro j
    rw [isClosed_cons hc]
    split
    next hj => rw [← hj, hclosed]
    next => rfl
  have hhistory : ∀ j, history (c :: past) j = history past j := by
    intro j
    obtain rfl | rfl := hc
    · rw [history, if_neg (by simp [hclosed])]
    · rfl
  constructor
  · obtain rfl | rfl := hc <;> exact h.length
  · obtain rfl | rfl := hc <;> exact h.parent
  · intro j u hu
    rw [hsame]
    exact h.isOpen j u hu
  · intro j u hu hopen key
    rw [hhistory]
    exact h.entries j u hu hopen key

/-- A unit is closed, and what it held goes nowhere. -/
theorem Describes.close (h : Describes past us) {c : UnitCall} {i : Nat}
    (hc : c = .commit i ∨ c = .abort i) (hhistory : ∀ j, history (c :: past) j = history past j)
    {status : UnitStatus} (hstatus : status ≠ .opened) :
    Describes (c :: past) (us.modify i (·.closed status)) := by
  constructor
  · rw [← h.length.trans (show begun past = begun (c :: past) by obtain rfl | rfl := hc <;> rfl)]
    exact List.length_modify ..
  · intro j u hu
    obtain ⟨u₀, hu₀, rfl⟩ := Units.exists_of_get?_modify hu
    have hparent : parentOf (c :: past) j = parentOf past j := by obtain rfl | rfl := hc <;> rfl
    rw [hparent, ← h.parent j u₀ hu₀]
    split <;> rfl
  · intro j u hu
    obtain ⟨u₀, hu₀, rfl⟩ := Units.exists_of_get?_modify hu
    rw [isClosed_cons hc]
    split
    next => simp [UnitOfWork.closed, hstatus]
    next => exact h.isOpen j u₀ hu₀
  · intro j u hu hopen key
    obtain ⟨u₀, hu₀, rfl⟩ := Units.exists_of_get?_modify hu
    rw [hhistory]
    split at hopen
    next => exact absurd hopen hstatus
    next hj =>
      rw [if_neg hj]
      exact h.entries j u₀ hu₀ hopen key

/-- A nested unit is committed, and what it held goes over what its parent holds. -/
theorem Describes.commit (h : Describes past us) (hproper : Proper past) {i p : Nat}
    {u : UnitOfWork} (hu : us.get? i = some u) (hopen : u.status = .opened)
    (hparent : u.parent = some p) : Describes (.commit i :: past)
      ((us.modify i (·.closed .committed)).modify p (·.absorb u)) := by
  have hparentOf : parentOf past i = some p := by rw [← h.parent i u hu, hparent]
  have hne : p ≠ i := Nat.ne_of_lt (lt_of_parentOf hproper hparentOf).1
  have hstill : isClosed past i = false := (h.isOpen i u hu).1 hopen
  -- a unit is the one that is closed, the one that takes what it held, or as it was
  have hcases : ∀ j v, ((us.modify i (·.closed .committed)).modify p (·.absorb u)).get? j = some v →
      ∃ v₀, us.get? j = some v₀ ∧ v = if p = j then v₀.absorb u
        else if i = j then v₀.closed .committed else v₀ := by
    intro j v hv
    obtain ⟨v₁, hv₁, rfl⟩ := Units.exists_of_get?_modify hv
    obtain ⟨v₀, hv₀, rfl⟩ := Units.exists_of_get?_modify hv₁
    refine ⟨v₀, hv₀, ?_⟩
    by_cases hp : p = j
    · rw [if_pos hp, if_pos hp, if_neg fun hi => hne (hp.trans hi.symm)]
    · rw [if_neg hp, if_neg hp]
  constructor
  · show ((us.list.modify i _).modify p _).length = begun past
    rw [List.length_modify, List.length_modify, h.length]
  · intro j v hv
    obtain ⟨v₀, hv₀, rfl⟩ := hcases j v hv
    show _ = parentOf past j
    rw [← h.parent j v₀ hv₀]
    split
    next => rfl
    next => split <;> rfl
  · intro j v hv
    obtain ⟨v₀, hv₀, rfl⟩ := hcases j v hv
    rw [isClosed_cons (.inl rfl)]
    by_cases hp : p = j
    · rw [if_pos hp, if_neg fun hi => hne (hp.trans hi.symm)]
      exact h.isOpen j v₀ hv₀
    · rw [if_neg hp]
      split
      next => simp [UnitOfWork.closed]
      next => exact h.isOpen j v₀ hv₀
  · intro j v hv hopened key
    obtain ⟨v₀, hv₀, rfl⟩ := hcases j v hv
    by_cases hp : p = j
    · subst hp
      rw [if_pos rfl] at hopened ⊢
      rw [history, if_pos ⟨hstill, hparentOf⟩, UnitOfWork.entries_absorb,
        h.entries i u hu hopen key, h.entries p v₀ hv₀ hopened key]
      rfl
    · have hsame : history (.commit i :: past) j = history past j := by
        rw [history, if_neg]
        rintro ⟨-, hj⟩
        exact hp (Option.some.inj (hparentOf.symm.trans hj))
      rw [if_neg hp] at hopened ⊢
      rw [hsame]
      split at hopened
      next => exact absurd hopened (by simp [UnitOfWork.closed])
      next hi =>
        rw [if_neg hi]
        exact h.entries j v₀ hv₀ hopened key

end UnitCall

/-! ## Closing -/

namespace Units

variable {us : Units} {i : Nat} {u : UnitOfWork}

theorem opened_eq_ok (h : us.get? i = some u) (hopen : u.status = .opened) :
    us.opened i = .ok u := by
  rw [opened, h]
  simp only [hopen]

/-- A closed unit says how it was closed. -/
theorem opened_eq_error (h : us.get? i = some u) (hclosed : u.status ≠ .opened) : us.opened i =
    .error (.mapping (.closedUnit u.label (u.status == .committed))) := by
  rw [opened, h]
  cases hstatus : u.status with
  | opened => exact absurd hstatus hclosed
  | committed | aborted =>
    simp only [hstatus]
    rfl

end Units

section

variable {σ : Type} {w : State σ} {i : Nat} {u : UnitOfWork}

/-- A nested unit is folded into its parent. -/
theorem State.commit_of_parent {p : Nat} (h : w.units.get? i = some u)
    (hopen : u.status = .opened) (hparent : u.parent = some p) :
    w.commit i = (.ok (), { w with
      units := (w.units.modify i (·.closed .committed)).modify p (·.absorb u) }) := by
  unfold State.commit Units.commit
  rw [Units.opened_eq_ok h hopen]
  simp [hparent, bind, Except.bind, pure, Except.pure, State.close]

/-- A unit without a parent is published. -/
theorem State.commit_of_root (h : w.units.get? i = some u) (hopen : u.status = .opened)
    (hparent : u.parent = none) :
    w.commit i = (.ok (), { w with
      units := w.units.modify i (·.closed .committed)
      cache := u.publish w.cache
      hooks := w.hooks ++ u.commitHooks }) := by
  unfold State.commit Units.commit
  rw [Units.opened_eq_ok h hopen]
  simp [hparent, bind, Except.bind, pure, Except.pure, State.close]

/-- An aborted unit is closed and nothing else. -/
theorem State.abort_of_open (h : w.units.get? i = some u) (hopen : u.status = .opened) :
    w.abort i = (.ok (), { w with
      units := w.units.modify i (·.closed .aborted)
      hooks := w.hooks ++ u.abortHooks }) := by
  unfold State.abort Units.abort
  rw [Units.opened_eq_ok h hopen]
  rfl

/-- A closed unit stays as it is, and so does everything else. -/
theorem State.close_of_closed (h : w.units.get? i = some u) (hclosed : u.status ≠ .opened) :
    let e := Error.mapping (.closedUnit u.label (u.status == .committed))
    w.commit i = (.error e, w) ∧ w.abort i = (.error e, w) := by
  unfold State.commit Units.commit State.abort Units.abort
  rw [Units.opened_eq_error h hclosed]
  exact ⟨rfl, rfl⟩

/-- A commit changes nothing, or it closes an open unit: what the unit holds is published, or goes
to the parent. -/
theorem State.commit_cases (w : State σ) (i : Nat) :
    ((∀ u, w.units.get? i = some u → u.status ≠ .opened) ∧ (w.commit i).2 = w) ∨
    ∃ u, w.units.get? i = some u ∧ u.status = .opened ∧
      (u.parent = none ∧ (w.commit i).2 = { w with
          units := w.units.modify i (·.closed .committed)
          cache := u.publish w.cache
          hooks := w.hooks ++ u.commitHooks } ∨
        ∃ p, u.parent = some p ∧ (w.commit i).2 = { w with
          units := (w.units.modify i (·.closed .committed)).modify p (·.absorb u) }) := by
  cases hu : w.units.get? i with
  | none =>
    have hopened : w.units.opened i = .error .brokenOff := by rw [Units.opened, hu]
    unfold State.commit Units.commit
    rw [hopened]
    exact .inl ⟨nofun, rfl⟩
  | some u =>
    by_cases hopen : u.status = .opened
    · refine .inr ⟨u, rfl, hopen, ?_⟩
      cases hparent : u.parent with
      | none => exact .inl ⟨rfl, by rw [commit_of_root hu hopen hparent]⟩
      | some p => exact .inr ⟨p, rfl, by rw [commit_of_parent hu hopen hparent]⟩
    · refine .inl ⟨?_, by rw [(close_of_closed hu hopen).1]⟩
      rintro _ ⟨⟩
      exact hopen

/-- An abort changes nothing, or it closes an open unit. -/
theorem State.abort_cases (w : State σ) (i : Nat) :
    ((∀ u, w.units.get? i = some u → u.status ≠ .opened) ∧ (w.abort i).2 = w) ∨
    ∃ u, w.units.get? i = some u ∧ u.status = .opened ∧
      (w.abort i).2 = { w with
        units := w.units.modify i (·.closed .aborted)
        hooks := w.hooks ++ u.abortHooks } := by
  cases hu : w.units.get? i with
  | none =>
    have hopened : w.units.opened i = .error .brokenOff := by rw [Units.opened, hu]
    unfold State.abort Units.abort
    rw [hopened]
    exact .inl ⟨nofun, rfl⟩
  | some u =>
    by_cases hopen : u.status = .opened
    · exact .inr ⟨u, rfl, hopen, by rw [abort_of_open hu hopen]⟩
    · refine .inl ⟨?_, by rw [(close_of_closed hu hopen).2]⟩
      rintro _ ⟨⟩
      exact hopen

theorem State.cache_abort (w : State σ) (i : Nat) : (w.abort i).2.cache = w.cache := by
  obtain ⟨-, hsame⟩ | ⟨u, -, -, hclosed⟩ := w.abort_cases i
  · rw [hsame]
  · rw [hclosed]

/-- A commit that succeeds of a unit without a parent publishes what the unit holds. -/
theorem State.of_commit (h : w.units.get? i = some u) (hparent : u.parent = none)
    {w' : State σ} (hcommit : w.commit i = (.ok (), w')) :
    w'.cache = u.publish w.cache ∧ w'.database = w.database := by
  by_cases hopen : u.status = .opened
  · rw [State.commit_of_root h hopen hparent, Prod.mk.injEq] at hcommit
    rw [← hcommit.2]
    exact ⟨rfl, rfl⟩
  · rw [(State.close_of_closed h hopen).1, Prod.mk.injEq] at hcommit
    exact absurd hcommit.1 (by simp)

end

/-! ## Publishing -/

/-- What the session cache has under a key after a unit was published that held this entry. -/
def UnitEntry.published (cached : Option Row) : Option UnitEntry → Option Row
  | some (.row r true) => some r
  | some .deleted => none
  | some (.row _ false) | none => cached

/-- Publishes one entry. -/
def SessionCache.follow (c : SessionCache) (p : String × UnitEntry) : SessionCache :=
  match p.2 with
  | .row r true => c.put [p.1] r
  | .row _ false => c
  | .deleted => c.invalidate [p.1]

/-- After publishing, a key has what the entry of the unit says, or what it had. -/
theorem UnitOfWork.rows_publish {c : SessionCache} (hc : c.isEnabled = true) (u : UnitOfWork)
    (key : String) : (u.publish c).rows[key]? =
      UnitEntry.published (c.rows[key]?) (u.entries[key]?) := by
  rw [publish, if_pos hc]
  simp only [Std.ExtTreeMap.getElem?_union, Std.ExtTreeMap.getElem?_filterMap',
    Std.ExtTreeMap.getElem?_filter']
  cases hentry : u.entries[key]? with
  | none => cases c.rows[key]? <;> simp [UnitEntry.published]
  | some entry =>
    cases entry with
    | deleted => cases c.rows[key]? <;> simp [UnitEntry.published]
    | row r promote =>
      cases promote <;> cases c.rows[key]? <;> simp [UnitEntry.published]

/-- Publishing leaves the settings of the cache. -/
theorem UnitOfWork.sameSettings_publish (u : UnitOfWork) (c : SessionCache) :
    c.SameSettings (u.publish c) := by
  unfold publish
  split <;> exact ⟨rfl, rfl, rfl⟩

theorem SessionCache.sameSettings_follow (c : SessionCache) (p : String × UnitEntry) :
    c.SameSettings (c.follow p) := by
  unfold follow
  split <;> exact ⟨rfl, rfl, rfl⟩

theorem SessionCache.sameSettings_foldl_follow :
    ∀ (order : List (String × UnitEntry)) (c : SessionCache),
      c.SameSettings (order.foldl follow c)
  | [], c => .refl c
  | q :: order, c => (c.sameSettings_follow q).trans (sameSettings_foldl_follow order _)

/-- Each entry decides its own key. -/
theorem SessionCache.rows_follow (c : SessionCache) (p : String × UnitEntry) (key : String) :
    (c.follow p).rows[key]? =
      if p.1 = key then UnitEntry.published (c.rows[key]?) (some p.2) else c.rows[key]? := by
  obtain ⟨k, entry⟩ := p
  cases entry with
  | deleted => simp [follow, rows_invalidate, UnitEntry.published, eq_comm]
  | row r promote =>
    cases promote with
    | true => simp [follow, rows_put, UnitEntry.published, eq_comm]
    | false => simp [follow, UnitEntry.published]

/-- Publishing entries of different keys one after the other. -/
theorem SessionCache.rows_foldl_follow (key : String) :
    ∀ (order : List (String × UnitEntry)) (c : SessionCache),
      order.Pairwise (fun p q => p.1 ≠ q.1) → (order.foldl follow c).rows[key]? =
        UnitEntry.published (c.rows[key]?) (order.lookup key)
  | [], _, _ => rfl
  | (k, entry) :: order, c, h => by
    rw [List.pairwise_cons] at h
    obtain ⟨hfirst, hrest⟩ := h
    rw [List.foldl_cons, rows_foldl_follow key order _ hrest, rows_follow, List.lookup_cons]
    by_cases hk : k = key
    · subst hk
      -- the key does not come again
      have hnone : order.lookup k = none := by
        rw [List.lookup_eq_none_iff]
        intro q hq
        simpa using hfirst q hq
      simp [hnone, UnitEntry.published]
    · have hne : (key == k) = false := by simpa using Ne.symm hk
      simp [hk, hne]

/-- Entries have one key each, so that their order does not matter for what a key has. -/
theorem UnitOfWork.lookup_eq (u : UnitOfWork) {order : List (String × UnitEntry)}
    (horder : order.Perm u.entries.toList) {key : String} :
    u.entries[key]? = order.lookup key := by
  have hmem : ∀ entry, (key, entry) ∈ order ↔ u.entries[key]? = some entry := fun entry => by
    rw [horder.mem_iff, Std.ExtTreeMap.mem_toList_iff_getElem?_eq_some]
  cases hlook : order.lookup key with
  | some entry =>
    obtain ⟨before, rest, heq, -⟩ := List.lookup_eq_some_iff.1 hlook
    exact (hmem entry).1 (by rw [heq]; simp)
  | none =>
    cases hentry : u.entries[key]? with
    | none => rfl
    | some entry =>
      have hne := List.lookup_eq_none_iff.1 hlook _ ((hmem entry).2 hentry)
      exact absurd hne (by simp)

/-- Whatever the order in which the entries of a unit are visited, they are published alike. -/
theorem UnitOfWork.publish_eq_foldl (u : UnitOfWork) {c : SessionCache} (hc : c.isEnabled = true)
    {order : List (String × UnitEntry)} (horder : order.Perm u.entries.toList) :
    u.publish c = order.foldl SessionCache.follow c := by
  have hdistinct : order.Pairwise fun p q => p.1 ≠ q.1 := by
    refine (horder.pairwise_iff fun hne => Ne.symm hne).2 ?_
    refine u.entries.distinct_keys_toList.imp fun {p q} hne he => hne ?_
    rw [he]
    exact Std.ReflCmp.compare_self
  refine SessionCache.ext ?_ fun key => ?_
  · exact (u.sameSettings_publish c).symm.trans (SessionCache.sameSettings_foldl_follow order c)
  · rw [rows_publish hc, SessionCache.rows_foldl_follow key order c hdistinct, u.lookup_eq horder]

/-! ## Publishing while entries go -/

/-- Whether a commit keeps the entry in the session cache. -/
def UnitEntry.isPromoted : UnitEntry → Bool
  | row _ promote => promote
  | deleted => false

/-- The session cache after entries were published one after the other, where the library may drop
entries before each of them and after the last. -/
def Evictor.publish (p : Evictor) : Nat → List (String × UnitEntry) → SessionCache → SessionCache
  | moment, [], c => p.settle moment c
  | moment, q :: order, c => p.publish (moment + 1) order ((p.settle moment c).follow q)

namespace SessionCache

/-- An entry that comes takes one place at most. -/
theorem size_follow_le (c : SessionCache) (q : String × UnitEntry) :
    (c.follow q).size ≤ c.size + if q.2.isPromoted then 1 else 0 := by
  obtain ⟨key, entry⟩ := q
  cases entry with
  | deleted =>
    have herased : (c.follow (key, .deleted)).size ≤ c.size := Std.ExtTreeMap.size_erase_le
    exact Nat.le_trans herased (Nat.le_add_right ..)
  | row r promote =>
    cases promote with
    | true => exact c.size_put_le [key] r
    | false => exact Nat.le_add_right ..

/-- Entries that went before another one came might as well go after it, except for the one under
its key. -/
theorem follow_evict (c : SessionCache) (lost : String → Bool) (q : String × UnitEntry) :
    ∃ lost', (c.evict lost).follow q = (c.follow q).evict lost' ∧
      ∀ key, lost' key = true → lost key = true := by
  obtain ⟨k, entry⟩ := q
  refine ⟨fun key => lost key && !(entry.isPromoted && k == key), ?_, fun key hkey => ?_⟩
  · have hbefore := (c.sameSettings_evict lost).trans (sameSettings_follow _ (k, entry))
    have hafter := c.sameSettings_follow (k, entry)
    refine ext (hbefore.symm.trans (hafter.trans (sameSettings_evict ..))) fun key => ?_
    rw [rows_follow, rows_evict, rows_evict, rows_follow]
    by_cases hk : k = key
    · subst hk
      cases entry with
      | deleted => simp [UnitEntry.published]
      | row r promote => cases promote <;> simp [UnitEntry.published, UnitEntry.isPromoted]
    · have hne : (k == key) = false := by simpa using hk
      simp [hk, hne]
  · exact (Bool.and_eq_true_iff.1 hkey).1

/-- Entries that went before the publishing are missing after it, unless the unit has put them
again. -/
theorem foldl_follow_evict : ∀ (order : List (String × UnitEntry)) (c : SessionCache)
    (lost : String → Bool), ∃ lost', order.foldl follow (c.evict lost) =
      (order.foldl follow c).evict lost' ∧ ∀ key, lost' key = true → lost key = true
  | [], c, lost => ⟨lost, rfl, fun _ => id⟩
  | q :: order, c, lost => by
    obtain ⟨lost₁, hfirst, hsub₁⟩ := c.follow_evict lost q
    obtain ⟨lost₂, hrest, hsub₂⟩ := foldl_follow_evict order (c.follow q) lost₁
    refine ⟨lost₂, ?_, fun key hkey => hsub₁ key (hsub₂ key hkey)⟩
    rw [List.foldl_cons, hfirst, hrest]
    rfl

/-- A cache that has room for a row and for others has room for the others afterwards. -/
theorem hasRoom_follow {c : SessionCache} {q : String × UnitEntry}
    {order : List (String × UnitEntry)}
    (h : c.HasRoom ((q :: order).countP (·.2.isPromoted))) :
    (c.follow q).HasRoom (order.countP (·.2.isPromoted)) := by
  refine h.of_size_le (c.sameSettings_follow q) ?_
  have hsize := c.size_follow_le q
  rw [List.countP_cons]
  omega

/-- A cache that has room for all rows that come has room afterwards. -/
theorem hasRoom_foldl_follow : ∀ (order : List (String × UnitEntry)) (c : SessionCache),
    c.HasRoom (order.countP (·.2.isPromoted)) → (order.foldl follow c).HasRoom
  | [], _, h => h
  | q :: order, c, h => hasRoom_foldl_follow order (c.follow q) (hasRoom_follow h)

end SessionCache

namespace Evictor

/-- Entries that go while others are published might as well go afterwards. -/
theorem publish_eq_evict (p : Evictor) : ∀ (order : List (String × UnitEntry)) (moment : Nat)
    (c : SessionCache), ∃ lost, p.publish moment order c =
      (order.foldl SessionCache.follow c).evict lost ∧
        ∀ key, lost key = true → ∃ m c', moment ≤ m ∧ p.drops m c' key = true
  | [], moment, c => ⟨p.drops moment c, rfl, fun _ hkey => ⟨moment, c, Nat.le_refl _, hkey⟩⟩
  | q :: order, moment, c => by
    obtain ⟨lost₁, hrest, hdrops₁⟩ :=
      p.publish_eq_evict order (moment + 1) ((p.settle moment c).follow q)
    obtain ⟨lost₂, hfirst, hdrops₂⟩ :=
      SessionCache.foldl_follow_evict (q :: order) c (p.drops moment c)
    refine ⟨fun key => lost₂ key || lost₁ key, ?_, fun key hkey => ?_⟩
    · have hsettled : order.foldl SessionCache.follow ((p.settle moment c).follow q) =
          ((q :: order).foldl SessionCache.follow c).evict lost₂ := hfirst
      rw [publish, hrest, hsettled, SessionCache.evict_evict]
    · rcases Bool.or_eq_true_iff.1 hkey with hkey | hkey
      · exact ⟨moment, c, Nat.le_refl _, hdrops₂ key hkey⟩
      · obtain ⟨m, c', hm, hdrops⟩ := hdrops₁ key hkey
        exact ⟨m, c', Nat.le_of_succ_le hm, hdrops⟩

/-- Nothing goes from a cache that has room for all rows that come. -/
theorem publish_of_room {p : Evictor} (hp : p.IsDocumented) :
    ∀ (order : List (String × UnitEntry)) (moment : Nat) (c : SessionCache),
      c.HasRoom (order.countP (·.2.isPromoted)) →
        p.publish moment order c = order.foldl SessionCache.follow c
  | [], moment, c, h => settle_of_room hp h moment
  | q :: order, moment, c, h => by
    have hroom : c.HasRoom :=
      h.of_size_le (.refl c) (Nat.add_le_add_left (Nat.zero_le _) _)
    rw [publish, settle_of_room hp hroom,
      publish_of_room hp order (moment + 1) _ (SessionCache.hasRoom_follow h)]
    rfl

end Evictor

/-! ## What a commit publishes -/

namespace UnitCall

section

variable {σ : Type} {past : List UnitCall} {w : State σ}

/-- What the history of the calls says of the units is kept by every call. -/
theorem Describes.run (h : Describes past w.units) {c : UnitCall}
    (hproper : Proper (c :: past)) : Describes (c :: past) (c.run w).2.units := by
  cases c with
  | begin label parent => exact h.begin hproper.2 label parent
  | put i keys entry =>
    refine h.edit (fun _ => ⟨rfl, rfl⟩) rfl rfl (fun _ => rfl)
      (fun j hj => if_neg (Ne.symm hj)) fun u hu key => ?_
    rw [UnitOfWork.entries_put, hu, history, if_pos rfl]
    rfl
  | evictSchema i schema =>
    refine h.edit (fun _ => ⟨rfl, rfl⟩) rfl rfl (fun _ => rfl)
      (fun j hj => if_neg (Ne.symm hj)) fun u hu key => ?_
    rw [UnitOfWork.entries_evictSchema, hu, history, if_pos rfl]
    rfl
  | commit i =>
    obtain ⟨u, hu⟩ := h.exists_get? (hproper.1 i rfl)
    show Describes _ (w.commit i).2.units
    by_cases hopen : u.status = .opened
    · cases hparent : u.parent with
      | some p =>
        rw [State.commit_of_parent hu hopen hparent]
        exact h.commit hproper.2 hu hopen hparent
      | none =>
        rw [State.commit_of_root hu hopen hparent]
        refine h.close (.inl rfl) (fun j => ?_) (by simp)
        rw [history, if_neg]
        rintro ⟨-, hj⟩
        rw [← h.parent i u hu, hparent] at hj
        exact absurd hj (by simp)
    · rw [(State.close_of_closed hu hopen).1]
      refine h.closed_again (.inl rfl) ?_
      simpa [hopen] using h.isOpen i u hu
  | abort i =>
    obtain ⟨u, hu⟩ := h.exists_get? (hproper.1 i rfl)
    show Describes _ (w.abort i).2.units
    by_cases hopen : u.status = .opened
    · rw [State.abort_of_open hu hopen]
      exact h.close (.inr rfl) (fun _ => rfl) (by simp)
    · rw [(State.close_of_closed hu hopen).2]
      refine h.closed_again (.inr rfl) ?_
      simpa [hopen] using h.isOpen i u hu

/-- So it holds after every sequence of calls that each name a unit begun before. -/
theorem describes_stateAfter {w₀ : State σ} (hnew : w₀.units = {}) :
    ∀ {past : List UnitCall}, Proper past → Describes past (stateAfter w₀ past).units
  | [], _ => by
    rw [stateAfter, hnew]
    exact ⟨rfl, fun i u hu => absurd hu (by simp [Units.get?]),
      fun i u hu => absurd hu (by simp [Units.get?]),
      fun i u hu => absurd hu (by simp [Units.get?])⟩
  | _ :: _, hproper => (describes_stateAfter hnew hproper.2).run hproper

/-- Only the commit of a unit without a parent changes the session cache. -/
theorem Describes.cache_run (h : Describes past w.units) {c : UnitCall}
    (hc : ∀ i, c = .commit i → parentOf past i ≠ none) :
    (c.run w).2.cache = w.cache := by
  cases c with
  | commit i =>
    show (w.commit i).2.cache = w.cache
    obtain ⟨-, hsame⟩ | ⟨u, hu, -, ⟨hroot, -⟩ | ⟨p, -, hclosed⟩⟩ := w.commit_cases i
    · rw [hsame]
    · exact absurd ((h.parent i u hu).symm.trans hroot) (hc i rfl)
    · rw [hclosed]
  | abort i => exact w.cache_abort i
  | _ => rfl

/-- The commit of an open unit without a parent brings into the session cache, if that is on, what
happened to the unit, in whatever order the unit's entries are visited; no other call changes the
session cache. Entries that the library drops while the others come are missing afterwards, and all
else is as it would be; where there is room for the rows that come, it drops none. A unit that was
closed can be neither committed nor aborted, and the attempt changes nothing at all. -/
theorem commit_publishes_once {w₀ : State σ} (hnew : w₀.units = {}) (hproper : Proper past)
    {i : Nat} (hi : i < begun past) :
    let w := stateAfter w₀ past
    (isClosed past i = false → parentOf past i = none →
      ∃ u w', w.units.get? i = some u ∧ w.commit i = (.ok (), w') ∧
        (w.cache.isEnabled = true →
          (∀ key : String, w'.cache.rows[key]? =
            UnitEntry.published (w.cache.rows[key]?) ((history past i).entryFor? key)) ∧
          ∀ order : List (String × UnitEntry), order.Perm u.entries.toList →
            w'.cache = order.foldl SessionCache.follow w.cache ∧
            ∀ (p : Evictor) (moment : Nat),
              (∃ lost, p.publish moment order w.cache = w'.cache.evict lost ∧
                ∀ key, lost key = true → ∃ m c, moment ≤ m ∧ p.drops m c key = true) ∧
              (p.IsDocumented → w.cache.HasRoom (order.countP (·.2.isPromoted)) →
                p.publish moment order w.cache = w'.cache)) ∧
        (w.cache.isEnabled = false → w'.cache = w.cache)) ∧
    (∀ c : UnitCall, Proper (c :: past) → (∀ j, c = .commit j → parentOf past j ≠ none) →
      (c.run w).2.cache = w.cache) ∧
    (isClosed past i = true →
      ∃ e, w.commit i = (.error e, w) ∧ w.abort i = (.error e, w)) := by
  intro w
  have hdescribes : Describes past w.units := describes_stateAfter hnew hproper
  obtain ⟨u, hu⟩ := hdescribes.exists_get? hi
  have hopen := hdescribes.isOpen i u hu
  refine ⟨fun hstill hroot => ?_, fun c _ hc => hdescribes.cache_run hc, fun hclosed => ?_⟩
  · have hparent : u.parent = none := (hdescribes.parent i u hu).trans hroot
    refine ⟨u, _, hu, State.commit_of_root hu (hopen.2 hstill) hparent, fun hon => ⟨?_, ?_⟩, ?_⟩
    · intro key
      rw [← hdescribes.entries i u hu (hopen.2 hstill) key]
      exact u.rows_publish hon key
    · intro order horder
      have hpublished := u.publish_eq_foldl hon horder
      refine ⟨hpublished, fun p moment => ⟨?_, fun hp hroom => ?_⟩⟩
      · obtain ⟨lost, hlost, hdrops⟩ := p.publish_eq_evict order moment w.cache
        exact ⟨lost, by rw [hlost, hpublished], hdrops⟩
      · rw [hpublished]
        exact Evictor.publish_of_room hp order moment w.cache hroom
    · intro hoff
      show u.publish w.cache = w.cache
      rw [UnitOfWork.publish, if_neg (by simp [hoff])]
  · exact ⟨_, State.close_of_closed hu fun hstatus => by simp [hopen.1 hstatus] at hclosed⟩

end

/-! ## A user who is renamed -/

/-- The cells of a user who is cached. -/
def named (name : String) : Row := ⟨["override_name"], [some (.text name)]⟩

/-- Two users are cached in the session. -/
def stocked : State Unit where
  database := ()
  cache.rows := ((∅ : Std.ExtTreeMap String Row compare).insert "users.id==1" (named "Ann")).insert
    "users.id==2" (named "Cid")

/-- One user is renamed and the other one deleted in a nested unit that is committed, and a third
name is given in one that is aborted. The latest call stands first. -/
def renamed : List UnitCall :=
  [.commit 1, .abort 2, .put 2 ["users.id==1"] (.row (named "Dan") true),
    .begin "discarded" (some 1), .put 1 ["users.id==2"] .deleted,
    .put 1 ["users.id==1"] (.row (named "Bea") true), .begin "nested" (some 0),
    .put 0 ["users.id==1"] (.row (named "Ann") true), .begin "root" none]

/-- The commit of the root publishes the new name and the deletion, also by way of a library that
drops what does not fit; the nested unit can be closed no more. -/
theorem renamed_published : (∃ w' order, (stateAfter stocked renamed).commit 0 = (.ok (), w') ∧
      w'.cache.rows["users.id==1"]? = some (named "Bea") ∧
      w'.cache.rows["users.id==2"]? = none ∧
      Evictor.ofCapacity.publish 0 order (stateAfter stocked renamed).cache = w'.cache) ∧
    ∃ e, (stateAfter stocked renamed).abort 1 = (.error e, stateAfter stocked renamed) := by
  have hproper : Proper renamed := by simp [renamed, Proper, unit?, begun]
  have hnew : stocked.units = {} := rfl
  obtain ⟨hcommit, -⟩ := commit_publishes_once hnew hproper (i := 0) (by decide)
  obtain ⟨-, -, hagain⟩ := commit_publishes_once hnew hproper (i := 1) (by decide)
  obtain ⟨u, w', hu, hw', hon, -⟩ := hcommit rfl rfl
  obtain ⟨e, -, habort⟩ := hagain rfl
  have henabled : (stateAfter stocked renamed).cache.isEnabled = true := rfl
  obtain ⟨hrows, hpublished⟩ := hon henabled
  have hroom : ((stateAfter stocked renamed).units.get? 0).all fun u =>
      (stateAfter stocked renamed).cache.HasRoom
        (u.entries.toList.countP (·.2.isPromoted)) := by
    decide +kernel
  rw [hu, Option.all_some, decide_eq_true_eq] at hroom
  obtain ⟨-, hretained⟩ := hpublished u.entries.toList (.refl _)
  exact ⟨⟨w', u.entries.toList, hw', (hrows _).trans rfl, (hrows _).trans rfl,
    (hretained Evictor.ofCapacity 0).2 Evictor.isDocumented_ofCapacity hroom⟩, e, habort⟩

end UnitCall

end WideRow
