import WideRow.Proofs.Publication

/-!
# When hooks run

A unit of work can be given hooks for its commit and hooks for its abort. The hooks of a nested unit
wait, once it is committed, for the commit of its parent, and so on to the unit without a parent,
whose commit runs them all. So a hook goes up the tree one commit at a time, and whether it gets to
the top depends on the order in which the units are closed: a parent that was closed before hands
nothing on.

> `hooks_run_once`: a hook for a commit has run, once, as soon as its unit and all ancestors were
> committed, each before its own parent was closed (`UnitCall.isInTime`), and never runs otherwise;
> a hook for an abort has run, once, as soon as its unit was aborted, and never runs otherwise.

How often a hook stands with a unit, and how often it has run, is a matter of the calls alone
(`HookCall.tally`). That the units do as it says is one induction over the calls; all else is about
calls and looks at no unit.
-/

namespace WideRow

/-- A call on units of work that may also be the gift of a hook. -/
inductive HookCall where
  | call (c : UnitCall)
  /-- Gives a unit a hook for its commit. -/
  | onCommit (i : Nat) (hook : String)
  /-- Gives a unit a hook for its abort. -/
  | onAbort (i : Nat) (hook : String)

namespace UnitCall

/-- A unit and its ancestors, the innermost first. -/
def lineage : List UnitCall → Nat → List Nat
  | [], i => [i]
  | begin _ parent :: past, i =>
    if i = begun past then i :: parent.elim [] (lineage past) else lineage past i
  | _ :: past, i => lineage past i

/-- Whether a unit was committed before its parent, if it has one, was closed. -/
def isInTime : List UnitCall → Nat → Bool
  | [], _ => false
  | commit j :: past, i =>
    if j = i ∧ isClosed past i = false then (parentOf past i).all fun p => !isClosed past p
    else isInTime past i
  | _ :: past, i => isInTime past i

/-- Whether a unit was aborted. -/
def isAborted : List UnitCall → Nat → Bool
  | [], _ => false
  | abort j :: past, i => (j == i && !isClosed past i) || isAborted past i
  | _ :: past, i => isAborted past i

/-- The first of a unit and its ancestors that was not committed in time. What goes up from the unit
gets no further. -/
def waitsFor? (past : List UnitCall) (i : Nat) : Option Nat :=
  (lineage past i).find? fun j => !isInTime past j

/-! ## Ancestors -/

section

variable {past : List UnitCall} {i j : Nat}

/-- The ancestors of a unit are its parent and the ancestors of that one. -/
theorem lineage_eq (h : Proper past) (i : Nat) :
    lineage past i = i :: (parentOf past i).elim [] (lineage past) := by
  induction past with
  | nil => rfl
  | cons c past ih =>
    have hsame : ∀ p, p < begun past → lineage (c :: past) p = lineage past p := by
      intro p hp
      cases c with
      | begin label parent => rw [lineage, if_neg (Nat.ne_of_lt hp)]
      | _ => rfl
    cases c with
    | begin label parent =>
      rw [lineage, parentOf]
      split
      next hi =>
        cases parent with
        | none => rfl
        | some p => rw [Option.elim_some, Option.elim_some, hsame p (h.1 p rfl)]
      next =>
        rw [ih h.2]
        cases hp : parentOf past i with
        | none => rfl
        | some p =>
          have hlt := lt_of_parentOf h.2 hp
          rw [Option.elim_some, Option.elim_some, hsame p (by omega)]
    | _ => exact ih h.2

/-- Above a unit of a lineage stands its parent. -/
theorem rest_of_lineage (h : Proper past) : ∀ {before rest : List Nat} {i : Nat},
    lineage past i = before ++ j :: rest → rest = (parentOf past j).elim [] (lineage past)
  | [], rest, i, hlineage => by
    rw [lineage_eq h, List.nil_append, List.cons.injEq] at hlineage
    obtain ⟨rfl, hrest⟩ := hlineage
    exact hrest.symm
  | b :: before, rest, i, hlineage => by
    rw [lineage_eq h, List.cons_append, List.cons.injEq] at hlineage
    cases hp : parentOf past i with
    | none =>
      rw [hp] at hlineage
      exact absurd hlineage.2 (by simp)
    | some p =>
      rw [hp] at hlineage
      exact rest_of_lineage h hlineage.2

/-- Ancestors stay what they were when their unit was begun. -/
theorem lineage_cons (c : UnitCall) (hi : i < begun past) :
    lineage (c :: past) i = lineage past i := by
  cases c with
  | begin label parent => rw [lineage, if_neg (Nat.ne_of_lt hi)]
  | _ => rfl

/-! ## Units that were closed in time -/

/-- A unit that is closed stays so. -/
theorem isClosed_cons_of_isClosed (c : UnitCall) (h : isClosed past i = true) :
    isClosed (c :: past) i = true := by
  rw [isClosed, List.any_cons, ← isClosed, h, Bool.or_true]

theorem isClosed_of_cons {c : UnitCall} (h : isClosed (c :: past) i = false) :
    isClosed past i = false :=
  Bool.eq_false_iff.2 fun hin => by simp [isClosed_cons_of_isClosed c hin] at h

theorem isClosed_of_isInTime (h : isInTime past i = true) : isClosed past i = true := by
  induction past with
  | nil => exact absurd h (by simp [isInTime])
  | cons c past ih =>
    cases c with
    | commit j =>
      rw [isInTime] at h
      split at h
      next hj => rw [isClosed_cons (.inl rfl), if_pos hj.1]
      next => exact isClosed_cons_of_isClosed _ (ih h)
    | _ => exact isClosed_cons_of_isClosed _ (ih h)

theorem isClosed_of_isAborted (h : isAborted past i = true) : isClosed past i = true := by
  induction past with
  | nil => exact absurd h (by simp [isAborted])
  | cons c past ih =>
    cases c with
    | abort j =>
      rw [isAborted, Bool.or_eq_true, Bool.and_eq_true, beq_iff_eq] at h
      obtain ⟨hj, -⟩ | h := h
      · rw [isClosed_cons (.inr rfl), if_pos hj]
      · exact isClosed_cons_of_isClosed _ (ih h)
    | _ => exact isClosed_cons_of_isClosed _ (ih h)

/-! ## What a unit waits for -/

/-- An open unit waits for its own commit. -/
theorem waitsFor?_of_open (h : Proper past) (hi : isClosed past i = false) :
    waitsFor? past i = some i := by
  have hnot : isInTime past i = false :=
    Bool.eq_false_iff.2 fun hin => by simp [isClosed_of_isInTime hin] at hi
  rw [waitsFor?, lineage_eq h, List.find?_cons_of_pos (by rw [hnot]; rfl)]

/-- A unit waits for nobody once it and all its ancestors were committed in time. -/
theorem waitsFor?_eq_none : waitsFor? past i = none ↔
    ∀ j ∈ lineage past i, isInTime past j = true := by
  simp [waitsFor?]

/-- Where fewer are looked for, the one that was found first is found again, or was dropped. -/
theorem find?_of_dropped {p q : Nat → Bool} (hq : ∀ k, k ≠ j → q k = p k) (hj : q j = false)
    (l : List Nat) : (l.find? p ≠ some j → l.find? q = l.find? p) ∧
      (l.find? p = some j → ∃ before rest, l = before ++ j :: rest ∧
        l.find? q = rest.find? q) := by
  induction l with
  | nil => exact ⟨fun _ => rfl, fun h => absurd h (by simp)⟩
  | cons k l ih =>
    by_cases hk : k = j
    · subst hk
      cases hp : p k with
      | true =>
        rw [List.find?_cons_of_pos hp, List.find?_cons_of_neg (by simp [hj])]
        exact ⟨fun h => absurd rfl h, fun _ => ⟨[], l, rfl, rfl⟩⟩
      | false =>
        rw [List.find?_cons_of_neg (by simp [hp]), List.find?_cons_of_neg (by simp [hj])]
        refine ⟨ih.1, fun h => ?_⟩
        obtain ⟨before, rest, rfl, hrest⟩ := ih.2 h
        exact ⟨k :: before, rest, rfl, hrest⟩
    · cases hp : p k with
      | true =>
        have hqk : q k = true := by rw [hq k hk, hp]
        rw [List.find?_cons_of_pos hp, List.find?_cons_of_pos hqk]
        exact ⟨fun _ => rfl, fun h => absurd (Option.some.inj h) hk⟩
      | false =>
        have hqk : q k = false := by rw [hq k hk, hp]
        rw [List.find?_cons_of_neg (by simp [hp]), List.find?_cons_of_neg (by simp [hqk])]
        refine ⟨ih.1, fun h => ?_⟩
        obtain ⟨before, rest, rfl, hrest⟩ := ih.2 h
        exact ⟨k :: before, rest, rfl, hrest⟩

/-- A unit that comes after all that was begun, and calls that close nothing, change nothing. -/
theorem waitsFor?_cons {c : UnitCall} (hi : i < begun past)
    (hsame : ∀ k, isInTime (c :: past) k = isInTime past k) :
    waitsFor? (c :: past) i = waitsFor? past i := by
  rw [waitsFor?, lineage_cons c hi]
  simp only [hsame]
  rfl

/-- A commit in time hands what waits for it on to the parent, if there is one. -/
theorem waitsFor?_commit (h : Proper past) (hi : i < begun past) (hj : isClosed past j = false) :
    waitsFor? (commit j :: past) i =
      if waitsFor? past i = some j ∧ (parentOf past j).all (fun p => !isClosed past p) = true then
        parentOf past j
      else waitsFor? past i := by
  have hother : ∀ k, k ≠ j → isInTime (commit j :: past) k = isInTime past k := by
    intro k hk
    rw [isInTime, if_neg fun hjk => hk hjk.1.symm]
  have hself : isInTime (commit j :: past) j =
      (parentOf past j).all fun p => !isClosed past p := by
    rw [isInTime, if_pos ⟨rfl, hj⟩]
  by_cases hparent : (parentOf past j).all (fun p => !isClosed past p) = true
  · obtain ⟨hkept, hgone⟩ := find?_of_dropped (j := j)
      (p := fun k => !isInTime past k) (q := fun k => !isInTime (commit j :: past) k)
      (fun k hk => by rw [hother k hk]) (by rw [hself, hparent]; rfl) (lineage past i)
    rw [waitsFor?, lineage_cons _ hi]
    by_cases hwaits : waitsFor? past i = some j
    · rw [if_pos ⟨hwaits, hparent⟩]
      obtain ⟨before, rest, hlineage, hfind⟩ := hgone hwaits
      rw [hfind, rest_of_lineage h hlineage]
      cases hp : parentOf past j with
      | none => rfl
      | some p =>
        -- the parent is still open, so it was not committed
        rw [hp, Option.all_some, Bool.not_eq_true'] at hparent
        have hne : p ≠ j := Nat.ne_of_lt (lt_of_parentOf h hp).1
        have hnot : isInTime past p = false :=
          Bool.eq_false_iff.2 fun hin => by simp [isClosed_of_isInTime hin] at hparent
        rw [Option.elim_some, lineage_eq h,
          List.find?_cons_of_pos (by rw [hother p hne, hnot]; rfl)]
    · rw [if_neg fun hboth => hwaits hboth.1]
      exact hkept hwaits
  · rw [if_neg fun hboth => hparent hboth.2]
    refine waitsFor?_cons hi fun k => ?_
    by_cases hk : k = j
    · subst hk
      have hopen : isInTime past k = false :=
        Bool.eq_false_iff.2 fun hin => by simp [isClosed_of_isInTime hin] at hj
      rw [hself, hopen, Bool.eq_false_iff.2 hparent]
    · exact hother k hk

end

/-- What a unit is given beside its entries is of no concern to what it holds. -/
theorem Describes.give {us : Units} {past : List UnitCall} (h : Describes past us) {i : Nat}
    {f : UnitOfWork → UnitOfWork}
    (hf : ∀ u, (f u).parent = u.parent ∧ (f u).status = u.status ∧ (f u).entries = u.entries) :
    Describes past (us.modify i f) := by
  have hcases : ∀ j v, (us.modify i f).get? j = some v → ∃ u, us.get? j = some u ∧
      v.parent = u.parent ∧ v.status = u.status ∧ v.entries = u.entries := by
    intro j v hv
    obtain ⟨u, hu, rfl⟩ := Units.exists_of_get?_modify hv
    refine ⟨u, hu, ?_⟩
    split
    next => exact hf u
    next => exact ⟨rfl, rfl, rfl⟩
  constructor
  · exact (List.length_modify ..).trans h.length
  · intro j v hv
    obtain ⟨u, hu, hparent, -, -⟩ := hcases j v hv
    rw [hparent, h.parent j u hu]
  · intro j v hv
    obtain ⟨u, hu, -, hstatus, -⟩ := hcases j v hv
    rw [hstatus, h.isOpen j u hu]
  · intro j v hv hopen key
    obtain ⟨u, hu, -, hstatus, hentries⟩ := hcases j v hv
    rw [hstatus] at hopen
    rw [hentries, h.entries j u hu hopen key]

end UnitCall

/-! ## Tallies -/

/-- How often a hook stands with each unit, for its commit and for its abort, and how often it has
run. -/
structure Tally where
  onCommit : Nat → Nat := fun _ => 0
  onAbort : Nat → Nat := fun _ => 0
  ran : Nat := 0

/-- A tally after a unit was given hooks. -/
def Tally.give (t : Tally) (i commits aborts : Nat) : Tally :=
  { t with
    onCommit := fun j => t.onCommit j + if j = i then commits else 0
    onAbort := fun j => t.onAbort j + if j = i then aborts else 0 }

/-- A tally after one more call. -/
def Tally.after (t : Tally) (past : List UnitCall) : UnitCall → Tally
  | .commit i =>
    if UnitCall.isClosed past i = true then t
    else
      match UnitCall.parentOf past i with
      | none => { t with ran := t.ran + t.onCommit i }
      | some p =>
        { t with onCommit := fun j => t.onCommit j + if j = p then t.onCommit i else 0 }
  | .abort i =>
    if UnitCall.isClosed past i = true then t else { t with ran := t.ran + t.onAbort i }
  | .begin _ _ | .put _ _ _ | .evictSchema _ _ => t

namespace HookCall

open UnitCall (begun parentOf isClosed lineage isInTime isAborted waitsFor? Describes)

/-- The calls that give no hook. -/
def calls : List HookCall → List UnitCall
  | [] => []
  | call c :: past => c :: calls past
  | onCommit _ _ :: past | onAbort _ _ :: past => calls past

/-- The unit that a call is on. -/
def unit? : HookCall → Option Nat
  | call c => c.unit?
  | onCommit i _ | onAbort i _ => some i

/-- The hook that a call gives. -/
def hook? : HookCall → Option String
  | call _ => none
  | onCommit _ hook | onAbort _ hook => some hook

/-- Every call is on a unit that had been begun. -/
def Proper : List HookCall → Prop
  | [] => True
  | x :: past => (∀ i, x.unit? = some i → i < begun (calls past)) ∧ Proper past

/-- How often a hook stands with each unit, and how often it has run. -/
def tally (hook : String) : List HookCall → Tally
  | [] => {}
  | call c :: past => (tally hook past).after (calls past) c
  | onCommit i given :: past => (tally hook past).give i (if given = hook then 1 else 0) 0
  | onAbort i given :: past => (tally hook past).give i 0 (if given = hook then 1 else 0)

section

variable {σ : Type}

/-- Makes a call. -/
def run : HookCall → State σ → Outcome σ Unit
  | call c, w => c.run w
  | onCommit i hook, w => (.ok (), w.modifyUnit i (·.onCommit hook))
  | onAbort i hook, w => (.ok (), w.modifyUnit i (·.onAbort hook))

/-- The state after calls. -/
def stateAfter (w : State σ) : List HookCall → State σ
  | [] => w
  | x :: past => (x.run (stateAfter w past)).2

end

theorem proper_calls : ∀ {past : List HookCall}, Proper past → UnitCall.Proper (calls past)
  | [], _ => trivial
  | call _ :: _, h => ⟨h.1, proper_calls h.2⟩
  | onCommit _ _ :: past, h | onAbort _ _ :: past, h =>
    show UnitCall.Proper (calls past) from proper_calls h.2

/-! ## Units do as the tally says -/

/-- The units that are open and the hooks that ran are as a tally says. -/
structure Tallies {σ : Type} (hook : String) (past : List UnitCall) (t : Tally) (w : State σ) :
    Prop where
  onCommit : ∀ j u, w.units.get? j = some u → isClosed past j = false →
    u.commitHooks.count hook = t.onCommit j
  onAbort : ∀ j u, w.units.get? j = some u → isClosed past j = false →
    u.abortHooks.count hook = t.onAbort j
  ran : w.hooks.count hook = t.ran
  /-- Units that were not begun have no hooks. -/
  later : ∀ j, begun past ≤ j → t.onCommit j = 0 ∧ t.onAbort j = 0

section

variable {σ : Type} {hook : String} {past : List UnitCall} {t : Tally} {w : State σ}

/-- A unit that is begun has no hooks yet. -/
theorem Tallies.begin (h : Tallies hook past t w) (hlength : w.units.list.length = begun past)
    (label : String) (parent : Option Nat) :
    Tallies hook (.begin label parent :: past) t (w.begin label parent).2 := by
  have hcases : ∀ j u, (w.begin label parent).2.units.get? j = some u →
      w.units.get? j = some u ∨ (u = { label, parent } ∧ j = begun past) := by
    intro j u hu
    have hlist : (w.units.list ++ [({ label, parent } : UnitOfWork)])[j]? = some u := hu
    rw [List.getElem?_append] at hlist
    split at hlist
    next => exact .inl hlist
    next hj =>
      rw [List.getElem?_singleton] at hlist
      split at hlist
      next hzero => exact .inr ⟨(Option.some.inj hlist).symm, by omega⟩
      next => exact absurd hlist (by simp)
  constructor
  · intro j u hu hopen
    obtain hu | ⟨rfl, rfl⟩ := hcases j u hu
    · exact h.onCommit j u hu hopen
    · exact (h.later _ (Nat.le_refl _)).1.symm
  · intro j u hu hopen
    obtain hu | ⟨rfl, rfl⟩ := hcases j u hu
    · exact h.onAbort j u hu hopen
    · exact (h.later _ (Nat.le_refl _)).2.symm
  · exact h.ran
  · intro j hj
    exact h.later j (by simp only [begun] at hj; omega)

/-- What is done to the entries of a unit is of no concern to hooks. -/
theorem Tallies.modify (h : Tallies hook past t w) {c : UnitCall} {i : Nat}
    {f : UnitOfWork → UnitOfWork}
    (hf : ∀ u, (f u).commitHooks = u.commitHooks ∧ (f u).abortHooks = u.abortHooks)
    (hclosed : ∀ j, isClosed (c :: past) j = isClosed past j)
    (hbegun : begun (c :: past) = begun past) :
    Tallies hook (c :: past) t (w.modifyUnit i f) := by
  constructor
  · intro j u hu hopen
    obtain ⟨v, hv, rfl⟩ := Units.exists_of_get?_modify hu
    rw [hclosed] at hopen
    rw [← h.onCommit j v hv hopen]
    split
    next => rw [(hf v).1]
    next => rfl
  · intro j u hu hopen
    obtain ⟨v, hv, rfl⟩ := Units.exists_of_get?_modify hu
    rw [hclosed] at hopen
    rw [← h.onAbort j v hv hopen]
    split
    next => rw [(hf v).2]
    next => rfl
  · exact h.ran
  · exact fun j hj => h.later j (by rw [← hbegun]; exact hj)

/-- Closing a unit once more changes nothing. -/
theorem Tallies.closed_again (h : Tallies hook past t w) {c : UnitCall} {i : Nat}
    (hc : c = .commit i ∨ c = .abort i) : Tallies hook (c :: past) t w := by
  refine ⟨fun j u hu hj => h.onCommit j u hu (UnitCall.isClosed_of_cons hj),
    fun j u hu hj => h.onAbort j u hu (UnitCall.isClosed_of_cons hj), h.ran,
    fun j hj => h.later j ?_⟩
  obtain rfl | rfl := hc <;> exact hj

/-- Closing a unit runs some of its hooks. -/
theorem Tallies.close (h : Tallies hook past t w) {c : UnitCall} {i : Nat}
    (hc : c = .commit i ∨ c = .abort i) (status : UnitStatus) (cache : SessionCache)
    {hooks : List String} {n : Nat} (hhooks : hooks.count hook = n) :
    Tallies hook (c :: past) { t with ran := t.ran + n }
      { w with units := w.units.modify i (·.closed status), cache, hooks := w.hooks ++ hooks } := by
  have hcases : ∀ j u, (w.units.modify i (·.closed status)).get? j = some u →
      isClosed (c :: past) j = false → w.units.get? j = some u ∧ isClosed past j = false := by
    intro j u hu hj
    obtain ⟨v, hv, rfl⟩ := Units.exists_of_get?_modify hu
    rw [UnitCall.isClosed_cons hc] at hj
    split at hj
    next => exact absurd hj (by simp)
    next hij =>
      rw [if_neg hij]
      exact ⟨hv, hj⟩
  constructor
  · intro j u hu hj
    obtain ⟨hu, hj⟩ := hcases j u hu hj
    exact h.onCommit j u hu hj
  · intro j u hu hj
    obtain ⟨hu, hj⟩ := hcases j u hu hj
    exact h.onAbort j u hu hj
  · show (w.hooks ++ hooks).count hook = _
    rw [List.count_append, h.ran, hhooks]
  · intro j hj
    refine h.later j ?_
    obtain rfl | rfl := hc <;> exact hj

/-- The hooks of a nested unit go to its parent. -/
theorem Tallies.commit (h : Tallies hook past t w) (hproper : UnitCall.Proper past) {i p : Nat}
    {u : UnitOfWork} (hu : w.units.get? i = some u) (hopen : isClosed past i = false)
    (hparent : parentOf past i = some p) :
    Tallies hook (.commit i :: past)
      { t with onCommit := fun j => t.onCommit j + if j = p then t.onCommit i else 0 }
      { w with units := (w.units.modify i (·.closed .committed)).modify p (·.absorb u) } := by
  have hlt := UnitCall.lt_of_parentOf hproper hparent
  -- an open unit is as it was, unless it is the parent, which has taken the other up
  have hcases : ∀ j v, ((w.units.modify i (·.closed .committed)).modify p (·.absorb u)).get? j =
      some v → isClosed (.commit i :: past) j = false →
      ∃ v₀, w.units.get? j = some v₀ ∧ isClosed past j = false ∧
        v = if p = j then v₀.absorb u else v₀ := by
    intro j v hv hj
    obtain ⟨v₁, hv₁, rfl⟩ := Units.exists_of_get?_modify hv
    obtain ⟨v₀, hv₀, rfl⟩ := Units.exists_of_get?_modify hv₁
    rw [UnitCall.isClosed_cons (.inl rfl)] at hj
    split at hj
    next => exact absurd hj (by simp)
    next hij =>
      rw [if_neg hij]
      exact ⟨v₀, hv₀, hj, rfl⟩
  constructor
  · intro j v hv hj
    obtain ⟨v₀, hv₀, hj, rfl⟩ := hcases j v hv hj
    by_cases hp : p = j
    · rw [if_pos hp]
      show (v₀.commitHooks ++ u.commitHooks).count hook = _
      rw [List.count_append, h.onCommit j v₀ hv₀ hj, h.onCommit i u hu hopen]
      simp [hp]
    · rw [if_neg hp, h.onCommit j v₀ hv₀ hj]
      simp [Ne.symm hp]
  · intro j v hv hj
    obtain ⟨v₀, hv₀, hj, rfl⟩ := hcases j v hv hj
    rw [← h.onAbort j v₀ hv₀ hj]
    split <;> rfl
  · exact h.ran
  · intro j hj
    have hj : begun past ≤ j := hj
    refine ⟨?_, (h.later j hj).2⟩
    show t.onCommit j + _ = 0
    rw [(h.later j hj).1, if_neg (by omega)]

/-- A call on units does to their hooks what the tally says. -/
theorem Tallies.run (h : Tallies hook past t w) (hdescribes : Describes past w.units)
    {c : UnitCall} (hproper : UnitCall.Proper (c :: past)) :
    Tallies hook (c :: past) (t.after past c) (c.run w).2 := by
  cases c with
  | begin label parent => exact h.begin hdescribes.length label parent
  | put i keys entry | evictSchema i schema =>
    exact h.modify (fun _ => ⟨rfl, rfl⟩) (fun _ => rfl) rfl
  | commit i =>
    obtain ⟨u, hu⟩ := hdescribes.exists_get? (hproper.1 i rfl)
    have hopen := hdescribes.isOpen i u hu
    show Tallies hook _ _ (w.commit i).2
    rw [Tally.after]
    by_cases hclosed : isClosed past i = true
    · rw [if_pos hclosed, (State.close_of_closed hu fun hst => by simp [hopen.1 hst] at hclosed).1]
      exact h.closed_again (.inl rfl)
    · have hstill := Bool.eq_false_iff.2 hclosed
      rw [if_neg hclosed]
      cases hparent : parentOf past i with
      | none =>
        rw [State.commit_of_root hu (hopen.2 hstill) ((hdescribes.parent i u hu).trans hparent)]
        exact h.close (.inl rfl) _ _ (h.onCommit i u hu hstill)
      | some p =>
        rw [State.commit_of_parent hu (hopen.2 hstill) ((hdescribes.parent i u hu).trans hparent)]
        exact h.commit hproper.2 hu hstill hparent
  | abort i =>
    obtain ⟨u, hu⟩ := hdescribes.exists_get? (hproper.1 i rfl)
    have hopen := hdescribes.isOpen i u hu
    show Tallies hook _ _ (w.abort i).2
    rw [Tally.after]
    by_cases hclosed : isClosed past i = true
    · rw [if_pos hclosed, (State.close_of_closed hu fun hst => by simp [hopen.1 hst] at hclosed).2]
      exact h.closed_again (.inr rfl)
    · have hstill := Bool.eq_false_iff.2 hclosed
      rw [if_neg hclosed, State.abort_of_open hu (hopen.2 hstill)]
      exact h.close (.inr rfl) _ _ (h.onAbort i u hu hstill)

/-- A unit that is given a hook has it. -/
theorem Tallies.give (h : Tallies hook past t w) {i commits aborts : Nat} (hi : i < begun past)
    {f : UnitOfWork → UnitOfWork}
    (hf : ∀ u, (f u).commitHooks.count hook = u.commitHooks.count hook + commits ∧
      (f u).abortHooks.count hook = u.abortHooks.count hook + aborts) :
    Tallies hook past (t.give i commits aborts) (w.modifyUnit i f) := by
  constructor
  · intro j u hu hj
    obtain ⟨v, hv, rfl⟩ := Units.exists_of_get?_modify hu
    show _ = t.onCommit j + _
    rw [← h.onCommit j v hv hj]
    by_cases hij : i = j
    · simp [hij, (hf v).1]
    · simp [hij, Ne.symm hij]
  · intro j u hu hj
    obtain ⟨v, hv, rfl⟩ := Units.exists_of_get?_modify hu
    show _ = t.onAbort j + _
    rw [← h.onAbort j v hv hj]
    by_cases hij : i = j
    · simp [hij, (hf v).2]
    · simp [hij, Ne.symm hij]
  · exact h.ran
  · intro j hj
    have hne : j ≠ i := by omega
    obtain ⟨hcommits, haborts⟩ := h.later j hj
    exact ⟨by simp [Tally.give, hne, hcommits], by simp [Tally.give, hne, haborts]⟩

/-- After every run, hooks are in the units, or have run, as often as the tally says. -/
theorem tallies_stateAfter {w₀ : State σ} (hnew : w₀.units = {}) (hunheard : hook ∉ w₀.hooks) :
    ∀ {past : List HookCall}, Proper past →
      Describes (calls past) (stateAfter w₀ past).units ∧
        Tallies hook (calls past) (tally hook past) (stateAfter w₀ past)
  | [], _ => by
    have hnone : ∀ j, w₀.units.get? j = none := fun j => by rw [hnew]; rfl
    have hproper : UnitCall.Proper [] := trivial
    refine ⟨UnitCall.describes_stateAfter hnew hproper, ?_, ?_, ?_, ?_⟩
    · exact fun j u hu => absurd ((hnone j).symm.trans hu) (by simp)
    · exact fun j u hu => absurd ((hnone j).symm.trans hu) (by simp)
    · exact List.count_eq_zero_of_not_mem hunheard
    · exact fun j _ => ⟨rfl, rfl⟩
  | call c :: past, hproper => by
    obtain ⟨hdescribes, htallies⟩ := tallies_stateAfter hnew hunheard hproper.2
    have hproper' : UnitCall.Proper (calls (call c :: past)) := proper_calls hproper
    exact ⟨hdescribes.run hproper', htallies.run hdescribes hproper'⟩
  | onCommit i given :: past, hproper => by
    obtain ⟨hdescribes, htallies⟩ := tallies_stateAfter hnew hunheard hproper.2
    refine ⟨hdescribes.give fun _ => ⟨rfl, rfl, rfl⟩, htallies.give (hproper.1 i rfl) fun u => ?_⟩
    exact ⟨by simp [UnitOfWork.onCommit, List.count_singleton], rfl⟩
  | onAbort i given :: past, hproper => by
    obtain ⟨hdescribes, htallies⟩ := tallies_stateAfter hnew hunheard hproper.2
    refine ⟨hdescribes.give fun _ => ⟨rfl, rfl, rfl⟩, htallies.give (hproper.1 i rfl) fun u => ?_⟩
    exact ⟨rfl, by simp [UnitOfWork.onAbort, List.count_singleton]⟩

/-! ## A hook that is given once -/

/-- A hook for the commit of a unit, given once, stands with the unit that is waited for, or has
run. -/
structure GoesUp (past : List UnitCall) (i : Nat) (t : Tally) : Prop where
  onCommit : ∀ j, isClosed past j = false →
    t.onCommit j = if waitsFor? past i = some j then 1 else 0
  onAbort : ∀ j, isClosed past j = false → t.onAbort j = 0
  ran : t.ran = if waitsFor? past i = none then 1 else 0

/-- A hook for the abort of a unit, given once, stands with this unit, or has run. -/
structure Stays (past : List UnitCall) (i : Nat) (t : Tally) : Prop where
  onCommit : ∀ j, isClosed past j = false → t.onCommit j = 0
  onAbort : ∀ j, isClosed past j = false → t.onAbort j = if j = i then 1 else 0
  ran : t.ran = if isAborted past i = true then 1 else 0

/-- What is open after a unit was closed. -/
theorem of_isClosed_cons {c : UnitCall} {i j : Nat} (hc : c = .commit i ∨ c = .abort i)
    (hj : isClosed (c :: past) j = false) : i ≠ j ∧ isClosed past j = false := by
  rw [UnitCall.isClosed_cons hc] at hj
  split at hj
  next => exact absurd hj (by simp)
  next hij => exact ⟨hij, hj⟩

/-- The hook stays where it is as long as the same unit is waited for. -/
theorem GoesUp.keep {i : Nat} (h : GoesUp past i t) {c : UnitCall}
    (hwaits : waitsFor? (c :: past) i = waitsFor? past i) : GoesUp (c :: past) i t where
  onCommit j hj := by
    rw [hwaits]
    exact h.onCommit j (UnitCall.isClosed_of_cons hj)
  onAbort j hj := h.onAbort j (UnitCall.isClosed_of_cons hj)
  ran := by
    rw [hwaits]
    exact h.ran

/-- The commit of an open unit runs the hook if it stands with the unit, or hands it on. -/
theorem GoesUp.commit {i j : Nat} (h : GoesUp past i t) (hi : i < begun past)
    (hproper : UnitCall.Proper past) (hopen : isClosed past j = false) :
    GoesUp (.commit j :: past) i (t.after past (.commit j)) := by
  -- only a commit of the unit that the hook waits with moves the hook
  have hwaits := UnitCall.waitsFor?_commit hproper hi hopen
  have hcount := h.onCommit j hopen
  have hstill := fun k (hk : isClosed (.commit j :: past) k = false) =>
    of_isClosed_cons (.inl rfl) hk
  rw [Tally.after, if_neg (by simp [hopen])]
  cases hparent : parentOf past j with
  | none =>
    rw [hparent, Option.all_none] at hwaits
    refine ⟨fun k hk => ?_, fun k hk => h.onAbort k (hstill k hk).2, ?_⟩
    · obtain ⟨hne, hk⟩ := hstill k hk
      rw [hwaits, h.onCommit k hk]
      by_cases hj : waitsFor? past i = some j
      · simp [hj, hne]
      · simp [hj]
    · show t.ran + t.onCommit j = _
      rw [hwaits, hcount, h.ran]
      by_cases hj : waitsFor? past i = some j <;> simp [hj]
  | some p =>
    rw [hparent, Option.all_some] at hwaits
    refine ⟨fun k hk => ?_, fun k hk => h.onAbort k (hstill k hk).2, ?_⟩
    · obtain ⟨hne, hk⟩ := hstill k hk
      show t.onCommit k + (if k = p then t.onCommit j else 0) = _
      rw [hwaits, hcount, h.onCommit k hk]
      by_cases hj : waitsFor? past i = some j
      · by_cases hkp : k = p
        · -- the parent is open, and takes the hook
          subst hkp
          simp [hj, hk, hne]
        · by_cases hp : isClosed past p = true
          · simp [hj, hp, hne, hkp]
          · simp [hj, hp, hne, Ne.symm hkp, hkp]
      · simp [hj]
    · show t.ran = _
      rw [hwaits, h.ran]
      by_cases hj : waitsFor? past i = some j
      · by_cases hp : isClosed past p = true <;> simp [hj, hp]
      · simp [hj]

/-- A hook for commits goes up with its unit until it runs or is dropped, once. -/
theorem GoesUp.after {i : Nat} (h : GoesUp past i t) (hi : i < begun past) {c : UnitCall}
    (hproper : UnitCall.Proper (c :: past)) : GoesUp (c :: past) i (t.after past c) := by
  cases c with
  | begin label parent => exact h.keep (UnitCall.waitsFor?_cons hi fun _ => rfl)
  | put j keys entry => exact h.keep (UnitCall.waitsFor?_cons hi fun _ => rfl)
  | evictSchema j schema => exact h.keep (UnitCall.waitsFor?_cons hi fun _ => rfl)
  | abort j =>
    have hkept : GoesUp (.abort j :: past) i t := h.keep (UnitCall.waitsFor?_cons hi fun _ => rfl)
    rw [Tally.after]
    split
    next => exact hkept
    next hj =>
      -- nothing stands with the unit for its abort
      rw [h.onAbort j (Bool.eq_false_iff.2 hj)]
      exact hkept
  | commit j =>
    by_cases hclosed : isClosed past j = true
    · -- a commit that fails closes nothing
      rw [Tally.after, if_pos hclosed]
      refine h.keep (UnitCall.waitsFor?_cons hi fun k => ?_)
      rw [isInTime, if_neg fun hk => by simp [← hk.1, hclosed] at hk]
    · exact h.commit hi hproper.2 (Bool.eq_false_iff.2 hclosed)

/-- The hook stays where it is as long as its unit is not aborted. -/
theorem Stays.keep {i : Nat} (h : Stays past i t) {c : UnitCall}
    (haborted : isAborted (c :: past) i = isAborted past i) : Stays (c :: past) i t where
  onCommit j hj := h.onCommit j (UnitCall.isClosed_of_cons hj)
  onAbort j hj := h.onAbort j (UnitCall.isClosed_of_cons hj)
  ran := by
    rw [haborted]
    exact h.ran

/-- A hook for aborts stays with its unit until it runs or is dropped. -/
theorem Stays.after {i : Nat} (h : Stays past i t) {c : UnitCall} :
    Stays (c :: past) i (t.after past c) := by
  cases c with
  | begin label parent | put j keys entry | evictSchema j schema => exact h.keep rfl
  | commit j =>
    have hkept : Stays (.commit j :: past) i t := h.keep rfl
    rw [Tally.after]
    split
    next => exact hkept
    next hj =>
      -- nothing stands with the unit for its commit
      have hcount := h.onCommit j (Bool.eq_false_iff.2 hj)
      cases parentOf past j with
      | none =>
        refine ⟨hkept.onCommit, hkept.onAbort, ?_⟩
        show t.ran + t.onCommit j = _
        rw [hcount]
        exact hkept.ran
      | some p =>
        refine ⟨fun k hk => ?_, hkept.onAbort, hkept.ran⟩
        show t.onCommit k + (if k = p then t.onCommit j else 0) = 0
        rw [hkept.onCommit k hk, hcount, ite_self]
  | abort j =>
    rw [Tally.after]
    split
    next hclosed =>
      refine h.keep ?_
      rw [isAborted]
      by_cases hj : j = i
      · simp [← hj, hclosed]
      · simp [hj]
    next hclosed =>
      have hopen := Bool.eq_false_iff.2 hclosed
      refine ⟨fun k hk => h.onCommit k (UnitCall.isClosed_of_cons hk),
        fun k hk => h.onAbort k (UnitCall.isClosed_of_cons hk), ?_⟩
      show t.ran + t.onAbort j = _
      rw [h.onAbort j hopen, h.ran, isAborted]
      by_cases hj : j = i
      · subst hj
        have hnot : isAborted past j = false :=
          Bool.eq_false_iff.2 fun hin => hclosed (UnitCall.isClosed_of_isAborted hin)
        simp [hopen, hnot]
      · simp [hj]

/-- A hook that was not given stands nowhere, and has not run. -/
theorem tally_of_not_given : ∀ {past : List HookCall}, (∀ x ∈ past, x.hook? ≠ some hook) →
    tally hook past = {}
  | [], _ => rfl
  | call c :: past, h => by
    rw [tally, tally_of_not_given fun x hx => h x (List.mem_cons_of_mem _ hx)]
    cases c with
    | begin label parent | put i keys entry | evictSchema i schema => rfl
    | abort i =>
      rw [Tally.after]
      split <;> rfl
    | commit i =>
      rw [Tally.after]
      split
      next => rfl
      next => cases parentOf (calls past) i <;> simp
  | onCommit i given :: past, h => by
    have hne : given ≠ hook := fun he => h _ (List.mem_cons_self ..) (congrArg some he)
    rw [tally, tally_of_not_given fun x hx => h x (List.mem_cons_of_mem _ hx)]
    simp [Tally.give, hne]
  | onAbort i given :: past, h => by
    have hne : given ≠ hook := fun he => h _ (List.mem_cons_self ..) (congrArg some he)
    rw [tally, tally_of_not_given fun x hx => h x (List.mem_cons_of_mem _ hx)]
    simp [Tally.give, hne]

theorem give_zero (t : Tally) (i : Nat) : t.give i 0 0 = t := by simp [Tally.give]

/-- Units are not taken away. -/
theorem begun_le (c : UnitCall) (past : List UnitCall) : begun past ≤ begun (c :: past) := by
  cases c <;> simp [begun]

/-- What every further call keeps holds from the moment on at which a hook was given. -/
theorem of_given_once {P : List UnitCall → Tally → Prop} {given : HookCall}
    {later earlier : List HookCall} (hhook : given.hook? = some hook)
    (hstart : Proper (given :: earlier) → P (calls earlier) (tally hook (given :: earlier)))
    (hkept : ∀ c past t, UnitCall.Proper (c :: past) → begun (calls earlier) ≤ begun past →
      P past t → P (c :: past) (t.after past c))
    (honce : ∀ x ∈ later ++ earlier, x.hook? ≠ some hook)
    (hproper : Proper (later ++ given :: earlier)) :
    begun (calls earlier) ≤ begun (calls (later ++ given :: earlier)) ∧
      P (calls (later ++ given :: earlier)) (tally hook (later ++ given :: earlier)) := by
  induction later with
  | nil =>
    have hcalls : calls (given :: earlier) = calls earlier := by
      cases given with
      | call c => exact absurd hhook (by simp [hook?])
      | onCommit i h | onAbort i h => rfl
    rw [List.nil_append, hcalls]
    exact ⟨Nat.le_refl _, hstart hproper⟩
  | cons x later ih =>
    obtain ⟨hle, hP⟩ := ih (fun y hy => honce y (List.mem_cons_of_mem _ hy)) hproper.2
    cases x with
    | call c =>
      have hcalls : UnitCall.Proper (calls (call c :: (later ++ given :: earlier))) :=
        proper_calls hproper
      exact ⟨Nat.le_trans hle (begun_le c _), hkept c _ _ hcalls hle hP⟩
    | onCommit j other | onAbort j other =>
      have hne : other ≠ hook := fun he => honce _ (List.mem_cons_self ..) (congrArg some he)
      refine ⟨hle, ?_⟩
      rw [List.cons_append, tally, if_neg hne, give_zero]
      exact hP

/-- A hook for commits that is given once is in one place at a time. -/
theorem goesUp_of_given_once {later earlier : List HookCall} {i : Nat}
    (hopen : isClosed (calls earlier) i = false)
    (honce : ∀ x ∈ later ++ earlier, x.hook? ≠ some hook)
    (hproper : Proper (later ++ onCommit i hook :: earlier)) :
    GoesUp (calls (later ++ onCommit i hook :: earlier)) i
      (tally hook (later ++ onCommit i hook :: earlier)) := by
  have hbegun : i < begun (calls earlier) := by
    clear honce
    induction later with
    | nil => exact hproper.1 i rfl
    | cons x later ih => exact ih hproper.2
  refine (of_given_once (P := fun past t => GoesUp past i t) rfl (fun hstart => ?_)
    (fun c past t hc hle h => h.after (by omega) hc) honce hproper).2
  -- the unit is open, and waits for its own commit
  have hwaits := UnitCall.waitsFor?_of_open (proper_calls hstart.2) hopen
  rw [tally, tally_of_not_given fun x hx => honce x (List.mem_append_right _ hx), if_pos rfl]
  refine ⟨fun j _ => ?_, fun j _ => by simp [Tally.give], by simp [hwaits, Tally.give]⟩
  rw [hwaits]
  by_cases hj : j = i
  · simp [Tally.give, hj]
  · simp [Tally.give, hj, Ne.symm hj]

/-- A hook for aborts that is given once is in one place at a time. -/
theorem stays_of_given_once {later earlier : List HookCall} {i : Nat}
    (hopen : isClosed (calls earlier) i = false)
    (honce : ∀ x ∈ later ++ earlier, x.hook? ≠ some hook)
    (hproper : Proper (later ++ onAbort i hook :: earlier)) :
    Stays (calls (later ++ onAbort i hook :: earlier)) i
      (tally hook (later ++ onAbort i hook :: earlier)) := by
  refine (of_given_once (P := fun past t => Stays past i t) rfl (fun _ => ?_)
    (fun c past t _ _ h => h.after) honce hproper).2
  have hnot : isAborted (calls earlier) i = false :=
    Bool.eq_false_iff.2 fun hin => by simp [UnitCall.isClosed_of_isAborted hin] at hopen
  rw [tally, tally_of_not_given fun x hx => honce x (List.mem_append_right _ hx), if_pos rfl]
  exact ⟨fun j _ => by simp [Tally.give], fun j _ => by simp [Tally.give],
    by simp [Tally.give, hnot]⟩

/-! ## When hooks run -/

/-- A unit that was begun can be closed if it was not closed before, and an attempt that fails
changes nothing. -/
theorem close_of_begun (hdescribes : Describes past w.units) {j : Nat} (hj : j < begun past)
    {c : UnitCall} (hc : c = .commit j ∨ c = .abort j) :
    ((c.run w).1 = .ok () ↔ isClosed past j = false) ∧
      ∀ e, (c.run w).1 = .error e → (c.run w).2 = w := by
  obtain ⟨u, hu⟩ := hdescribes.exists_get? hj
  rw [← hdescribes.isOpen j u hu]
  by_cases hstatus : u.status = .opened
  · have hrun : (c.run w).1 = .ok () := by
      obtain rfl | rfl := hc
      · show (w.commit j).1 = _
        cases hparent : u.parent with
        | none => rw [State.commit_of_root hu hstatus hparent]
        | some p => rw [State.commit_of_parent hu hstatus hparent]
      · show (w.abort j).1 = _
        rw [State.abort_of_open hu hstatus]
    exact ⟨⟨fun _ => hstatus, fun _ => hrun⟩, fun e he => by simp [hrun] at he⟩
  · obtain ⟨hcommit, habort⟩ := State.close_of_closed hu hstatus
    have hrun : c.run w =
        (.error (.mapping (.closedUnit u.label (u.status == .committed))), w) := by
      obtain rfl | rfl := hc
      · exact hcommit
      · exact habort
    rw [hrun]
    exact ⟨⟨fun h => absurd h (by simp), fun h => absurd h hstatus⟩, fun _ _ => rfl⟩

/-- A hook that is given to an open unit for its commit has run, once, as soon as the unit and its
ancestors were committed, each before its own parent was closed; until then, and if a parent was
closed before, it has not run. A hook for the abort of the unit has run, once, if and only if the
unit was aborted. A unit can be closed as long as it was not closed before, and an attempt that
fails runs nothing. -/
theorem hooks_run_once {w₀ : State σ} (hnew : w₀.units = {}) (hunheard : hook ∉ w₀.hooks)
    {later earlier : List HookCall} {i : Nat} (hopen : isClosed (calls earlier) i = false)
    (honce : ∀ x ∈ later ++ earlier, x.hook? ≠ some hook) :
    (∀ past, past = later ++ onCommit i hook :: earlier → Proper past →
      (stateAfter w₀ past).hooks.count hook =
        if ∀ j ∈ lineage (calls past) i, isInTime (calls past) j = true then 1 else 0) ∧
    (∀ past, past = later ++ onAbort i hook :: earlier → Proper past →
      (stateAfter w₀ past).hooks.count hook = if isAborted (calls past) i = true then 1 else 0) ∧
    ∀ past, Proper past → ∀ j < begun (calls past), ∀ c : UnitCall, c = .commit j ∨ c = .abort j →
      let w := stateAfter w₀ past
      ((c.run w).1 = .ok () ↔ isClosed (calls past) j = false) ∧
        ∀ e, (c.run w).1 = .error e → (c.run w).2 = w := by
  refine ⟨?_, ?_, ?_⟩
  · rintro past rfl hproper
    obtain ⟨-, htallies⟩ := tallies_stateAfter hnew hunheard hproper
    rw [htallies.ran, (goesUp_of_given_once hopen honce hproper).ran]
    simp only [UnitCall.waitsFor?_eq_none]
  · rintro past rfl hproper
    obtain ⟨-, htallies⟩ := tallies_stateAfter hnew hunheard hproper
    rw [htallies.ran, (stays_of_given_once hopen honce hproper).ran]
  · intro past hproper j hj c hc w
    exact close_of_begun (tallies_stateAfter hnew hunheard hproper).1 hj hc

end

/-! ## A hook of a nested unit -/

/-- A unit and one nested in it were begun. -/
def nestedPair : List HookCall := [call (.begin "nested" (some 0)), call (.begin "root" none)]

/-- The hook of a nested unit runs with the commit of its parent. It is lost if the parent is
committed first, although the commit of the nested unit still succeeds. -/
theorem nested_hook_runs :
    (stateAfter { database := () }
      ([call (.commit 0), call (.commit 1)] ++ onCommit 1 "saved" :: nestedPair)).hooks.count
        "saved" = 1 ∧
    (stateAfter { database := () }
      ([call (.commit 1), call (.commit 0)] ++ onCommit 1 "saved" :: nestedPair)).hooks.count
        "saved" = 0 ∧
    (stateAfter { database := () }
      ([call (.abort 1)] ++ onAbort 1 "undone" :: nestedPair)).hooks.count "undone" = 1 := by
  have hopen : isClosed (calls nestedPair) 1 = false := rfl
  have hnew : ({ database := () } : State Unit).units = {} := rfl
  have hunheard : ∀ hook, hook ∉ ({ database := () } : State Unit).hooks := fun _ => by simp
  have hfree : ∀ hook, ∀ c d : UnitCall, ∀ x ∈ [call c, call d] ++ nestedPair,
      x.hook? ≠ some hook := by
    intro hook c d
    simp [nestedPair, hook?]
  have hfree' : ∀ x ∈ [call (.abort 1)] ++ nestedPair, x.hook? ≠ some "undone" := by
    simp [nestedPair, hook?]
  have hinner := (hooks_run_once hnew (hunheard "saved") hopen
    (hfree "saved" (.commit 0) (.commit 1))).1 _ rfl
    (by simp [Proper, nestedPair, calls, unit?, UnitCall.unit?, begun])
  have houter := (hooks_run_once hnew (hunheard "saved") hopen
    (hfree "saved" (.commit 1) (.commit 0))).1 _ rfl
    (by simp [Proper, nestedPair, calls, unit?, UnitCall.unit?, begun])
  have haborted := (hooks_run_once hnew (hunheard "undone") hopen hfree').2.1 _ rfl
    (by simp [Proper, nestedPair, calls, unit?, UnitCall.unit?, begun])
  exact ⟨hinner, houter, haborted⟩

end HookCall

end WideRow
