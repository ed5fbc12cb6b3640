import WideRow.Proofs.Following
import WideRow.Proofs.Retention

/-!
# Runs while entries go

A run outside of units goes on while the library in whose care the session cache is drops entries.
What it drops before a call asks the cache, or while the statement of a call is under way, is
missing when the call follows up (`Call.runAmid`). There are two such moments in each call and one
after the last one. A write asks the cache only after its statement, so that for a write the two
moments are as one; a lookup asks before, and again when the answer of the database goes there.

> `runAllAmid_of_kept`: where nothing goes, a run is as it is;
> `runAllAmid_follows`: a run follows the database if each call does, of whatever is left.

What may go without harm is told by rows that stand under several keys: the entry under the primary
key of a row is not to go before the others (`Evictor.SparesPrimary`).
-/

namespace WideRow

section

variable {σ : Type}

/-- Answers a query outside of units, where something happens between asking the session cache and
asking the database. -/
def PointQuery.answerAmid {α : Type} (q : PointQuery α) (s : Session σ)
    (between : State σ → State σ) (w : State σ) : Outcome σ (Option α) :=
  match q.build s w with
  | (.error e, w) => (.error e, w)
  | (.ok st, w) => q.finish s none st (((q.plan s.prepare).resolve none w).map id between)

/-- Runs a query outside of units, where something happens in between. -/
def PointQuery.runAmid {α : Type} (q : PointQuery α) (s : Session σ)
    (between : State σ → State σ) : State σ → Outcome σ (Option α) :=
  Session.counted .selectFirst (q.answerAmid s between)

/-- Runs a call outside of units, where something happens to the session cache while its statement
is under way. -/
def Call.runAmid (s : Session σ) (between : State σ → State σ) :
    (c : Call) → State σ → Outcome σ c.Result
  | lookup q => q.single.runAmid s between
  | read q => fun w => q.run s none (between w)
  | count x => fun w => x.run s none (between w)
  | insert x => fun w => x.run s none (between w)
  | update x => fun w => x.run s none (between w)
  | delete x => fun w => x.run s none (between w)

/-- Runs calls outside of units one after the other, while the library drops entries. -/
def Session.runAllAmid (s : Session σ) (p : Evictor) : Nat → List Call → State σ → Results × State σ
  | moment, [], w => ([], w.settle p moment)
  | moment, c :: calls, w =>
    let first := c.runAmid s (·.settle p (moment + 1)) (w.settle p moment)
    let rest := s.runAllAmid p (moment + 2) calls first.2
    (⟨c, first.1⟩ :: rest.1, rest.2)

/-- Something is so of the session cache at every moment of a run. -/
def Session.AtMoments (s : Session σ) (p : Evictor) (P : Nat → SessionCache → Prop) :
    Nat → List Call → State σ → Prop
  | moment, [], w => P moment w.cache
  | moment, c :: calls, w => P moment w.cache ∧ P (moment + 1) (p.settle moment w.cache) ∧
      s.AtMoments p P (moment + 2) calls
        (c.runAmid s (·.settle p (moment + 1)) (w.settle p moment)).2

instance Session.AtMoments.decidable {s : Session σ} {p : Evictor}
    {P : Nat → SessionCache → Prop} [∀ moment c, Decidable (P moment c)] :
    ∀ (moment : Nat) (calls : List Call) (w : State σ), Decidable (s.AtMoments p P moment calls w)
  | moment, [], w => inferInstanceAs (Decidable (P moment w.cache))
  | moment, c :: calls, w =>
    have := decidable (s := s) (p := p) (P := P) (moment + 2) calls
      (c.runAmid s (·.settle p (moment + 1)) (w.settle p moment)).2
    inferInstanceAs (Decidable (_ ∧ _ ∧ s.AtMoments p P (moment + 2) calls _))

/-- Nothing goes from a cache. -/
def Evictor.Keeps (p : Evictor) (moment : Nat) (c : SessionCache) : Prop :=
  ∀ key, p.drops moment c key = false

/-- Where an entry of a row is left, the one under the primary key of the row is left, if it was
there. -/
def Evictor.SparesPrimary (p : Evictor) (e : Entity) (k : Node) (moment : Nat) (c : SessionCache) :
    Prop :=
  ∀ key r v, c.rows[key]? = some r → p.drops moment c key = false → r.Binds k v →
    p.drops moment c (e.keyOf k v) = false

variable {s : Session σ} {p : Evictor} {w : State σ} {Q : State σ → Prop}

/-- What holds at all moments may be weakened at all of them. -/
theorem Session.AtMoments.mono {P P' : Nat → SessionCache → Prop}
    (hmono : ∀ moment c, P moment c → P' moment c) :
    ∀ {moment : Nat} {calls : List Call} {w : State σ}, s.AtMoments p P moment calls w →
      s.AtMoments p P' moment calls w
  | moment, [], w, h => hmono moment w.cache h
  | _, _ :: _, _, h => ⟨hmono _ _ h.1, hmono _ _ h.2.1, h.2.2.mono hmono⟩

/-- In a cache with room nothing goes. -/
theorem Evictor.keeps_of_room (hp : p.IsDocumented) {moment : Nat} {c : SessionCache}
    (h : c.HasRoom) : p.Keeps moment c := fun key => hp.keeps moment c key h

/-- Where nothing goes, no primary key goes before the other keys of its row. -/
theorem Evictor.Keeps.sparesPrimary {moment : Nat} {c : SessionCache} (h : p.Keeps moment c)
    (e : Entity) (k : Node) : p.SparesPrimary e k moment c := fun _ _ _ _ _ _ => h _

/-- Where nothing goes, the cache stays as it is. -/
theorem Evictor.Keeps.settle_eq {moment : Nat} {c : SessionCache} (h : p.Keeps moment c) :
    p.settle moment c = c := SessionCache.evict_of_forall h

/-! ## Where nothing goes -/

theorem State.settle_of_keeps {moment : Nat} (h : p.Keeps moment w.cache) :
    w.settle p moment = w := by
  rw [settle, lose, SessionCache.evict_of_forall h]

/-- Asking the session cache does not change it. -/
theorem PointQuery.runAmid_of_keeps {α : Type} (q : PointQuery α) {moment : Nat}
    (h : p.Keeps moment w.cache) : q.runAmid s (·.settle p moment) w = q.run s none w := by
  have hanswer : q.answerAmid s (·.settle p moment) w = q.answer s none w := by
    cases hst : q.statement s.prepare with
    | error e =>
      have hst' : q.query.statement s.prepare = .error e := hst
      rw [answer_of_error hst]
      unfold answerAmid build Query.build
      simp only [hst']
    | ok st =>
      have hst' : q.query.statement s.prepare = .ok st := hst
      have hcache : ((q.plan s.prepare).resolve none
          { w with events := w.events ++ q.query.warnings st }).2.cache = w.cache :=
        ((w.moved_events _).trans ((q.plan s.prepare).moved_withoutUnit _)).cache
      rw [← hcache] at h
      rw [answer_eq hst]
      unfold answerAmid build Query.build
      simp only [hst']
      exact congrArg (q.finish s none st) (Prod.ext rfl (State.settle_of_keeps h))
  unfold runAmid run Session.counted
  rw [hanswer]

/-- Where nothing goes, a call runs as it would alone. -/
theorem Call.runAmid_of_keeps (c : Call) {moment : Nat} (h : p.Keeps moment w.cache) :
    c.runAmid s (·.settle p moment) w = c.run s none w := by
  cases c with
  | lookup q => exact q.single.runAmid_of_keeps h
  | read q => exact congrArg (q.run s none) (State.settle_of_keeps h)
  | count x => exact congrArg (x.run s none) (State.settle_of_keeps h)
  | insert x => exact congrArg (x.run s none) (State.settle_of_keeps h)
  | update x => exact congrArg (x.run s none) (State.settle_of_keeps h)
  | delete x => exact congrArg (x.run s none) (State.settle_of_keeps h)

/-- Where nothing goes, a run is as it is. -/
theorem runAllAmid_of_kept : ∀ {moment : Nat} {calls : List Call} {w : State σ},
    s.AtMoments p p.Keeps moment calls w → s.runAllAmid p moment calls w = s.runAll none calls w
  | moment, [], w, h => by
    rw [Session.runAllAmid, State.settle_of_keeps h]
    rfl
  | moment, c :: calls, w, h => by
    obtain ⟨hbefore, hamid, hrest⟩ := h
    rw [hbefore.settle_eq] at hamid
    rw [State.settle_of_keeps hbefore, c.runAmid_of_keeps hamid] at hrest
    unfold Session.runAllAmid Session.runAll
    rw [State.settle_of_keeps hbefore, c.runAmid_of_keeps hamid]
    dsimp only
    rw [runAllAmid_of_kept hrest]

/-! ## Following the database -/

/-- What a call should come to depends on the database alone. -/
theorem Call.Follows.of_database {c : Call} {w' : State σ} {outcome : Outcome σ c.Result}
    (h : c.Follows s Q w' outcome) (hdb : w'.database = w.database) : c.Follows s Q w outcome where
  result := by rw [← hdb]; exact h.result
  database := by rw [← hdb]; exact h.database
  kept := h.kept

/-- A lookup follows the database if what is left can answer it, or can take the answer. -/
theorem lookupAmid_follows {α : Type} {q : Query α} {between : State σ → State σ}
    (hQ : State.IgnoresCounts Q) (hw : Q w)
    (h : ∀ st, q.single.statement s.prepare = .ok st → ∀ w₁, w.Moved w.database w₁ →
      ∃ found w₂, (q.single.plan s.prepare).resolve none w₁ = (.ok found, w₂) ∧
        (between w₂).database = w.database ∧
        s.CanAnswer none Q q st w.database (between w₂) found) :
    Call.Follows s Q (.lookup q) w (q.single.runAmid s between w) := by
  refine counted_follows (c := .lookup q) hQ ?_
  unfold PointQuery.answerAmid PointQuery.build Query.build
  cases hst : q.single.query.statement s.prepare with
  | error e => exact follows_of_error (c := .lookup q) hst hw
  | ok st =>
    obtain ⟨found, w₂, hfound, hdb₂, hcase⟩ := h st hst
      _ (w.moved_events (w.events ++ q.single.query.warnings st))
    dsimp only
    rw [hfound]
    exact finish_follows hst hdb₂ hcase

/-- A run follows the database if every call does, where something is so of the session cache. -/
theorem runAllAmid_follows {P : Nat → SessionCache → Prop}
    (hend : ∀ moment (w : State σ), Q w → P moment w.cache → Q (w.settle p moment)) :
    ∀ {moment : Nat} {calls : List Call} {w : State σ},
      (∀ c ∈ calls, ∀ moment (w : State σ), Q w → P moment w.cache → c.Follows s Q w
        (c.runAmid s (·.settle p moment) w)) →
      s.AtMoments p P moment calls w → Q w →
      (s.runAllAmid p moment calls w).1 = (s.directAll calls w.database).1 ∧
        (s.runAllAmid p moment calls w).2.database = (s.directAll calls w.database).2
  | _, [], _, _, _, _ => ⟨rfl, rfl⟩
  | moment, c :: calls, w, hstep, ⟨hbefore, hamid, hrest⟩, hw => by
    have hfirst := (hstep c (List.mem_cons_self ..) (moment + 1) _ (hend moment w hw hbefore)
      hamid).of_database (w := w) rfl
    obtain ⟨hresults, hdb⟩ := runAllAmid_follows hend
      (fun d hd => hstep d (List.mem_cons_of_mem _ hd)) hrest hfirst.kept
    rw [hfirst.database] at hresults hdb
    refine ⟨?_, hdb⟩
    simp only [Session.runAllAmid, Session.directAll]
    rw [hfirst.result, hresults]

end

end WideRow
