import WideRow.Proofs.CacheChanges
import WideRow.Proofs.Isolation

/-!
# What the session cache admits

Rows reach the session cache on six ways: a lookup fills it, an INSERT or an UPDATE outside of units
goes through it, an item is put there by hand, and the commit of a unit publishes what it holds,
rows of nested units among it. Each way asks by itself whether the cache is on and the entity may be
cached; a unit asks when it gets the row, long before it is committed (`State.Promotes`).

> `State.Admits`: a step brings a key into the cache only while the cache is on, and only a key that
> a unit would publish or that is of the table of its own entity, if this one may be cached.
>
> `admitted_only`: a cache that is off stays empty, and a cache that is on has no key of a table
> whose entity may not be cached, if no two entities share a table.

No row has to be well-formed for this: a row that cannot be read breaks the operation off before it
goes anywhere.
-/

namespace WideRow

/-- A unit holds a row under the key that a commit would publish. -/
def State.Promotes {σ : Type} (w : State σ) (key : String) : Prop :=
  ∃ i u r, w.units.get? i = some u ∧ u.entries[key]? = some (.row r true)

/-- A cache has nothing new but what `N` says. -/
structure SessionCache.Grows (N : String → Prop) (c c' : SessionCache) : Prop where
  isEnabled : c'.isEnabled = c.isEnabled
  keys : ∀ key, (c'.rows[key]?).isSome → (c.rows[key]?).isSome ∨ N key

/-- The session cache gets, while it is on, what units would publish and what `N` says, and units
get nothing to publish but what `N` says. -/
structure State.Admits {σ : Type} (N : String → Prop) (w w' : State σ) : Prop where
  cache : w.cache.Grows (fun key => w.cache.isEnabled = true ∧ (w.Promotes key ∨ N key)) w'.cache
  promotes : ∀ key, w'.Promotes key → w.Promotes key ∨ N key

/-- Tables with names without a dot have no key in common. -/
theorem Entity.table_eq_of_owns {e e' : Entity} {key : String} (he : '.' ∉ e.table.name.toList)
    (he' : '.' ∉ e'.table.name.toList) (h : e.Owns key) (h' : e'.Owns key) :
    e.table.name = e'.table.name := by
  have htable := (Facet.tableOf?_eq_some he).2 h
  rw [(Facet.tableOf?_eq_some he').2 h'] at htable
  exact (Option.some.inj htable).symm

/-! ## What one step brings -/

section

variable {σ : Type} {s : Session σ} {w w₁ w₂ : State σ} {db : σ} {N M : String → Prop} {i : Nat}
  {key : String} {c c' : SessionCache}

/-- Where every row of the later cache stood in the earlier one, there is nothing new. -/
theorem SessionCache.Grows.of_kept (henabled : c'.isEnabled = c.isEnabled)
    (h : ∀ (key : String) (r : Row), c'.rows[key]? = some r → c.rows[key]? = some r) :
    c.Grows N c' := by
  refine ⟨henabled, ?_⟩
  intro key hkey
  obtain ⟨r, hr⟩ := Option.isSome_iff_exists.1 hkey
  exact .inl (Option.isSome_iff_exists.2 ⟨r, h key r hr⟩)

/-- What may be added stays when more may be added. -/
theorem SessionCache.Grows.mono {N' : String → Prop} (h : c.Grows N c')
    (hN : ∀ key, N key → N' key) : c.Grows N' c' :=
  ⟨h.isEnabled, fun key hkey => (h.keys key hkey).imp_right (hN key)⟩

/-- A change adds to a cache that is switched on, and only what it may. -/
theorem SessionCache.Change.grows (h : c.Change N M c') :
    c.Grows (fun key => c.isEnabled = true ∧ N key) c' := by
  cases h with
  | put r hon hnew =>
    refine ⟨rfl, fun key hkey => ?_⟩
    rw [rows_put] at hkey
    split at hkey
    next hmem => exact .inr ⟨hon, hnew key hmem⟩
    next => exact .inl hkey
  | invalidate => exact .of_kept rfl fun _ _ => of_invalidate
  | invalidateSchema => exact .of_kept rfl fun _ _ => of_invalidateSchema

/-- A key is to go on to the session cache if a unit holds a row under it that is. -/
theorem State.promotes_iff : w.Promotes key ↔ ∃ r, w.units.Holds key r true := by
  constructor
  · rintro ⟨i, u, r, hu, hentry⟩
    exact ⟨r, i, u, hu, hentry⟩
  · rintro ⟨r, i, u, hu, hentry⟩
    exact ⟨i, u, r, hu, hentry⟩

theorem State.Moved.promotes_iff (h : w.Moved db w₁) : w₁.Promotes key ↔ w.Promotes key := by
  rw [State.promotes_iff, State.promotes_iff]
  exact exists_congr fun _ => h.holds_iff

theorem State.admits_refl (w : State σ) : w.Admits N w :=
  ⟨.of_kept rfl fun _ _ => id, fun _ h => .inl h⟩

/-- Steps that bring only what is admitted bring only that together. -/
theorem State.Admits.trans (h : w.Admits N w₁) (h' : w₁.Admits N w₂) : w.Admits N w₂ where
  cache := by
    refine ⟨h'.cache.isEnabled.trans h.cache.isEnabled, fun key hkey => ?_⟩
    rcases h'.cache.keys key hkey with hkey | ⟨hon, hnew⟩
    · exact h.cache.keys key hkey
    · rw [h.cache.isEnabled] at hon
      exact .inr ⟨hon, hnew.elim (h.promotes key) .inr⟩
  promotes key hkey := (h'.promotes key hkey).elim (h.promotes key) .inr

/-- A statement brings nothing into the caches. -/
theorem State.Moved.admits (h : w.Moved db w₁) : w.Admits N w₁ where
  cache := by
    rw [h.cache]
    exact .of_kept rfl fun _ _ => id
  promotes _ hkey := .inl (h.promotes_iff.1 hkey)

/-- Units are exchanged for others. -/
theorem State.admits_units {units : Units}
    (h : ∀ key r, units.Holds key r true → w.units.Holds key r true ∨ N key) :
    w.Admits N { w with units } where
  cache := .of_kept rfl fun _ _ => id
  promotes key hkey := by
    obtain ⟨r, hr⟩ := State.promotes_iff.1 hkey
    exact (h key r hr).imp_left fun hr => State.promotes_iff.2 ⟨r, hr⟩

/-- A step of an operation brings what it may bring. A row that goes into a unit would be published
only if it is marked so. -/
theorem State.Change.admits (h : w.Change N M w₁) : w.Admits N w₁ := by
  cases h with
  | session hchange =>
    exact ⟨hchange.grows.mono fun _ hnew => ⟨hnew.1, .inr hnew.2⟩, fun _ hkey => .inl hkey⟩
  | hold i r hnew =>
    refine State.admits_units fun key r' hr => ?_
    obtain hr | ⟨hkey, -, hpromote⟩ := hr.of_put
    · exact .inl hr
    · exact .inr (hnew hpromote.symm key hkey)
  | mark i => exact State.admits_units fun _ _ hr => .inl hr.of_put_deleted
  | forget i => exact State.admits_units fun _ _ hr => .inl hr.of_evictSchema

/-- What the caches work brings only what may be put. -/
theorem State.Works.admits (h : w.Works N M w₁) : w.Admits N w₁ := by
  induction h with
  | refl => exact w.admits_refl
  | tail _ hstep ih =>
    obtain hchange | ⟨_, hmoved⟩ := hstep
    · exact ih.trans hchange.admits
    · exact ih.trans hmoved.admits

/-- Publishing a unit brings what it promotes, while the cache is on. -/
theorem admits_commit : w.Admits N (w.commit i).2 where
  cache := by
    refine ⟨w.isEnabled_commit i, fun key hkey => ?_⟩
    obtain ⟨r, hr⟩ := Option.isSome_iff_exists.1 hkey
    obtain hr | ⟨hon, hheld⟩ := State.cache_commit hr
    · exact .inl (Option.isSome_iff_exists.2 ⟨r, hr⟩)
    · exact .inr ⟨hon, .inl (State.promotes_iff.2 ⟨r, hheld⟩)⟩
  promotes key hkey := by
    obtain ⟨r, hr⟩ := State.promotes_iff.1 hkey
    exact .inl (State.promotes_iff.2 ⟨r, State.holds_commit hr⟩)

/-- What an aborted unit held goes nowhere. -/
theorem admits_abort : w.Admits N (w.abort i).2 where
  cache := by
    rw [w.cache_abort]
    exact .of_kept rfl fun _ _ => id
  promotes key hkey := by
    obtain ⟨r, hr⟩ := State.promotes_iff.1 hkey
    exact .inl (State.promotes_iff.2 ⟨r, State.holds_abort hr⟩)

end

/-! ## Runs -/

namespace SessionStep

variable {σ : Type} {s : Session σ} {w : State σ}

/-- A step admits keys of its own entity. -/
theorem admits_run (x : SessionStep) : w.Admits (OfCacheable x.stores?) (x.run s w) := by
  cases x with
  | call unit c => exact (works_call c s unit w).admits
  | keep m item => exact (changes_updateCache s m item w).works.admits
  | begin label parent => exact State.admits_units fun _ _ hr => .inl hr.of_begin
  | commit i => exact admits_commit
  | abort i => exact admits_abort

/-- Whatever a run has in the session cache or would publish is of an entity that may be cached, and
of which one of its steps had a row. A cache that is off has nothing. -/
theorem admits_stateAfter (s : Session σ) (db : σ) (past : List SessionStep) :
    let after := stateAfter s (s.start db) past
    after.cache.isEnabled = s.config.cache.isEnabled ∧
    (∀ key, (after.cache.rows[key]?).isSome →
      s.config.cache.isEnabled = true ∧ ∃ x ∈ past, OfCacheable x.stores? key) ∧
    ∀ key, after.Promotes key → ∃ x ∈ past, OfCacheable x.stores? key := by
  induction past with
  | nil =>
    refine ⟨rfl, ?_, ?_⟩
    · intro key hkey
      have hempty : ((∅ : Std.ExtTreeMap String Row compare)[key]?).isSome := hkey
      rw [Std.ExtTreeMap.getElem?_empty] at hempty
      exact absurd hempty (by simp)
    · rintro key ⟨i, u, r, hu, -⟩
      exact absurd hu (by simp [stateAfter, Session.start, Units.get?])
  | cons x past ih =>
    obtain ⟨henabled, hcached, hpromoted⟩ := ih
    have hstep := admits_run (s := s) (w := stateAfter s (s.start db) past) x
    have hearlier : ∀ key, (∃ y ∈ past, OfCacheable y.stores? key) →
        ∃ y ∈ x :: past, OfCacheable y.stores? key := by
      rintro key ⟨y, hy, hkey⟩
      exact ⟨y, List.mem_cons_of_mem x hy, hkey⟩
    have hnow : ∀ key, OfCacheable x.stores? key → ∃ y ∈ x :: past, OfCacheable y.stores? key :=
      fun key hkey => ⟨x, List.mem_cons_self .., hkey⟩
    refine ⟨hstep.cache.isEnabled.trans henabled, ?_, ?_⟩
    · intro key hkey
      rcases hstep.cache.keys key hkey with hold | ⟨hon, hnew⟩
      · exact ⟨(hcached key hold).1, hearlier key (hcached key hold).2⟩
      · rw [henabled] at hon
        rcases hnew with hnew | hnew
        · exact ⟨hon, hearlier key (hpromoted key hnew)⟩
        · exact ⟨hon, hnow key hnew⟩
    · intro key hkey
      rcases hstep.promotes key hkey with hold | hnew
      · exact hearlier key (hpromoted key hold)
      · exact hnow key hnew

/-- In every state that a session reaches, by operations in and outside of units, items put into the
cache, units, commits and aborts: a session cache that is off is empty, and one that is on has keys
only of entities that may be cached and of which a step of the run had a row. Among entities of
which no two share a table it has no key of a table whose entity may not be cached. -/
theorem admitted_only (s : Session σ) (db : σ) {past : List SessionStep} {E : Entity → Prop}
    (hsteps : ∀ x ∈ past, ∀ e, x.stores? = some e → E e)
    (hapart : ∀ e e', E e → E e' → e.table.name = e'.table.name → e = e')
    (hplain : ∀ e, E e → '.' ∉ e.table.name.toList) :
    let after := stateAfter s (s.start db) past
    (s.config.cache.isEnabled = false → after.cache.size = 0) ∧
    (∀ key, (after.cache.rows[key]?).isSome → after.cache.isEnabled = true ∧
      ∃ x ∈ past, ∃ e, x.stores? = some e ∧ e.isCacheable = true ∧ e.Owns key) ∧
    ∀ e, E e → e.isCacheable = false → ∀ key, e.Owns key → after.cache.rows[key]? = none := by
  intro after
  obtain ⟨henabled, hcached, -⟩ := admits_stateAfter s db past
  refine ⟨?_, ?_, ?_⟩
  · intro hoff
    have hempty : after.cache.rows = ∅ := by
      refine Std.ExtTreeMap.ext_getElem? fun key => ?_
      rw [Std.ExtTreeMap.getElem?_empty]
      cases hkey : after.cache.rows[key]? with
      | none => rfl
      | some r =>
        have hon := (hcached key (by rw [hkey]; rfl)).1
        rw [hoff] at hon
        exact absurd hon (by simp)
    rw [SessionCache.size, hempty]
    rfl
  · intro key hkey
    obtain ⟨hon, x, hx, e, he, hcacheable, howns⟩ := hcached key hkey
    exact ⟨henabled.trans hon, x, hx, e, he, hcacheable, howns⟩
  · intro e hE hnot key howns
    cases hkey : after.cache.rows[key]? with
    | none => rfl
    | some r =>
      obtain ⟨-, x, hx, e', he', hcacheable, howns'⟩ := hcached key (by rw [hkey]; rfl)
      have hE' := hsteps x hx e' he'
      have htable := Entity.table_eq_of_owns (hplain e hE) (hplain e' hE') howns howns'
      rw [hapart e e' hE hE' htable, hcacheable] at hnot
      exact absurd hnot (by simp)

end SessionStep

/-! ## A user and a post, written in a nested unit -/

namespace Post

/-- Writes a user, who may be cached. -/
def userWritten : SessionStep := .call (some 1) (.insert (.ofItem User.mapping ⟨7, "Ann", 30⟩))

/-- Writes a post, which may not. -/
def postWritten : SessionStep := .call (some 1) (.insert (.ofItem mapping ⟨7, 100, "hello"⟩))

/-- Both are written in a nested unit that is committed, and so is its parent, the latest step
first. -/
def published : List SessionStep :=
  [.commit 0, .commit 1, postWritten, userWritten, .begin "inner" (some 0), .begin "outer" none]

/-- The session cache has the user in the end, and no post. With the cache off it has nothing. -/
theorem published_not_cached :
    let after := SessionStep.stateAfter Account.compliant (Account.compliant.start ()) published
    let off : Session Unit := { Account.compliant with config.cache.isEnabled := false }
    postWritten.stores? = some entity ∧
    (after.cache.rows["simple_users.id==7"]?).isSome ∧
    after.cache.rows["posts.author==7;posted_at==100"]? = none ∧
    (SessionStep.stateAfter off (off.start ()) published).cache.size = 0 := by
  intro after off
  have hsteps : ∀ x ∈ published, ∀ e, x.stores? = some e → e = User.entity ∨ e = entity := by
    intro x hx e he
    simp only [published, List.mem_cons, List.not_mem_nil, or_false] at hx
    rcases hx with rfl | rfl | rfl | rfl | rfl | rfl
    · exact absurd he (by simp [SessionStep.stores?])
    · exact absurd he (by simp [SessionStep.stores?])
    · exact .inr (Option.some.inj he).symm
    · exact .inl (Option.some.inj he).symm
    · exact absurd he (by simp [SessionStep.stores?])
    · exact absurd he (by simp [SessionStep.stores?])
  have hapart : ∀ e e', (e = User.entity ∨ e = entity) → (e' = User.entity ∨ e' = entity) →
      e.table.name = e'.table.name → e = e' := by
    rintro e e' (rfl | rfl) (rfl | rfl) htable
    · rfl
    · exact absurd htable (by decide)
    · exact absurd htable (by decide)
    · rfl
  have hplain : ∀ e, (e = User.entity ∨ e = entity) → '.' ∉ e.table.name.toList := by
    rintro e (rfl | rfl)
    · decide
    · decide
  have howns : entity.Owns "posts.author==7;posted_at==100" :=
    String.startsWith_string_iff.2 (by decide)
  refine ⟨rfl, by decide +kernel, ?_, ?_⟩
  · have hadmitted := SessionStep.admitted_only Account.compliant () hsteps hapart hplain
    exact hadmitted.2.2 entity (.inr rfl)
      rfl _ howns
  · exact (SessionStep.admitted_only off () hsteps hapart hplain).1 rfl

end Post

end WideRow
