import WideRow.Proofs.Evictions
import WideRow.Proofs.KeyText
import WideRow.Proofs.Staleness
import WideRow.Sample.Entities

/-!
# Rows with several keys

An entity with unique columns has a cache key for each of them beside the one for its primary
key, and a record may be cached several times, from different lookups. Writes name their record
by the primary key alone; still:

> `runAll_eq_directAll`: every lookup of a run, by whichever key, returns what the table holds at
> that moment, while entries go.

The runs are those in which whoever reads a unique column reads the primary key with it. A row
that lacks the primary key is cached under the unique column only, where no write by primary key
ever finds it (`Keyring.Strands`), so that a lookup which brought it there stays behind. The same
happens to a row that does have the primary key if the entry under this goes before the others. None
goes from a cache that has room, and other entries may go without harm. Besides, the names of the
key columns must not make one key of two columns, which they cannot as long as none of them has an
equals sign in it (`keysApart_of_names`).
-/

namespace WideRow

/-! ## Keys of several columns -/

/-- No cache key is one of two columns. -/
def Entity.KeysApart (e : Entity) (Fits : String → Value → Prop) (ns : List Node) : Prop :=
  ∀ n ∈ ns, ∀ m ∈ ns, ∀ v w, Fits n.column.name v → Fits m.column.name w →
    e.keyOf n v = e.keyOf m w → n.column.name = m.column.name

/-- The keys of columns without an equals sign in their names are apart, whatever the values. -/
theorem Entity.keysApart_of_names {e : Entity} {ns : List Node}
    (h : ∀ n ∈ ns, '=' ∉ n.column.name.toList) (Fits : String → Value → Prop) :
    e.KeysApart Fits ns := by
  -- the name of the column is what comes before the first equals sign
  have hname : ∀ n ∈ ns, ∀ v : Value,
      (n.column.name ++ "==" ++ v.display).toList.takeWhile (· ≠ '=') = n.column.name.toList := by
    intro n hn v
    rw [String.toList_append, String.toList_append, List.append_assoc,
      List.takeWhile_append_of_pos]
    · simp
    · intro c hc
      simpa using fun he : c = '=' => h n hn (he ▸ hc)
  intro n hn m hm v w _ _ hkey
  have htext : n.column.name ++ "==" ++ v.display = m.column.name ++ "==" ++ w.display := by
    simpa only [Entity.keyOf, String.append_right_inj] using hkey
  rw [← String.toList_inj, ← hname n hn v, htext, hname m hm w]

/-! ## The operations of a run -/

/-- An operation of one entity: a lookup whose values fit its columns, an update or a delete of
one record by its primary key, where an update gives columns new values and leaves alone those
that are keys. Reading all rows and counting them is free. -/
def Call.IsKeyed (e : Entity) (k : Node) (Fits : String → Value → Prop)
    (prepare : ValuePreparer) : Call → Prop
  | lookup q => q.ReadsProjection ∧ (∀ n ∈ q.projection, n.entity = e) ∧
      q.conditions.Fit Fits prepare
  | read _ | count _ => True
  | insert _ => False
  | update u => u.conditions.Names k ∧ u.conditions.Fit Fits prepare ∧
      ∀ p ∈ u.changes, p.1.entity = e ∧ (∃ c, p.2 = .set c) ∧
        ∀ n ∈ k :: e.uniques, p.1.column.name ≠ n.column.name
  | delete d => d.entity = e ∧ d.conditions.Names k ∧ d.conditions.Fit Fits prepare

/-- A query for a single row. -/
def Call.IsLookup : Call → Prop
  | lookup _ => True
  | _ => False

/-- A lookup that reads a unique column reads the primary key with it. -/
def Call.ReadsPrimary (e : Entity) (k : Node) (prepare : ValuePreparer) : Call → Prop
  | lookup q => ∀ n ∈ e.uniques, Keyring.Reads q prepare n.column.name →
      Keyring.Reads q prepare k.column.name
  | _ => True

section

variable {e : Entity} {k : Node}

/-- The keyring of an entity with one column in its primary key and any number of unique ones. -/
def Keyring.ofUniques (Fits : String → Value → Prop) (hprimary : e.primaryKey = [k])
    (hexact : ∀ c, ExactOn (Fits c)) (htells : ∀ c, TextTells (Fits c))
    (hapart : e.KeysApart Fits (k :: e.uniques)) : Keyring where
  entity := e
  primary := k
  nodes := k :: e.uniques
  Fits := Fits
  keyed := Entity.isKeyedBy_of_primaryKey hprimary
  primary_mem := List.mem_cons_self ..
  exact := hexact
  apart := by
    intro n hn m hm v w hv hw hkey
    have hname := hapart n hn m hm v w hv hw hkey
    have hsame : e.keyOf m w = e.keyOf n w := by simp only [Entity.keyOf, hname]
    rw [hsame] at hkey
    rw [← hname] at hw
    exact ⟨hname, htells _ v w hv hw (Entity.display_of_keyOf hkey)⟩

variable {E : Engine} {s : Session Table} {t : Table}

theorem unknown_of_sets {u : RowUpdate} (h : ∀ p ∈ u.changes, ∃ c, p.2 = .set c) :
    u.unknown = [] := by
  refine List.filterMap_eq_nil_iff.2 fun p hp => ?_
  obtain ⟨c, hc⟩ := h p hp
  obtain ⟨n, x⟩ := p
  have hx : x = .set c := hc
  rw [hx]

/-- Entries go, but of a row that is left not the one under its primary key: things stay sound. -/
theorem Keyring.SoundIn.settle {K : Keyring} {once : List String} {w : State Table}
    (h : K.SoundIn once w) {p : Evictor} {moment : Nat}
    (hspares : p.SparesPrimary K.entity K.primary moment w.cache) :
    K.SoundIn once (w.settle p moment) := by
  have hsound : K.Sound once w.database w.cache := h
  refine ⟨hsound.enabled, hsound.table, ?_⟩
  have hrows : ((w.settle p moment).cache.rows[·]?) = fun key : String =>
      if p.drops moment w.cache key = true then none else w.cache.rows[key]? :=
    funext fun key => SessionCache.rows_evict ..
  rw [hrows]
  exact hsound.coherent.evict hspares

/-- An operation by key comes to what the table says and leaves things sound, if what happens in
between does. -/
theorem Keyring.step_of_keyed {K : Keyring} (hnodes : K.nodes = K.primary :: K.entity.uniques)
    (hs : s.executor = E.executor) (hkey : E.key = K.primary.column.name)
    (hcacheable : K.entity.isCacheable = true) {c : Call}
    (hkeyed : c.IsKeyed K.entity K.primary K.Fits s.prepare)
    (hreads : c.ReadsPrimary K.entity K.primary s.prepare) {w : State Table}
    (h : K.SoundIn [] w) {between : State Table → State Table}
    (hbetween : ∀ w₂, w.Moved w.database w₂ →
      (between w₂).database = w.database ∧ K.SoundIn [] (between w₂)) :
    c.Follows s (K.SoundIn []) w (c.runAmid s between w) := by
  obtain ⟨hdb, hleft⟩ := hbetween w (.refl w)
  cases c with
  | lookup q =>
    obtain ⟨hprojection, hentity, hfilters⟩ := hkeyed
    have hfits : K.FitsLookup [] s.prepare q := by
      refine ⟨hprojection, hentity, hfilters, by simp, fun n hn hread => ?_⟩
      rw [hnodes] at hn
      rcases List.mem_cons.1 hn with rfl | hn
      · exact hread
      · exact hreads n hn hread
    exact lookupAmid_follows (ignoresCounts_soundIn K _) h fun st hst w₁ hw₁ =>
      SoundIn.resolve hs hcacheable hfits hst h between hbetween hw₁
  | read q => exact (read_keeps (ignoresCounts_soundIn K _) hs hleft).of_database hdb
  | count c => exact (count_keeps (ignoresCounts_soundIn K _) hs hleft).of_database hdb
  | insert i => exact absurd hkeyed id
  | update u =>
    obtain ⟨hnames, hfilters, hchanges⟩ := hkeyed
    have hunknown := unknown_of_sets fun p hp => (hchanges p hp).2.1
    have hassigned : ∀ p ∈ u.changes, ∀ n ∈ K.nodes, p.1.column.name ≠ n.column.name := by
      rw [hnodes]
      exact fun p hp => (hchanges p hp).2.2
    refine (update_step hs hkey hcacheable ⟨fun p hp => (hchanges p hp).1, hfilters, ?_⟩ ?_
      hleft).of_database hdb
    · rw [hunknown]
      simp
    · intro st t hst _
      obtain ⟨_, clauses, _, -, -, hclauses, -, rfl⟩ := RowUpdate.of_statement hst
      obtain ⟨hone, hcolumn⟩ := Conditions.restricts_of_names hnames hclauses
      rw [hkey]
      refine ⟨⟨hone, hcolumn, fun a ha => ?_⟩, hassigned⟩
      obtain ⟨p, hp, rfl⟩ := List.mem_map.1 ha
      rw [Change.read_assignment]
      exact hassigned p hp _ K.primary_mem
  | delete d =>
    obtain ⟨hentity, hnames, hfilters⟩ := hkeyed
    refine (delete_step hs hkey hentity hfilters (fun st t hst _ => ?_) hleft).of_database hdb
    obtain ⟨-, ⟨-, rfl⟩ | ⟨clauses, _, -, hclauses, rfl⟩⟩ := RowDelete.of_statement hst
    · trivial
    · rw [hkey]
      exact Conditions.restricts_of_names hnames hclauses

/-- Operations by key come to what the table says, while entries go, but of a row that is left not
the one under its primary key. -/
theorem Keyring.runAllAmid_of_keyed {K : Keyring} (hnodes : K.nodes = K.primary :: K.entity.uniques)
    (hs : s.executor = E.executor) (hkey : E.key = K.primary.column.name)
    (hcacheable : K.entity.isCacheable = true) {calls : List Call}
    (hkeyed : ∀ c ∈ calls, c.IsKeyed K.entity K.primary K.Fits s.prepare)
    (hreads : ∀ c ∈ calls, c.ReadsPrimary K.entity K.primary s.prepare) {w : State Table}
    (h : K.SoundIn [] w) {p : Evictor} {moment : Nat}
    (hspares : s.AtMoments p (p.SparesPrimary K.entity K.primary) moment calls w) :
    (s.runAllAmid p moment calls w).1 = (s.directAll calls w.database).1 ∧
      (s.runAllAmid p moment calls w).2.database = (s.directAll calls w.database).2 := by
  refine runAllAmid_follows (Q := K.SoundIn []) (fun moment w hw hspares => hw.settle hspares)
    (fun c hc moment w hw hspares => ?_) hspares h
  refine step_of_keyed hnodes hs hkey hcacheable (hkeyed c hc) (hreads c hc) hw fun w₂ hw₂ => ?_
  rw [← hw₂.cache] at hspares
  exact ⟨hw₂.database, (ignoresCounts_soundIn K [] w w₂ hw₂ hw).settle hspares⟩

/-! ## Rows out of reach -/

/-- A row stands under some keys, and the rows under primary keys bind no other key, so that
whoever looks for a row by the primary key does not come to this one. -/
structure Keyring.Strands (K : Keyring) (row : Row) (held : List String) (c : SessionCache) :
    Prop where
  enabled : c.isEnabled = true
  kept : ∀ key ∈ held, c.rows[key]? = some row
  apart : ∀ v r, K.Fits K.primary.column.name v → c.rows[K.key K.primary v]? = some r →
    r.IsFull ∧ ∀ key ∈ K.keysOf r, key = K.key K.primary v

/-- What a lookup finds first, from an empty cache, it finds again after entries went and a run,
whatever has become of the table. -/
def Session.StaysBehindWithout (s : Session Table) {α : Type} (q : Query α) (lost : String → Bool)
    (calls : List Call) (t : Table) : Prop :=
  ∀ x, ((Call.lookup q).direct s t).1 = .ok (some x) →
    (q.single.run s none
      (s.runAll none calls ((q.single.run s none (s.start t)).2.lose lost)).2).1 = .ok (some x)

namespace Keyring

variable {K : Keyring} {row : Row} {held : List String} {c : SessionCache} {v : Value}
  {w : State Table}

/-- The entries of a primary key are dropped. -/
theorem Strands.invalidate (h : K.Strands row held c) (hout : K.key K.primary v ∉ held)
    {dropped : List String} (hdropped : ∀ key ∈ dropped, key = K.key K.primary v) :
    K.Strands row held (c.invalidate dropped) where
  enabled := h.enabled
  kept := by
    intro key hkey
    rw [SessionCache.rows_invalidate, if_neg, h.kept key hkey]
    intro hmem
    rw [hdropped key hmem] at hkey
    exact hout hkey
  apart := by
    intro u r hu hr
    rw [SessionCache.rows_invalidate] at hr
    split at hr
    · exact absurd hr (by simp)
    · exact h.apart u r hu hr

/-- A row goes under a primary key, and under no other key. -/
theorem Strands.put (h : K.Strands row held c) (hv : K.Fits K.primary.column.name v)
    (hout : K.key K.primary v ∉ held) {r : Row} (hr : r.IsFull)
    (hkeys : ∀ key ∈ K.keysOf r, key = K.key K.primary v) :
    K.Strands row held (c.put (K.keysOf r) r) where
  enabled := h.enabled
  kept := by
    intro key hkey
    rw [SessionCache.rows_put, if_neg, h.kept key hkey]
    intro hmem
    rw [hkeys key hmem] at hkey
    exact hout hkey
  apart := by
    intro u r' hu hr'
    rw [SessionCache.rows_put] at hr'
    by_cases hmem : K.key K.primary u ∈ K.keysOf r
    · rw [if_pos hmem, Option.some.injEq] at hr'
      obtain rfl := Keyring.eq_of_key hu hv (hkeys _ hmem)
      rw [← hr']
      exact ⟨hr, hkeys⟩
    · rw [if_neg hmem] at hr'
      exact h.apart u r' hu hr'

/-- What stands under a primary key, or an empty row. -/
theorem Strands.getD (h : K.Strands row held c) (hv : K.Fits K.primary.column.name v) :
    ((c.rows[K.key K.primary v]?).getD .empty).IsFull ∧
      ∀ key ∈ K.keysOf ((c.rows[K.key K.primary v]?).getD .empty), key = K.key K.primary v := by
  cases hlook : c.rows[K.key K.primary v]? with
  | some r => exact h.apart v r hv hlook
  | none =>
    refine ⟨Row.isFull_empty, fun key hkey => ?_⟩
    obtain ⟨n, -, u, hu, -⟩ := mem_keysOf.1 hkey
    exact absurd hu (by simp [Row.Binds])

/-- What an update that sets no key column knows of the key columns is the primary key. -/
theorem lookup_known_of_names {u : RowUpdate} {prepare : ValuePreparer}
    (hvalues : u.conditions.equalities prepare = [(K.primary, v)])
    (hassigned : ∀ p ∈ u.changes, ∀ n ∈ K.nodes, p.1.column.name ≠ n.column.name) {n : Node}
    (hn : n ∈ K.nodes) : (u.known prepare).reverse.lookup n.column.name =
      if n.column.name = K.primary.column.name then some (some v) else none := by
  have hnone : (Row.settings prepare u.changes).reverse.lookup n.column.name = none := by
    refine List.lookup_eq_none_iff.2 fun p hp => ?_
    obtain ⟨⟨m, y⟩, hm, hset⟩ := List.mem_filterMap.1 (List.mem_reverse.1 hp)
    cases y with
    | set y =>
      rw [← Option.some.inj hset]
      simpa using (hassigned _ hm n hn).symm
    | _ => exact absurd hset (by simp)
  rw [Row.known_eq, hvalues, List.reverse_append, List.lookup_append, hnone, Option.none_or]
  by_cases hname : n.column.name = K.primary.column.name
  · simp [cellsOfEqualities, hname]
  · have hne : (n.column.name == K.primary.column.name) = false := by simpa using hname
    simp [cellsOfEqualities, List.lookup_cons, hname, hne]

/-- The row of a primary key follows an update, and a row out of reach stays where it is. -/
theorem Strands.merge (h : K.Strands row held c) (hv : K.Fits K.primary.column.name v)
    (hout : K.key K.primary v ∉ held) {u : RowUpdate} {prepare : ValuePreparer}
    (heq : u.conditions.onlyEqualities = true)
    (hvalues : u.conditions.equalities prepare = [(K.primary, v)]) (hunknown : u.unknown = [])
    (hassigned : ∀ p ∈ u.changes, ∀ n ∈ K.nodes, p.1.column.name ≠ n.column.name) (use : CacheUse) :
    ∃ known c', Row.empty.setAll (u.known prepare) = .ok known ∧
      (⟨use, some K.entity⟩ : CachePolicy).merge c
        (u.conditions.keys ⟨use, some K.entity⟩ prepare) known u.unknown = (.ok (), c') ∧
      K.Strands row held c' := by
  have hkey := mem_keys_of_names K.primary_mem heq hvalues use
  have hget := get?_of_forall (c := c) hkey
  obtain ⟨hfull, hbefore⟩ := h.getD hv
  rw [← hget] at hfull hbefore
  obtain ⟨known, after, hknown, hafter, hfull', hcell, -⟩ :=
    Row.updated_spec hfull prepare u fun c hc => by rw [hunknown] at hc; exact absurd hc (by simp)
  -- the update adds no key but the primary one to those of the row it found
  have hkeys : ∀ key ∈ K.keysOf after, key = K.key K.primary v := by
    intro key hmem
    obtain ⟨n, hn, x, hx, rfl⟩ := mem_keysOf.1 hmem
    rw [Row.Binds, hcell, hunknown, if_neg (by simp),
      lookup_known_of_names hvalues hassigned hn] at hx
    by_cases hname : n.column.name = K.primary.column.name
    · rw [if_pos hname, Option.some_or, Option.some.injEq, Option.some.injEq] at hx
      simp only [Keyring.key, Entity.keyOf, hname, hx]
    · rw [if_neg hname, Option.none_or] at hx
      exact hbefore _ (mem_keysOf.2 ⟨n, hn, x, hx, rfl⟩)
  obtain ⟨b, hupdate⟩ := K.update_eq use (c.invalidate (K.keysOf _)) hfull'
  refine ⟨known, _, hknown, merge_of_ok ?_ (keysOfRow_eq use hfull) hafter hupdate, ?_⟩
  · exact List.ne_nil_of_mem ((hkey _).2 rfl)
  · exact (h.invalidate hout hbefore).put hv hout hfull' hkeys

/-- The row of a primary key is dropped, and a row out of reach stays where it is. -/
theorem Strands.evict (h : K.Strands row held c) (hv : K.Fits K.primary.column.name v)
    (hout : K.key K.primary v ∉ held) {keys : List String}
    (hkeys : ∀ key, key ∈ keys ↔ key = K.key K.primary v) (use : CacheUse) :
    ∃ c', (⟨use, some K.entity⟩ : CachePolicy).evict c keys = .ok c' ∧ K.Strands row held c' := by
  have hsome : ¬keys.isEmpty = true := by
    simpa using List.ne_nil_of_mem ((hkeys _).2 rfl)
  unfold CachePolicy.evict
  rw [if_neg hsome, get?_of_forall hkeys]
  cases hlook : c.rows[K.key K.primary v]? with
  | none => exact ⟨_, rfl, h.invalidate hout fun key hkey => (hkeys key).1 hkey⟩
  | some r =>
    obtain ⟨hfull, hall⟩ := h.apart v r hv hlook
    refine ⟨c.invalidate (keys ++ K.keysOf r), by simp only [keysOfRow_eq use hfull]; rfl, ?_⟩
    refine h.invalidate hout fun key hkey => ?_
    rcases List.mem_append.1 hkey with hkey | hkey
    · exact (hkeys key).1 hkey
    · exact hall key hkey

/-- A row out of reach of the primary keys stays where it is, whatever is done by key. -/
theorem strands_step (hnodes : K.nodes = K.primary :: K.entity.uniques)
    (hs : s.executor = E.executor) (hcacheable : K.entity.isCacheable = true)
    (hout : ∀ v, K.Fits K.primary.column.name v → K.key K.primary v ∉ held) {call : Call}
    (hkeyed : call.IsKeyed K.entity K.primary K.Fits s.prepare) (hlookup : ¬call.IsLookup)
    (h : K.Strands row held w.cache) :
    call.Follows s (fun w => K.Strands row held w.cache) w (call.run s none w) := by
  have hignores : State.IgnoresCounts fun w : State Table => K.Strands row held w.cache := by
    intro w w' hmoved h
    rw [hmoved.cache]
    exact h
  have hadmits := CachePolicy.admits_of_isEnabled h.enabled hcacheable .update
  cases call with
  | lookup q => exact absurd trivial hlookup
  | read q => exact read_keeps hignores hs h
  | count c => exact count_keeps hignores hs h
  | insert i => exact absurd hkeyed id
  -- the update is taken up under the primary key, which has no row
  | update u =>
    obtain ⟨hnames, hfilters, hchanged⟩ := hkeyed
    refine update_follows hignores h fun st hst => ?_
    obtain ⟨e, clauses, _, he, -, hclauses, hchanges, hstatement⟩ := RowUpdate.of_statement hst
    refine canWrite_of_accepted hignores h hs (by rw [hstatement]; simp) fun _ w₁ hw₁ _ => ?_
    have hentity := RowUpdate.entity_eq_of_changes he hchanges fun p hp => (hchanged p hp).1
    subst hentity
    obtain ⟨heq, v, hvalues, -⟩ := Conditions.of_names hnames hclauses
    have hv := fits_of_equalities hfilters hclauses hvalues
    obtain ⟨known, c', hknown, hmerge, hstrands⟩ :=
      h.merge hv (hout v hv) heq hvalues (unknown_of_sets fun p hp => (hchanged p hp).2.1)
        (by rw [hnodes]; exact fun p hp => (hchanged p hp).2.2) .update
    rw [← hw₁.cache] at hadmits hmerge
    exact ⟨_, RowUpdate.writeThrough_of_admitted he hadmits hknown hmerge, rfl, hstrands⟩
  | delete d =>
    obtain ⟨hentity, hnames, hfilters⟩ := hkeyed
    refine delete_follows hignores h fun st hst => ?_
    obtain ⟨-, ⟨htruncate, hstatement⟩ | ⟨clauses, _, hrows, hclauses, hstatement⟩⟩ :=
      RowDelete.of_statement hst
    · obtain ⟨f, hf, -⟩ := hnames
      rw [RowDelete.isTruncate, hf] at htruncate
      exact absurd htruncate (by simp)
    refine canWrite_of_accepted hignores h hs (by rw [hstatement]; simp) fun _ w₁ hw₁ _ => ?_
    obtain ⟨heq, v, hvalues, -⟩ := Conditions.of_names hnames hclauses
    have hv := fits_of_equalities hfilters hclauses hvalues
    have hkeys := mem_keys_of_names K.primary_mem heq hvalues .delete
    obtain ⟨c', hevict, hstrands⟩ := h.evict hv (hout v hv) hkeys .delete
    refine ⟨_, RowDelete.writeThrough_outside (c := c') ?_, rfl, hstrands⟩
    rw [hrows, if_neg Bool.false_ne_true, hentity, hw₁.cache, hevict]

/-- A lookup that does not read the primary key, or whose row lost the entry under the primary key,
stays behind whatever is done by key. -/
theorem staysBehind_of_unanchored (hnodes : K.nodes = K.primary :: K.entity.uniques)
    (hs : s.executor = E.executor) (hcacheable : K.entity.isCacheable = true)
    (hcache : s.config.cache.isEnabled = true) (htable : K.IsTable t) {α : Type} {q : Query α}
    (hq : q.IsOf K.entity K.Fits s.prepare) (hasks : q.AsksCache K.entity s.prepare)
    {lost : String → Bool}
    (hkept : ∀ key ∈ q.conditions.keys ⟨.fetch, some K.entity⟩ s.prepare, lost key = false)
    (hgone : Reads q s.prepare K.primary.column.name →
      ∀ v, K.Fits K.primary.column.name v → lost (K.key K.primary v) = true) {calls : List Call}
    (hkeyed : ∀ c ∈ calls, c.IsKeyed K.entity K.primary K.Fits s.prepare)
    (hlookup : ∀ c ∈ calls, ¬c.IsLookup) : s.StaysBehindWithout q lost calls t := by
  intro x hx
  obtain ⟨st, ρ, w, hst, hρ, hfetches, hitem, hrun, -, henabled, hrows⟩ :=
    run_of_start K.keyed K.exact hs hcacheable hcache hq hx
  obtain ⟨hmirror, -, hcolumns⟩ := hfetches.rowOf_spec
  -- the row is left under no primary key: it has none, or the entry is gone
  have hunanchored : ∀ v, K.Fits K.primary.column.name v →
      K.key K.primary v ∈ K.keysOf (q.rowOf s.prepare ρ) → lost (K.key K.primary v) = true := by
    intro v hv hmem
    have hb := binds_of_mem_keysOf htable hρ hmirror K.primary_mem hv hmem
    exact hgone ((hcolumns _).1 (by rw [hb]; simp)) v hv
  have hrow : ∀ key ∈ q.conditions.keys ⟨.fetch, some K.entity⟩ s.prepare,
      key ∈ K.keysOf (q.rowOf s.prepare ρ) := fun key hkey =>
    mem_rowKeys_of_keys K.keyed hfetches.binds hkey
  have hstart : K.Strands (q.rowOf s.prepare ρ)
      (q.conditions.keys ⟨.fetch, some K.entity⟩ s.prepare) (w.lose lost).cache := by
    refine ⟨henabled, fun key hkey => ?_, fun v r hv hr => ?_⟩
    · rw [State.lose, SessionCache.rows_evict, hkept key hkey, if_neg Bool.false_ne_true, hrows]
      exact if_pos (hrow key hkey)
    · obtain ⟨hleft, hr⟩ := SessionCache.of_rows_evict hr
      have hnot : ¬K.key K.primary v ∈ K.entity.rowKeys K.nodes (q.rowOf s.prepare ρ) := by
        intro hmem
        rw [hunanchored v hv hmem] at hleft
        exact absurd hleft (by simp)
      rw [hrows, if_neg hnot] at hr
      exact absurd hr (by simp)
  have hout : ∀ v, K.Fits K.primary.column.name v →
      K.key K.primary v ∉ q.conditions.keys ⟨.fetch, some K.entity⟩ s.prepare := by
    intro v hv hkey
    have hleft := hkept _ hkey
    rw [hunanchored v hv (hrow _ hkey)] at hleft
    exact absurd hleft (by simp)
  obtain ⟨-, -, hend⟩ := runAll_follows (s := s) none
    (Q := fun w => K.Strands (q.rowOf s.prepare ρ) _ w.cache) calls
    (fun c hc w hw => strands_step hnodes hs hcacheable hout (hkeyed c hc) (hlookup c hc) hw) hstart
  have hget := SessionCache.get?_of_all hasks.2 hend.kept
  have hanswers := hfetches.answers K.exact hq hst hend.enabled hget
  rw [hrun, (run_of_answers hcacheable hq.reads hq.entity hasks hst hanswers).1, hitem]
  rfl

end Keyring

/-- Where no cache key is one of two columns, and whoever reads a unique column reads the primary
key with it, every lookup returns what the table holds at that moment, while entries go, but of a
row that is left not the one under its primary key. From a cache with room none goes at all. A
lookup by a unique column that does not read the primary key, or whose row loses the entry under it
and keeps the others, goes on returning what the table held at first, whatever is written by primary
key; and a cache key that two lookups share lets the second one find the row of the first. -/
theorem runAll_eq_directAll (Fits : String → Value → Prop) (hprimary : e.primaryKey = [k])
    (hcacheable : e.isCacheable = true)
    (hkind : ∀ c, ∃ kind : ScalarKind, ∀ v, Fits c v → kind.holds v = true)
    (hkey : E.key = k.column.name) (hs : s.executor = E.executor)
    (hcache : s.config.cache.isEnabled = true)
    (htable : ∀ n ∈ k :: e.uniques, t.IsKey (Fits n.column.name) n.column.name)
    (hvalued : ∀ ρ ∈ t, ∃ v, ρ k.column.name = some v) {calls : List Call}
    (hkeyed : ∀ c ∈ calls, c.IsKeyed e k Fits s.prepare) :
    (e.KeysApart Fits (k :: e.uniques) →
      ((∀ c ∈ calls, c.ReadsPrimary e k s.prepare) → ∀ (p : Evictor) (moment : Nat),
        (s.AtMoments p (p.SparesPrimary e k) moment calls (s.start t) →
          (s.runAllAmid p moment calls (s.start t)).1 = (s.directAll calls t).1 ∧
            (s.runAllAmid p moment calls (s.start t)).2.database = (s.directAll calls t).2) ∧
        (p.IsDocumented → s.AtMoments p (fun _ c => c.HasRoom) moment calls (s.start t) →
          s.runAllAmid p moment calls (s.start t) = s.runAll none calls (s.start t) ∧
            (s.runAll none calls (s.start t)).1 = (s.directAll calls t).1 ∧
            (s.runAll none calls (s.start t)).2.database = (s.directAll calls t).2)) ∧
      ((∀ c ∈ calls, ¬c.IsLookup) → ∀ {α : Type} (q : Query α) (lost : String → Bool),
        (Call.lookup q).IsKeyed e k Fits s.prepare → q.AsksCache e s.prepare →
        (∀ key ∈ q.conditions.keys ⟨.fetch, some e⟩ s.prepare, lost key = false) →
        ((Call.lookup q).ReadsPrimary e k s.prepare →
          ∀ v, Fits k.column.name v → lost (e.keyOf k v) = true) →
        s.StaysBehindWithout q lost calls t)) ∧
    ∀ {α β : Type} (q : Query α) (q' : Query β) (key : String),
      (Call.lookup q).IsKeyed e k Fits s.prepare → (Call.lookup q').IsKeyed e k Fits s.prepare →
      q.options.usesCache = true → key ∈ q.conditions.keys ⟨.fetch, some e⟩ s.prepare →
      key ∈ q'.conditions.keys ⟨.fetch, some e⟩ s.prepare →
      (∀ n ∈ q.projection, ¬Keyring.Reads q' s.prepare n.column.name) → s.Confuses q q' t := by
  have hvalues : ∀ c, ExactOn (Fits c) ∧ TextTells (Fits c) := by
    intro c
    obtain ⟨kind, hholds⟩ := hkind c
    refine ⟨(ValueKind.scalar kind).exactOn.mono hholds, fun v w hv hw hdisplay => ?_⟩
    exact ScalarKind.display_injective (hholds v hv) (hholds w hw) hdisplay
  refine ⟨fun hapart => ?_, fun q q' key hq hq' huses hkey hkey' hcolumns => ?_⟩
  · let K := Keyring.ofUniques Fits hprimary (fun c => (hvalues c).1) (fun c => (hvalues c).2)
      hapart
    have hkeys : K.IsTable t := ⟨htable, hvalued⟩
    refine ⟨fun hreads p moment => ?_, fun hwrites α q lost hq hasks hkept hgone => ?_⟩
    · have hsound : K.Sound [] t (s.start t).cache :=
        ⟨hcache, hkeys, Keyring.coherent_of_none (fun _ _ => Std.ExtTreeMap.getElem?_empty) t⟩
      have hruns := fun hspares : s.AtMoments p (p.SparesPrimary e k) moment calls (s.start t) =>
        K.runAllAmid_of_keyed (w := s.start t) rfl hs hkey hcacheable hkeyed hreads hsound hspares
      refine ⟨hruns, fun hp hroom => ?_⟩
      -- with room nothing goes, so the run is the one without a library
      have hkeeps : s.AtMoments p p.Keeps moment calls (s.start t) :=
        hroom.mono fun _ _ h => Evictor.keeps_of_room hp h
      have hsame := runAllAmid_of_kept hkeeps
      have hresults := hruns (hkeeps.mono fun moment c h => h.sparesPrimary e k)
      rw [hsame] at hresults
      exact ⟨hsame, hresults⟩
    · exact K.staysBehind_of_unanchored rfl hs hcacheable hcache hkeys ⟨hq.1, hq.2.1, hq.2.2⟩ hasks
        hkept (fun hprimary => hgone fun _ _ _ => hprimary) hkeyed hwrites
  · exact confuses_of_shared_key (Entity.isKeyedBy_of_primaryKey hprimary) (fun c => (hvalues c).1)
      hs hcacheable hcache ⟨hq.1, hq.2.1, hq.2.2⟩ ⟨hq'.1, hq'.2.1, hq'.2.2⟩ huses hkey hkey'
      hcolumns

end

/-! ## Accounts -/

namespace Account

/-- What the columns of the table hold. -/
def kind (column : String) : ScalarKind :=
  if column = "id" then .uuid else if column = "email" then .text else .int

/-- The values of a column are of its kind. -/
abbrev Fits (column : String) (v : Value) : Prop := (kind column).holds v = true

/-- The key column of the table. -/
def idNode : Node := ⟨entity, ⟨0, by decide⟩⟩

/-- The unique column of the table. -/
def emailNode : Node := ⟨entity, ⟨1, by decide⟩⟩

/-- A session with a table of accounts in memory. -/
def session : Session Table where
  executor := (Engine.plain "id" fun _ _ => false).executor

/-- The record of an account. -/
def record (id : Uuid) (email : String) (balance : Int32) : Record :=
  ((Record.blank "id" (.uuid id)).set "email" (some (.text email))).set "balance"
    (some (.int balance))

/-- Reads key and balance of the account with an email address. -/
def balanceOf (email : String) : Query (List Typed) :=
  Restricted.whereEq (Query.ofProperties [⟨.uuid, entity, "id"⟩, ⟨.int, entity, "balance"⟩])
    (t := .text) ⟨entity, "email"⟩ email

/-- Gives an account another balance. -/
def deposit (id : Uuid) (balance : Int32) : RowUpdate :=
  Restricted.whereEq (RowUpdate.set {} (t := .int) ⟨entity, "balance"⟩ balance) (t := .uuid)
    ⟨entity, "id"⟩ id

/-- Closes an account. -/
def closing (id : Uuid) : RowDelete :=
  Restricted.whereEq (RowDelete.of entity) (t := .uuid) ⟨entity, "id"⟩ id

/-- Reads the balance alone. -/
def bareBalanceOf (email : String) : Query Int32 :=
  Restricted.whereEq (Query.ofProperty (t := .int) ⟨entity, "balance"⟩) (t := .text)
    ⟨entity, "email"⟩ email

/-- A balance is read by email address after each of an update and a delete by key. -/
def deposited (id : Uuid) : List Call :=
  [.lookup (balanceOf "a@b"), .update (deposit id 20), .lookup (balanceOf "a@b"),
    .delete (closing id), .lookup (balanceOf "a@b")]

theorem isKey_record {n : Node} (hn : n ∈ idNode :: entity.uniques) :
    Table.IsKey [record ⟨7⟩ "a@b" 10] (Fits n.column.name) n.column.name := by
  have hname : ∀ n ∈ idNode :: entity.uniques, n.column.name = "id" ∨ n.column.name = "email" := by
    decide
  refine Table.isKey_singleton fun v hv => ?_
  rcases hname n hn with h | h
  all_goals
    rw [h] at hv ⊢
    rw [← Option.some.inj hv]
    decide

theorem isKeyed_balanceOf :
    (Call.lookup (balanceOf "a@b")).IsKeyed entity idNode Fits .identity := by
  have hclauses : (balanceOf "a@b").conditions.filterClauses .identity =
      .ok [⟨"email", .eq, [.text "a@b"]⟩] := rfl
  refine ⟨Query.readsProjection_ofProperties _, by decide, ?_⟩
  exact Conditions.fit_of_clauses hclauses (by decide)

theorem isKeyed_bareBalanceOf :
    (Call.lookup (bareBalanceOf "a@b")).IsKeyed entity idNode Fits .identity := by
  have hclauses : (bareBalanceOf "a@b").conditions.filterClauses .identity =
      .ok [⟨"email", .eq, [.text "a@b"]⟩] := rfl
  refine ⟨Query.readsProjection_ofProperty _, by decide, ?_⟩
  exact Conditions.fit_of_clauses hclauses (by decide)

theorem isKeyed_deposit : (Call.update (deposit ⟨7⟩ 20)).IsKeyed entity idNode Fits .identity := by
  have hclauses : (deposit ⟨7⟩ 20).conditions.filterClauses .identity =
      .ok [⟨"id", .eq, [.uuid ⟨7⟩]⟩] := rfl
  have hchanges : (deposit ⟨7⟩ 20).changes =
      [(⟨entity, ⟨2, by decide⟩⟩, .set (some (.int 20)))] := rfl
  refine ⟨⟨_, rfl, rfl, rfl⟩, Conditions.fit_of_clauses hclauses (by decide), fun p hp => ?_⟩
  rw [hchanges, List.mem_singleton] at hp
  subst hp
  exact ⟨rfl, ⟨_, rfl⟩, by decide⟩

theorem isKeyed_closing : (Call.delete (closing ⟨7⟩)).IsKeyed entity idNode Fits .identity := by
  have hclauses : (closing ⟨7⟩).conditions.filterClauses .identity =
      .ok [⟨"id", .eq, [.uuid ⟨7⟩]⟩] := rfl
  exact ⟨rfl, ⟨_, rfl, rfl, rfl⟩, Conditions.fit_of_clauses hclauses (by decide)⟩

theorem not_readsPrimary_bareBalanceOf :
    ¬(Call.lookup (bareBalanceOf "a@b")).ReadsPrimary entity idNode .identity := by
  intro hreads
  have hequalities : (bareBalanceOf "a@b").conditions.equalities .identity =
      [(emailNode, .text "a@b")] := rfl
  have hemail : Keyring.Reads (bareBalanceOf "a@b") .identity emailNode.column.name :=
    .inr ⟨emailNode, .text "a@b", by rw [hequalities]; exact List.mem_singleton_self _, rfl⟩
  rcases hreads emailNode (by decide) hemail with hid | ⟨n, v, hv, hid⟩
  · exact absurd hid (by decide)
  · rw [hequalities, List.mem_singleton, Prod.mk.injEq] at hv
    rw [hv.1] at hid
    exact absurd hid (by decide)

/-- It is the balance of the moment. Read without the key, or read with it and then left under the
email address alone, it is the balance of before. -/
theorem runAll_deposited :
    ((session.runAll none (deposited ⟨7⟩) (session.start [record ⟨7⟩ "a@b" 10])).1 =
        (session.directAll (deposited ⟨7⟩) [record ⟨7⟩ "a@b" 10]).1 ∧
      (session.runAll none (deposited ⟨7⟩) (session.start [record ⟨7⟩ "a@b" 10])).2.database =
        (session.directAll (deposited ⟨7⟩) [record ⟨7⟩ "a@b" 10]).2) ∧
    ((bareBalanceOf "a@b").single.run session none (session.runAll none [.update (deposit ⟨7⟩ 20)]
      (((bareBalanceOf "a@b").single.run session none (session.start
        [record ⟨7⟩ "a@b" 10])).2.lose fun _ => false)).2).1 = .ok (some 10) ∧
    ((balanceOf "a@b").single.run session none (session.runAll none [.update (deposit ⟨7⟩ 20)]
      (((balanceOf "a@b").single.run session none (session.start [record ⟨7⟩ "a@b" 10])).2.lose
        (· != entity.keyOf emailNode (.text "a@b")))).2).1 =
          .ok (some [⟨.uuid, ⟨7⟩⟩, ⟨.int, (10 : Int32)⟩]) := by
  have hvalued : ∀ ρ ∈ [record ⟨7⟩ "a@b" 10], ∃ v, ρ idNode.column.name = some v := by
    intro ρ hρ
    rw [List.mem_singleton.1 hρ]
    exact ⟨.uuid ⟨7⟩, rfl⟩
  have hapart : entity.KeysApart Fits (idNode :: entity.uniques) :=
    Entity.keysApart_of_names (by decide) _
  have hdeposited : ∀ c ∈ deposited ⟨7⟩, c.IsKeyed entity idNode Fits .identity := by
    simp only [deposited, List.forall_mem_cons]
    exact ⟨isKeyed_balanceOf, isKeyed_deposit, isKeyed_balanceOf, isKeyed_closing,
      isKeyed_balanceOf, by simp⟩
  have hdeposit : ∀ c ∈ [Call.update (deposit ⟨7⟩ 20)], c.IsKeyed entity idNode Fits .identity :=
    List.forall_mem_singleton.2 isKeyed_deposit
  have hemail : ∀ v, Fits idNode.column.name v →
      (entity.keyOf idNode v != entity.keyOf emailNode (.text "a@b")) = true := by
    intro v hv
    refine bne_iff_ne.2 fun hkey => absurd (hapart idNode (by decide) emailNode (by decide) v
      (.text "a@b") hv (by decide) hkey) (by decide)
  refine ⟨?_, ?_, ?_⟩
  · refine (((runAll_eq_directAll (s := session) (e := entity) (k := idNode)
      (E := Engine.plain "id" fun _ _ => false) Fits (by decide) (by decide)
      (fun c => ⟨kind c, fun _ h => h⟩) (by decide) rfl rfl (fun _ hn => isKey_record hn)
      hvalued hdeposited).1 hapart).1 ?_ .ofCapacity 0).2 Evictor.isDocumented_ofCapacity
        (by decide +kernel) |>.2
    have hreads : (Call.lookup (balanceOf "a@b")).ReadsPrimary entity idNode .identity :=
      fun _ _ _ => .inl (by decide)
    simp only [deposited, List.forall_mem_cons]
    exact ⟨hreads, trivial, hreads, trivial, hreads, by simp⟩
  · exact ((runAll_eq_directAll (s := session) (e := entity) (k := idNode)
      (E := Engine.plain "id" fun _ _ => false) Fits (by decide) (by decide)
      (fun c => ⟨kind c, fun _ h => h⟩) (by decide) rfl rfl (fun _ hn => isKey_record hn)
      hvalued hdeposit).1 hapart).2 (List.forall_mem_singleton.2 not_false) (bareBalanceOf "a@b") _
      isKeyed_bareBalanceOf ⟨rfl, by decide⟩ (fun _ _ => rfl)
      (fun hreads => absurd hreads not_readsPrimary_bareBalanceOf) 10 (by with_unfolding_all rfl)
  · exact ((runAll_eq_directAll (s := session) (e := entity) (k := idNode)
      (E := Engine.plain "id" fun _ _ => false) Fits (by decide) (by decide)
      (fun c => ⟨kind c, fun _ h => h⟩) (by decide) rfl rfl (fun _ hn => isKey_record hn)
      hvalued hdeposit).1 hapart).2 (List.forall_mem_singleton.2 not_false) (balanceOf "a@b") _
      isKeyed_balanceOf ⟨rfl, by decide⟩ (by decide +kernel) (fun _ => hemail) _
      (by with_unfolding_all rfl)

end Account

end WideRow
