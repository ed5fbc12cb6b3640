import WideRow.Proofs.KeyText
import WideRow.Proofs.Staleness

/-!
# A cache that nobody notices

With one column in its primary key and no other unique one, an entity has one cache key for each
record, and the session cache cannot be told from none:

> `runAll_withoutCache`: a run has the same results, and leaves the same table, as it has and
> leaves with the cache switched off.

Two things that a run may do break this, and the theorem asks for runs that do neither. Key
values of equal texts share a cache entry, so that two records are laid over each other. And a
row that was read with the same column twice loses only one of them when the column is changed
element by element; the other one stays behind as it was. The theorem also says that neither of
them may be left out: what a run does that has one of them is told by `Session.Confuses` and
`Session.StaysBehind`.
-/

namespace WideRow

/-! ## The operations of a run -/

namespace Call

/-- An operation of one entity whose values fit its columns. Reading all rows and counting them
is free. -/
def IsFit (e : Entity) (Fits : String → Value → Prop) (prepare : ValuePreparer) : Call → Prop
  | lookup q => q.ReadsProjection ∧ (∀ n ∈ q.projection, n.entity = e) ∧
      q.conditions.Fit Fits prepare
  | read _ | count _ => True
  | insert i => (∀ p ∈ i.values, p.1.entity = e) ∧
      ∀ p ∈ prepare.cells i.values, ∀ v, p.2 = some v → Fits p.1.column.name v
  | update u => (∀ p ∈ u.changes, p.1.entity = e) ∧ u.conditions.Fit Fits prepare
  | delete d => d.entity = e ∧ d.conditions.Fit Fits prepare

/-- The columns that a lookup reads, each as often as it is read. -/
def projected : Call → List String
  | lookup q => q.projection.map (·.column.name)
  | _ => []

/-- The columns that an update changes element by element. -/
def mutated : Call → List String
  | update u => u.unknown
  | _ => []

end Call

/-! ## A single key -/

section

variable {e : Entity} {k : Node}

/-- The keyring of an entity with one key column, where the texts of key values tell them
apart. -/
def Keyring.ofPrimary (Fits : String → Value → Prop) (hprimary : e.primaryKey = [k])
    (hunique : e.uniques = []) (hexact : ∀ c, ExactOn (Fits c))
    (htells : TextTells (Fits k.column.name)) : Keyring where
  entity := e
  primary := k
  nodes := [k]
  Fits := Fits
  keyed := by
    have hkeyed := Entity.isKeyedBy_of_primaryKey hprimary
    rwa [hunique] at hkeyed
  primary_mem := List.mem_singleton_self k
  exact := hexact
  apart := by
    intro n hn m hm v w hv hw hkey
    rw [List.mem_singleton.1 hn] at hv hkey ⊢
    rw [List.mem_singleton.1 hm] at hw hkey ⊢
    exact ⟨rfl, htells v w hv hw (Entity.display_of_keyOf hkey)⟩

variable {E : Engine} {s : Session Table} {t : Table} {calls : List Call}

/-- With one key column, every operation comes to what the table says and leaves things sound. -/
theorem Keyring.step_of_single {K : Keyring} (honly : K.nodes = [K.primary])
    (hs : s.executor = E.executor) (hkey : E.key = K.primary.column.name) (hstrict : E.IsStrict)
    (hcacheable : K.entity.isCacheable = true) {once : List String} {c : Call}
    (hfit : c.IsFit K.entity K.Fits s.prepare) (hmutated : ∀ x ∈ c.mutated, x ∈ once)
    (honce : ∀ x ∈ once, c.projected.count x ≤ 1) {w : State Table}
    (h : K.SoundIn once w) : c.Follows s (K.SoundIn once) w (c.run s none w) := by
  cases c with
  | lookup q =>
    obtain ⟨hreads, hentity, hfilters⟩ := hfit
    refine lookup_step hs hcacheable ⟨hreads, hentity, hfilters, honce, fun n hn hread => ?_⟩ h
    rw [honly, List.mem_singleton] at hn
    rwa [hn] at hread
  | read q => exact read_keeps (ignoresCounts_soundIn K _) hs h
  | count c => exact count_keeps (ignoresCounts_soundIn K _) hs h
  | insert i =>
    refine insert_step hs hkey hcacheable honly ⟨hfit.1, fun p hp hname v hv => ?_⟩ h
    rw [← hname]
    exact hfit.2 p hp v hv
  | update u =>
    refine update_step hs hkey hcacheable ⟨hfit.1, hfit.2, hmutated⟩ (fun st t hst hv => ?_) h
    have hrestricts := hstrict st t hv
    refine ⟨hrestricts, fun p hp n hn => ?_⟩
    rw [honly, List.mem_singleton] at hn
    rw [hn, ← hkey]
    exact RowUpdate.ne_of_restrictsOnly hst hrestricts p hp
  | delete d => exact delete_step hs hkey hfit.1 hfit.2 (fun st t _ hv => hstrict st t hv) h

/-- What the database alone answers does not depend on the cache. -/
theorem directAll_withoutCache (calls : List Call) (t : Table) :
    s.withoutCache.directAll calls t = s.directAll calls t := by
  induction calls generalizing t with
  | nil => rfl
  | cons c calls ih =>
    have hfirst : c.direct s.withoutCache t = c.direct s t := rfl
    simp only [Session.directAll, hfirst, ih]

/-- An update that a strict engine accepts assigns no column that its filters ask for. -/
theorem ne_of_accepted (hstrict : E.IsStrict) {u : RowUpdate} {st : Statement}
    (hst : u.statement s.prepare = .ok st) {t : Table} (hverdict : E.verdict st t = .accept)
    {n : Node} {v : Value} (hv : (n, v) ∈ u.conditions.equalities s.prepare)
    {p : Node × Change} (hp : p ∈ u.changes) : p.1.column.name ≠ n.column.name := by
  have hrestricts := hstrict st t hverdict
  have hassigned := RowUpdate.ne_of_restrictsOnly hst hrestricts p hp
  obtain ⟨_, clauses, _, -, -, hclauses, -, rfl⟩ := RowUpdate.of_statement hst
  have hname := hrestricts.2.1 _ (Conditions.exists_clause hclauses hv)
  rw [Identifier.read_cql] at hname
  rwa [hname]

/-- A cache is not noticed where the texts of key values tell them apart and no column that the
run changes element by element is read twice by a lookup. A lookup that reads a column more often
than an update takes it away stays behind that update, and a cache key that two lookups share lets
the second one find the row of the first. -/
theorem runAll_withoutCache (Fits : String → Value → Prop) (hprimary : e.primaryKey = [k])
    (hunique : e.uniques = []) (hcacheable : e.isCacheable = true)
    (hkind : ∀ c, ∃ kind : ValueKind, ∀ v, Fits c v → kind.holds v = true)
    (hkey : E.key = k.column.name) (hstrict : E.IsStrict) (hs : s.executor = E.executor)
    (hcache : s.config.cache.isEnabled = true)
    (htable : t.IsKey (Fits k.column.name) k.column.name)
    (hvalued : ∀ ρ ∈ t, ∃ v, ρ k.column.name = some v)
    (hfit : ∀ c ∈ calls, c.IsFit e Fits s.prepare) :
    (TextTells (Fits k.column.name) →
      (∀ x ∈ calls.flatMap Call.mutated, ∀ c ∈ calls, c.projected.count x ≤ 1) →
      (s.runAll none calls (s.start t)).1 =
          (s.withoutCache.runAll none calls (s.withoutCache.start t)).1 ∧
        (s.runAll none calls (s.start t)).2.database =
          (s.withoutCache.runAll none calls (s.withoutCache.start t)).2.database) ∧
    (∀ {α : Type} (q : Query α) (u : RowUpdate), (Call.lookup q).IsFit e Fits s.prepare →
      (Call.update u).IsFit e Fits s.prepare → q.AsksCache e s.prepare →
      u.conditions.filters = q.conditions.filters → q.Outlasts u →
      s.StaysBehind q [.update u] t) ∧
    ∀ {α β : Type} (q : Query α) (q' : Query β) (key : String),
      (Call.lookup q).IsFit e Fits s.prepare → (Call.lookup q').IsFit e Fits s.prepare →
      q.options.usesCache = true → key ∈ q.conditions.keys ⟨.fetch, some e⟩ s.prepare →
      key ∈ q'.conditions.keys ⟨.fetch, some e⟩ s.prepare →
      (∀ n ∈ q.projection, ¬Keyring.Reads q' s.prepare n.column.name) → s.Confuses q q' t := by
  have hexact : ∀ c, ExactOn (Fits c) := by
    intro c
    obtain ⟨kind, hholds⟩ := hkind c
    exact kind.exactOn.mono hholds
  have hkeyed := Entity.isKeyedBy_of_primaryKey hprimary
  refine ⟨fun htells honce => ?_, fun q u hq hu hasks hfilters houtlasts => ?_,
    fun q q' key hq hq' huses hkey hkey' hcolumns => ?_⟩
  · -- both runs are runs of the database alone
    have hoff := runAll_of_isOff (s := s.withoutCache) (w := s.withoutCache.start t) calls
      ⟨rfl, fun _ => Std.ExtTreeMap.getElem?_empty⟩
    let K := Keyring.ofPrimary Fits hprimary hunique hexact htells
    have hsound : K.Sound (calls.flatMap Call.mutated) t (s.start t).cache := by
      refine ⟨hcache, ⟨fun n hn => ?_, hvalued⟩, ?_⟩
      · rw [List.mem_singleton.1 hn]
        exact htable
      · exact Keyring.coherent_of_none (fun _ _ => Std.ExtTreeMap.getElem?_empty) t
    have hon := runAll_follows (s := s) none (Q := K.SoundIn (calls.flatMap Call.mutated)) calls
      (w := s.start t) (fun c hc w hw => Keyring.step_of_single rfl hs hkey hstrict hcacheable
        (hfit c hc) (fun x hx => List.mem_flatMap.2 ⟨c, hc, hx⟩) (fun x hx => honce x hx c hc) hw)
      hsound
    have hdirect := directAll_withoutCache (s := s) calls t
    refine ⟨hon.1.trans ?_, hon.2.1.trans ?_⟩
    · rw [hoff.1]
      exact (congrArg Prod.fst hdirect).symm
    · rw [hoff.2]
      exact (congrArg Prod.snd hdirect).symm
  · -- the second copy of a column keeps the value that it was read with
    refine staysBehind_of_outlasts hkeyed hexact hs hcacheable hcache ⟨hq.1, hq.2.1, hq.2.2⟩ hasks
      hu.1 hfilters (fun st t hst hverdict n v hv p hp => ?_) houtlasts
    refine ne_of_accepted hstrict hst hverdict (v := v) ?_ hp
    unfold Conditions.equalities
    rw [hfilters]
    exact hv
  · -- the one key has the row that was read last, whoever asks
    exact confuses_of_shared_key hkeyed hexact hs hcacheable hcache ⟨hq.1, hq.2.1, hq.2.2⟩
      ⟨hq'.1, hq'.2.1, hq'.2.2⟩ huses hkey hkey' hcolumns

end

/-! ## Notes -/

namespace Note

/-- A table of notes that have tags. -/
def entity : Entity :=
  Entity.declare "Note" "Note" "notes" |>.cacheable true |>.partitionKey "id" |>.column "tags"

/-- What the columns of the table hold. -/
def kind (column : String) : ValueKind :=
  if column = "tags" then .list .text else .scalar .int

/-- The values of a column are of its kind. -/
abbrev Fits (column : String) (v : Value) : Prop := (kind column).holds v = true

/-- The key column of the table. -/
def idNode : Node := ⟨entity, ⟨0, by decide⟩⟩

/-- A session with a table of notes in memory. -/
def session : Session Table where
  executor := (Engine.plain "id" fun _ _ => false).executor

/-- The record of a note. -/
def record (id : Int32) (tags : List String) : Record :=
  (Record.blank "id" (.int id)).set "tags" (some (.list (tags.map .text)))

/-- Reads the tags of a note, as often as asked. -/
def tagsOf (id : Int32) (times : Nat) : Query (List Typed) :=
  Restricted.whereEq (Query.ofProperties (List.replicate times ⟨.list .text, entity, "tags"⟩))
    (t := .int) ⟨entity, "id"⟩ id

/-- Adds a tag to a note. -/
def tagging (id : Int32) (tag : String) : RowUpdate :=
  Restricted.whereEq (RowUpdate.append {} (t := .text) ⟨entity, "tags"⟩ tag) (t := .int)
    ⟨entity, "id"⟩ id

/-- The tags of a note are read before and after one is added. -/
def tagged : List Call := [.lookup (tagsOf 1 1), .update (tagging 1 "b"), .lookup (tagsOf 1 1)]

theorem isKey_record : Table.IsKey [record 1 ["a"]] (Fits "id") "id" := by
  refine Table.isKey_singleton fun v hv => ?_
  rw [← Option.some.inj hv]
  decide

theorem isFit_tagsOf {times : Nat} (h : times = 1 ∨ times = 2) :
    (Call.lookup (tagsOf 1 times)).IsFit entity Fits .identity := by
  have hfit : ∀ times, (tagsOf 1 times).conditions.filterClauses .identity =
        .ok [⟨"id", .eq, [.int 1]⟩] →
      (∀ n ∈ (tagsOf 1 times).projection, n.entity = entity) →
      (Call.lookup (tagsOf 1 times)).IsFit entity Fits .identity := fun times hclauses hentity =>
    ⟨Query.readsProjection_ofProperties _, hentity, Conditions.fit_of_clauses hclauses (by decide)⟩
  rcases h with rfl | rfl
  · exact hfit 1 rfl (by decide)
  · exact hfit 2 rfl (by decide)

theorem isFit_tagging : (Call.update (tagging 1 "b")).IsFit entity Fits .identity := by
  have hclauses : (tagging 1 "b").conditions.filterClauses .identity =
      .ok [⟨"id", .eq, [.int 1]⟩] := rfl
  exact ⟨by decide, Conditions.fit_of_clauses hclauses (by decide)⟩

/-- It makes no difference whether rows are cached. Read twice at once, the tags stay as they
were. -/
theorem runAll_tagged :
    ((session.runAll none tagged (session.start [record 1 ["a"]])).1 =
        (session.withoutCache.runAll none tagged
          (session.withoutCache.start [record 1 ["a"]])).1 ∧
      (session.runAll none tagged (session.start [record 1 ["a"]])).2.database =
        (session.withoutCache.runAll none tagged
          (session.withoutCache.start [record 1 ["a"]])).2.database) ∧
    ((tagsOf 1 2).single.run session none (session.runAll none
      [.lookup (tagsOf 1 2), .update (tagging 1 "b")] (session.start [record 1 ["a"]])).2).1 =
        .ok (some [⟨.list .text, ["a"]⟩, ⟨.list .text, ["a"]⟩]) := by
  have hvalued : ∀ ρ ∈ [record 1 ["a"]], ∃ v, ρ idNode.column.name = some v := by
    intro ρ hρ
    rw [List.mem_singleton.1 hρ]
    exact ⟨.int 1, rfl⟩
  have hfit : ∀ c ∈ tagged, c.IsFit entity Fits .identity := by
    simp only [tagged, List.forall_mem_cons]
    exact ⟨isFit_tagsOf (.inl rfl), isFit_tagging, isFit_tagsOf (.inl rfl), by simp⟩
  have hmain := runAll_withoutCache (e := entity) (k := idNode) (s := session)
    (E := Engine.plain "id" fun _ _ => false) Fits (by decide) (by decide) (by decide)
    (fun c => ⟨kind c, fun _ h => h⟩) (by decide) (Engine.isStrict_plain _ _) rfl rfl isKey_record
    hvalued hfit
  refine ⟨hmain.1 (ValueKind.textTells (by decide)) (by decide), ?_⟩
  refine hmain.2.1 (tagsOf 1 2) (tagging 1 "b") (isFit_tagsOf (.inr rfl)) isFit_tagging
    ⟨rfl, by decide⟩ rfl ?_ _ (by with_unfolding_all rfl)
  have hchanges : (tagging 1 "b").changes = [(⟨entity, ⟨1, by decide⟩⟩, .append (.text "b"))] := rfl
  refine fun n hn => ⟨fun p hp _ c => ?_, by revert n; decide⟩
  rw [hchanges, List.mem_singleton] at hp
  rw [hp]
  simp

end Note

end WideRow
