import WideRow.Proofs.KeyShapes
import WideRow.Proofs.Mirror

/-!
# Keys of filters and keys of rows

The keys of filters are bound from a list of columns and values, those of a row from its cells. A
row that satisfies the filters agrees with each of their values (`rowSatisfies`), but keys are made
of texts, and values that agree may have different texts: the zeros of floating-point numbers, big
numbers with needless bytes in front, and timeuuids that differ in their version only.

> `eq_of_agrees`: all other values agree only with themselves, also within collections.
>
> `keys_of_satisfied`: where the values are of the other kinds, or timeuuids of one version, the
> keys of filters are among the keys of any row that satisfies them, in the same order, and the row
> goes under each of them when it is put into the cache under its own keys.
-/

namespace WideRow

/-! ## Values that agree -/

/-- The four bits of an identifier that name its version. -/
def Uuid.version (u : Uuid) : BitVec 128 := u.bits &&& (BitVec.ofNat 128 0xf <<< 76)

/-- The version is all that comparing leaves out. -/
theorem Uuid.eq_of_version {u v : Uuid} (hversion : u.version = v.version)
    (h : u.withoutVersion = v.withoutVersion) : u = v := by
  have hsplit : ∀ w : Uuid, w.bits = w.version ||| w.withoutVersion := by
    intro w
    have hall : BitVec.ofNat 128 0xf <<< 76 ||| ~~~(BitVec.ofNat 128 0xf <<< 76) =
        BitVec.allOnes 128 := by decide
    rw [version, withoutVersion, ← BitVec.and_or_distrib_left, hall, BitVec.and_allOnes]
  have hbits : u.bits = v.bits := by rw [hsplit u, hsplit v, hversion, h]
  exact congrArg Uuid.mk hbits

mutual

/-- Whether two values that agree are the same. There are no floating-point and no big numbers in
the same place of both, as of these several may agree, and timeuuids in the same place have the same
version, which is left out when they are compared. -/
def Value.comparesExactly : Value → Value → Bool
  | .float _, .float _ | .double _, .double _ | .varint _, .varint _ => false
  | .decimal _ _, .decimal _ _ => false
  | .timeuuid a, .timeuuid b => a.version == b.version
  | .list a, .list b | .set a, .set b | .vector a, .vector b => comparesExactlyItems a b
  | .map a, .map b => comparesExactlyEntries a b
  | .tuple a, .tuple b => comparesExactlyCells a b
  | .record _ _ a, .record _ _ b => comparesExactlyFields a b
  | _, _ => true

/-- The same of items in their order. -/
def Value.comparesExactlyItems : List Value → List Value → Bool
  | a :: as, b :: bs => Value.comparesExactly a b && comparesExactlyItems as bs
  | _, _ => true

/-- The same of map entries in their order. -/
def Value.comparesExactlyEntries : List (Value × Value) → List (Value × Value) → Bool
  | (a, x) :: as, (b, y) :: bs =>
    Value.comparesExactly a b && Value.comparesExactly x y && comparesExactlyEntries as bs
  | _, _ => true

/-- The same of optional values in their order. -/
def Value.comparesExactlyCells : List (Option Value) → List (Option Value) → Bool
  | some a :: as, some b :: bs => Value.comparesExactly a b && comparesExactlyCells as bs
  | _ :: as, _ :: bs => comparesExactlyCells as bs
  | _, _ => true

/-- The same of named fields in their order. -/
def Value.comparesExactlyFields :
    List (String × Option Value) → List (String × Option Value) → Bool
  | (_, some a) :: as, (_, some b) :: bs => Value.comparesExactly a b && comparesExactlyFields as bs
  | _ :: as, _ :: bs => comparesExactlyFields as bs
  | _, _ => true

end

namespace Value

mutual

/-- Values that agree are the same, if they are compared exactly. -/
theorem eq_of_agrees : ∀ a b : Value,
    a.comparesExactly b = true → a.agrees b = true → a = b := by
  intro a b hexact h
  rw [agrees.eq_def] at h
  rw [comparesExactly.eq_def] at hexact
  split at h
  case h_9 | h_10 | h_14 | h_15 => exact absurd hexact Bool.false_ne_true
  case h_12 => rw [Uuid.eq_of_version (eq_of_beq hexact) (eq_of_beq h)]
  case h_19 =>
    obtain ⟨h, hthird⟩ := Bool.and_eq_true_iff.1 h
    obtain ⟨hfirst, hsecond⟩ := Bool.and_eq_true_iff.1 h
    rw [eq_of_beq hfirst, eq_of_beq hsecond, eq_of_beq hthird]
  case h_21 => rfl
  case h_22 as bs => rw [eq_of_agreesItems as bs hexact h]
  case h_23 as bs => rw [eq_of_agreesItems as bs hexact h]
  case h_24 as bs => rw [eq_of_agreesItems as bs hexact h]
  case h_25 as bs => rw [eq_of_agreesEntries as bs hexact h]
  case h_26 as bs => rw [eq_of_agreesCells as bs hexact h]
  case h_27 as l m bs =>
    obtain ⟨hnames, hfields⟩ := Bool.and_eq_true_iff.1 h
    obtain ⟨hkeyspace, hname⟩ := Bool.and_eq_true_iff.1 hnames
    rw [eq_of_beq hkeyspace, eq_of_beq hname, eq_of_agreesFields as bs hexact hfields]
  case h_28 => exact absurd h Bool.false_ne_true
  -- the kinds that are compared as they are
  all_goals rw [eq_of_beq h]

/-- Items agree one by one. -/
theorem eq_of_agreesItems : ∀ as bs : List Value, comparesExactlyItems as bs = true →
    agreesItems as bs = true → as = bs := by
  intro as bs hexact h
  rw [agreesItems.eq_def] at h
  rw [comparesExactlyItems.eq_def] at hexact
  split at h
  case h_1 => rfl
  case h_2 a as b bs =>
    obtain ⟨ha, has⟩ := Bool.and_eq_true_iff.1 hexact
    obtain ⟨h, hs⟩ := Bool.and_eq_true_iff.1 h
    rw [eq_of_agrees a b ha h, eq_of_agreesItems as bs has hs]
  case h_3 => exact absurd h Bool.false_ne_true

/-- So do entries, with key and value. -/
theorem eq_of_agreesEntries : ∀ as bs : List (Value × Value),
    comparesExactlyEntries as bs = true → agreesEntries as bs = true → as = bs := by
  intro as bs hexact h
  rw [agreesEntries.eq_def] at h
  rw [comparesExactlyEntries.eq_def] at hexact
  split at h
  case h_1 => rfl
  case h_2 a x as b y bs =>
    obtain ⟨hexact, has⟩ := Bool.and_eq_true_iff.1 hexact
    obtain ⟨ha, hx⟩ := Bool.and_eq_true_iff.1 hexact
    obtain ⟨h, hs⟩ := Bool.and_eq_true_iff.1 h
    obtain ⟨hkeys, hvalues⟩ := Bool.and_eq_true_iff.1 h
    rw [eq_of_agrees a b ha hkeys, eq_of_agrees x y hx hvalues, eq_of_agreesEntries as bs has hs]
  case h_3 => exact absurd h Bool.false_ne_true

theorem eq_of_agreesCells : ∀ as bs : List (Option Value), comparesExactlyCells as bs = true →
    agreesCells as bs = true → as = bs := by
  intro as bs hexact h
  rw [agreesCells.eq_def] at h
  rw [comparesExactlyCells.eq_def] at hexact
  split at h
  case h_1 => rfl
  case h_2 as bs => rw [eq_of_agreesCells as bs hexact h]
  case h_3 a as b bs =>
    obtain ⟨ha, has⟩ := Bool.and_eq_true_iff.1 hexact
    obtain ⟨h, hs⟩ := Bool.and_eq_true_iff.1 h
    rw [eq_of_agrees a b ha h, eq_of_agreesCells as bs has hs]
  case h_4 => exact absurd h Bool.false_ne_true

theorem eq_of_agreesFields : ∀ as bs : List (String × Option Value),
    comparesExactlyFields as bs = true → agreesFields as bs = true → as = bs := by
  intro as bs hexact h
  rw [agreesFields.eq_def] at h
  rw [comparesExactlyFields.eq_def] at hexact
  split at h
  case h_1 => rfl
  case h_2 m as n bs =>
    obtain ⟨hname, hs⟩ := Bool.and_eq_true_iff.1 h
    rw [eq_of_beq hname, eq_of_agreesFields as bs hexact hs]
  case h_3 m a as n b bs =>
    obtain ⟨ha, has⟩ := Bool.and_eq_true_iff.1 hexact
    obtain ⟨h, hs⟩ := Bool.and_eq_true_iff.1 h
    obtain ⟨hname, h⟩ := Bool.and_eq_true_iff.1 h
    rw [eq_of_beq hname, eq_of_agrees a b ha h, eq_of_agreesFields as bs has hs]
  case h_4 => exact absurd h Bool.false_ne_true

end

end Value

/-! ## Keys that find the row -/

/-- The values that a row satisfies are those that it has. -/
theorem valueAt_of_rowSatisfies {r : Row} (hfull : r.IsFull) {values : List (Node × Value)}
    (h : rowSatisfies r values = .ok true)
    (hexact : ∀ n v, (n, v) ∈ values → ∀ x, r.valueAt n = some x → x.comparesExactly v = true)
    {n : Node} {v : Value} (hlisted : listedValue values n = some v) : r.valueAt n = some v := by
  obtain ⟨⟨m, w⟩, hfind, rfl⟩ := Option.map_eq_some_iff.1 hlisted
  have hmem := List.mem_of_find?_eq_some hfind
  obtain rfl : m = n := by simpa using List.find?_some hfind
  obtain ⟨b, hb, hiff⟩ := rowSatisfies_spec hfull values
  rw [h] at hb
  obtain ⟨x, hx, hagrees⟩ := hiff.1 (Except.ok.inj hb).symm m w hmem
  have hvalue := Row.valueAt_eq_some.2 hx
  rw [hvalue, Value.eq_of_agrees x w (hexact m w hmem x hvalue) hagrees]

/-- A row that satisfies equalities has all keys that they bind, in the same order, where every
value that is compared is told from all others. Put into the session cache, the row goes under each
of them, and so it does under the keys of an operation whose filters these are. -/
theorem keys_of_satisfied (e : Entity) (use : CacheUse) {r : Row} (hfull : r.IsFull)
    {values : List (Node × Value)} (hsatisfied : rowSatisfies r values = .ok true)
    (hexact : ∀ n v, (n, v) ∈ values → ∀ x, r.valueAt n = some x → x.comparesExactly v = true) :
    let p : CachePolicy := ⟨use, some e⟩
    let bound := Facet.keys (p.facetsOfValues values)
    (∃ keys, p.keysOfRow r = .ok keys ∧ bound.Sublist keys) ∧
    (∀ c, ∃ b c', p.update c r = .ok (b, c') ∧ ∀ key ∈ bound, c'.rows[key]? = some r) ∧
    ∀ (c : Conditions) (prepare : ValuePreparer), c.equalities prepare = values →
      (c.keys p prepare).Sublist bound := by
  intro p bound
  have hbound : bound = e.shapeKeys (listedValue values) :=
    Entity.keys_facetsOfValues use values
  have hsublist : bound.Sublist (e.shapeKeys r.valueAt) := by
    rw [hbound]
    exact Entity.shapeKeys_sublist fun n v => valueAt_of_rowSatisfies hfull hsatisfied hexact
  refine ⟨⟨_, Entity.keysOfRow_of_full use hfull, hsublist⟩, ?_, ?_⟩
  · intro c
    obtain ⟨b, hupdate⟩ := Entity.update_of_full use c hfull
    refine ⟨b, _, hupdate, ?_⟩
    intro key hkey
    rw [SessionCache.rows_put, if_pos (hsublist.subset hkey)]
  · intro c prepare hvalues
    rw [Entity.keys_of_equalities, hvalues, ← hbound]
    split
    next => exact .refl bound
    next => exact List.nil_sublist bound

/-! ## A clip that is found by its time -/

namespace Clip

/-- A table whose rows are also found by a time. -/
def entity : Entity :=
  Entity.declare "Clip" "Clip" "clips"
    |>.cacheable true
    |>.partitionKey "id"
    |>.column "at" |>.unique
    |>.column "title"

/-- The primary key. -/
def idNode : Node := ⟨entity, ⟨0, by decide⟩⟩

/-- The unique column. -/
def atNode : Node := ⟨entity, ⟨1, by decide⟩⟩

/-- A time, with any version. -/
def time (version : BitVec 128) : Uuid :=
  ⟨0x67e5504410b1026f9247bb680e5fe0c8#128 ||| version <<< 76⟩

/-- A clip, with a time of version 4. -/
def row : Row :=
  .ofPairs [("id", some (.int 1)), ("at", some (.timeuuid (time 4))), ("title", some (.text "x"))]

/-- Fetches clips. -/
def policy : CachePolicy := ⟨.fetch, some entity⟩

theorem isFull_row : row.IsFull := Row.isFull_ofPairs _

/-- The times of a clip agree in any two versions. -/
theorem agrees_time :
    (Value.timeuuid (time 4)).agrees (.timeuuid (time 4)) = true ∧
      (Value.timeuuid (time 4)).agrees (.timeuuid (time 1)) = true := by
  rw [Value.agrees, Value.agrees]
  decide

/-- Asked for by its time, once more by its time, and by its primary key, the clip is found. -/
theorem found_by_time :
    ∃ keys, policy.keysOfRow row = .ok keys ∧
      ["clips.id==1",
        "clips.at==Timeuuid(CqlTimeuuid(67e55044-10b1-426f-9247-bb680e5fe0c8))"].Sublist keys := by
  have hcases : ∀ {P : Node → Value → Prop}, P atNode (.timeuuid (time 4)) → P idNode (.int 1) →
      ∀ n v, (n, v) ∈ [(atNode, Value.timeuuid (time 4)), (atNode, .timeuuid (time 4)),
        (idNode, .int 1)] → P n v := by
    intro P htime hid n v hv
    simp only [List.mem_cons, List.not_mem_nil, or_false, Prod.mk.injEq] at hv
    rcases hv with ⟨rfl, rfl⟩ | ⟨rfl, rfl⟩ | ⟨rfl, rfl⟩
    · exact htime
    · exact htime
    · exact hid
  obtain ⟨b, hb, hiff⟩ := rowSatisfies_spec isFull_row
    [(atNode, .timeuuid (time 4)), (atNode, .timeuuid (time 4)), (idNode, .int 1)]
  have hone : (Value.int 1).agrees (.int 1) = true := by
    rw [Value.agrees]
    rfl
  have hall : b = true := hiff.2 (hcases ⟨_, rfl, agrees_time.1⟩ ⟨_, rfl, hone⟩)
  rw [hall] at hb
  refine (keys_of_satisfied entity .fetch isFull_row hb (hcases ?_ ?_)).1
  · intro x hx
    obtain rfl : Value.timeuuid (time 4) = x := Option.some.inj hx
    simp [Value.comparesExactly]
  · intro x hx
    obtain rfl : Value.int 1 = x := Option.some.inj hx
    simp [Value.comparesExactly]

/-- A clip satisfies a filter with its time in another version, but has no key that this binds. -/
theorem not_found_by_version :
    row.IsFull ∧ rowSatisfies row [(atNode, .timeuuid (time 1))] = .ok true ∧
    ∃ key keys, Facet.keys (policy.facetsOfValues [(atNode, .timeuuid (time 1))]) = [key] ∧
      policy.keysOfRow row = .ok keys ∧ key ∉ keys := by
  obtain ⟨b, hb, hiff⟩ := rowSatisfies_spec isFull_row [(atNode, .timeuuid (time 1))]
  have hall : b = true := by
    refine hiff.2 fun n v hv => ?_
    rw [List.mem_singleton, Prod.mk.injEq] at hv
    rw [hv.1, hv.2]
    exact ⟨_, rfl, agrees_time.2⟩
  rw [hall] at hb
  exact ⟨isFull_row, hb, _, _, rfl, rfl, by decide +kernel⟩

end Clip

end WideRow
