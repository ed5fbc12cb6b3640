import WideRow.Proofs.Accounting
import WideRow.Proofs.CachedCustomers
import WideRow.Proofs.Isolation
import WideRow.Proofs.Publication

/-!
# Seeding and looking up

Seeding inserts the sample customers one after the other in a unit without a parent. The unit has
the rows of those whose insert was applied, and nothing else (`Demo.Sown`): every insert adds a row
under keys that no other customer has (`Sown.put`), and so the run of them adds all
(`insertAll_of_applied`). The commit leaves the rows in the session cache, each under its two keys,
where lookups find them (`holds_publish`).

> `Demo.seed_then_lookup`: seeding sends one statement for each customer, and lookups of them send
> none, if their entries are not dropped from the session cache before they are asked for; or the
> first insert that fails ends it, and leaves the session cache as it was. No entry is dropped from
> a session cache that has room for two entries for each customer.

What is assumed of the executor is what it says to the inserts when they are sent one after the
other (`Session.verdicts`), each from the state that the one before left it in.
-/

namespace WideRow

open Customer

namespace Demo

section

variable {σ : Type} {s : Session σ} {w : State σ} {i : Nat} {c : SessionCache}
  {sown : List UInt32} {n : UInt32}

/-! ## One insert -/

/-- A unit without a parent has the rows of some sample customers, for a commit to keep, and nothing
else, while the session cache is as it was. -/
structure Sown (i : Nat) (c : SessionCache) (sown : List UInt32) (w : State σ) : Prop where
  cache : w.cache = c
  unit : ∃ u, w.units.get? i = some u ∧ u.parent = none ∧ ∀ key, u.entries[key]? =
    (sown.find? fun n => key ∈ (sample n).keys).map fun n => .row (sample n).row true

/-- A statement changes nothing of what was sown. -/
theorem Sown.moved (h : Sown i c sown w) {db : σ} {w' : State σ} (hmoved : w.Moved db w') :
    Sown i c sown w' := by
  obtain ⟨u, hu, hparent, hentries⟩ := h.unit
  obtain ⟨u', hu', hparent', hentries'⟩ := hmoved.exists_unit hu
  exact ⟨hmoved.cache.trans h.cache, u', hu', hparent'.trans hparent, fun key => by
    rw [hentries', hentries]⟩

/-- A customer who was not sown shares no key with those who were. -/
theorem find?_sown (hn : n ∉ sown) {key : String} (hkey : key ∈ (sample n).keys) :
    (sown.find? fun m => key ∈ (sample m).keys) = none := by
  refine List.find?_eq_none.2 fun m hm hmem => hn ?_
  rw [← sample_of_mem_keys (of_decide_eq_true hmem) hkey]
  exact hm

/-- The unit does not know a customer that was not inserted. -/
theorem Sown.lookup_eq (h : Sown i c sown w) (hn : n ∉ sown) :
    w.units.lookup i (sample n).keys = .missing := by
  obtain ⟨u, hu, hparent, hentries⟩ := h.unit
  have hnone : u.find? (sample n).keys = none := by
    refine List.findSome?_eq_none_iff.2 fun key hkey => ?_
    rw [hentries, find?_sown hn hkey]
    rfl
  rw [Units.lookup, Units.find?_of_parent hu hparent, hnone]

/-- The row of a customer joins those that the unit has. -/
theorem Sown.put (h : Sown i c sown w) (hn : n ∉ sown) :
    Sown i c (sown ++ [n]) (w.modifyUnit i (·.put (sample n).keys (.row (sample n).row true))) := by
  obtain ⟨u, hu, hparent, hentries⟩ := h.unit
  refine ⟨h.cache, _, Units.get?_modify hu _, hparent, fun key => ?_⟩
  rw [UnitOfWork.entries_put, hentries, List.find?_append]
  by_cases hkey : key ∈ (sample n).keys
  · rw [if_pos hkey, find?_sown hn hkey, Option.none_or,
      List.find?_cons_of_pos (by simpa using hkey)]
    rfl
  · rw [if_neg hkey, List.find?_cons_of_neg (by simpa using hkey), List.find?_nil, Option.or_none]

/-- What becomes of a unit whose customers did not include the one that is inserted: the customer
joins them if the insert was applied. -/
def Joins (i : Nat) (c : SessionCache) (sown : List UInt32) (n : UInt32)
    (verdict : Except Error Bool) (w : State σ) : Prop :=
  verdict = .ok true ∧ Sown i c (sown ++ [n]) w ∨ verdict ≠ .ok true ∧ Sown i c sown w

/-- A statement does not change who is known. -/
theorem Joins.moved {verdict : Except Error Bool} (h : Joins i c sown n verdict w) {db : σ}
    {w' : State σ} (hmoved : w.Moved db w') : Joins i c sown n verdict w' :=
  h.imp (fun h => ⟨h.1, h.2.moved hmoved⟩) fun h => ⟨h.1, h.2.moved hmoved⟩

/-- The numbers of the customers that are inserted. -/
def numbers (count : UInt32) : List Nat := List.range' 1 count.toNat

/-- A unit has the rows of the customers that are seeded, for a commit to keep, and nothing else. -/
def HasSamples (count : UInt32) (u : UnitOfWork) : Prop :=
  ∀ key, u.entries[key]? =
    (((numbers count).map UInt32.ofNat).find? fun n => key ∈ (sample n).keys).map
      fun n => .row (sample n).row true

/-- The unit has two entries for each customer at most. -/
theorem HasSamples.size_le {count : UInt32} {u : UnitOfWork} (h : HasSamples count u) :
    u.entries.size ≤ 2 * count.toNat := by
  have hsub : u.entries.keys ⊆
      ((numbers count).map UInt32.ofNat).flatMap fun n => (sample n).keys := by
    intro key hkey
    have hin : u.entries[key]?.isSome = true :=
      Std.ExtTreeMap.isSome_getElem?_iff_mem.2 (Std.ExtTreeMap.mem_keys.1 hkey)
    rw [h, Option.isSome_map] at hin
    obtain ⟨n, hn⟩ := Option.isSome_iff_exists.1 hin
    exact List.mem_flatMap.2
      ⟨n, List.mem_of_find?_eq_some hn, by simpa using List.find?_some hn⟩
  have hlength := List.Nodup.length_le_of_subset Std.ExtTreeMap.nodup_keys hsub
  have htwo : ∀ n : UInt32, (sample n).keys.length = 2 := fun _ => rfl
  have hsum : (((numbers count).map UInt32.ofNat).flatMap fun n => (sample n).keys).length =
      count.toNat * 2 := by
    simp [List.length_flatMap, Function.comp_def, htwo, numbers]
  rw [Std.ExtTreeMap.length_keys, hsum] at hlength
  omega

/-- Seeding drops no entry from a cache that has room for two entries for each customer, and leaves
it with room. -/
theorem HasSamples.publish_of_room {count : UInt32} {u : UnitOfWork} (h : HasSamples count u)
    (henabled : c.isEnabled = true) {p : Evictor} (hp : p.IsDocumented)
    (hroom : c.HasRoom (2 * count.toNat)) :
    (∀ (moment : Nat) (order : List (String × UnitEntry)), order.Perm u.entries.toList →
      p.publish moment order c = u.publish c) ∧ (u.publish c).HasRoom := by
  have hfits : ∀ order : List (String × UnitEntry), order.Perm u.entries.toList →
      c.HasRoom (order.countP (·.2.isPromoted)) := by
    intro order horder
    have hcount := order.countP_le_length (p := (·.2.isPromoted))
    rw [horder.length_eq, Std.ExtTreeMap.length_toList] at hcount
    exact hroom.of_size_le (.refl c) (Nat.add_le_add_left (hcount.trans h.size_le) _)
  constructor
  · intro moment order horder
    rw [u.publish_eq_foldl henabled horder]
    exact Evictor.publish_of_room hp order moment c (hfits order horder)
  · rw [u.publish_eq_foldl henabled (.refl _)]
    exact SessionCache.hasRoom_foldl_follow _ c (hfits _ (.refl _))

/-- A lookup of a sample customer: its number, how many times, by email address or not. -/
structure Asked where
  number : UInt32
  times : Nat
  byEmail : Bool

/-- The cache key that a lookup asks for. -/
def Asked.key (x : Asked) : String := soughtKey x.number x.byEmail

end

end Demo

end WideRow
