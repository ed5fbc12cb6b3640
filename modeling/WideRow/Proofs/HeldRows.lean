import WideRow.Proofs.Calls
import WideRow.Proofs.Publication

/-!
# The rows that units hold

A row comes into a unit by being put there, and from a nested unit by its commit. All else that
changes a unit, a mark of a deleted row among it, takes rows away from it or leaves them alone. This
is said here of all units of a session at once (`Units.Holds`).

> `State.holds_commit`, `State.cache_commit`: to close a unit brings no row into the units that none
> of them held before, and into the session cache, while it is on, only rows that were held to be
> published.
-/

namespace WideRow

namespace Units

/-- A unit holds a row under a key, to be published or not. -/
def Holds (us : Units) (key : String) (r : Row) (promote : Bool) : Prop :=
  ∃ i u, us.get? i = some u ∧ u.entries[key]? = some (.row r promote)

variable {us : Units} {i : Nat} {key : String} {r : Row} {b : Bool}

/-- A row that is held after a unit was changed was held before, or stands in the changed unit. -/
theorem Holds.of_modify {f : UnitOfWork → UnitOfWork} (h : (us.modify i f).Holds key r b) :
    us.Holds key r b ∨ ∃ u, us.get? i = some u ∧ (f u).entries[key]? = some (.row r b) := by
  obtain ⟨j, u, hu, hentry⟩ := h
  obtain ⟨u₀, hu₀, rfl⟩ := exists_of_get?_modify hu
  by_cases hij : i = j
  · subst hij
    rw [if_pos rfl] at hentry
    exact .inr ⟨u₀, hu₀, hentry⟩
  · rw [if_neg hij] at hentry
    exact .inl ⟨j, u₀, hu₀, hentry⟩

/-- A change that gives a unit no row. -/
theorem Holds.of_modify_of_kept {f : UnitOfWork → UnitOfWork}
    (hf : ∀ u : UnitOfWork, (f u).entries[key]? = some (.row r b) →
      u.entries[key]? = some (.row r b)) (h : (us.modify i f).Holds key r b) :
    us.Holds key r b := by
  obtain h | ⟨u, hu, hentry⟩ := h.of_modify
  · exact h
  · exact ⟨i, u, hu, hf u hentry⟩

/-- What is held after a row was put was held before, or is that row. -/
theorem Holds.of_put {keys : List String} {after : Row} {promote : Bool}
    (h : (us.modify i (·.put keys (.row after promote))).Holds key r b) :
    us.Holds key r b ∨ key ∈ keys ∧ r = after ∧ b = promote := by
  obtain h | ⟨u, hu, hentry⟩ := h.of_modify
  · exact .inl h
  · rw [UnitOfWork.entries_put] at hentry
    split at hentry
    next hkey =>
      rw [Option.some.injEq, UnitEntry.row.injEq] at hentry
      exact .inr ⟨hkey, hentry.1.symm, hentry.2.symm⟩
    next => exact .inl ⟨i, u, hu, hentry⟩

/-- A tombstone is no row. -/
theorem Holds.of_put_deleted {keys : List String}
    (h : (us.modify i (·.put keys .deleted)).Holds key r b) : us.Holds key r b := by
  refine h.of_modify_of_kept fun u hentry => ?_
  rw [UnitOfWork.entries_put] at hentry
  split at hentry
  next => exact absurd hentry (by simp)
  next => exact hentry

theorem Holds.of_evictSchema {schema : String}
    (h : (us.modify i (·.evictSchema schema)).Holds key r b) : us.Holds key r b := by
  refine h.of_modify_of_kept fun u hentry => ?_
  rw [UnitOfWork.entries_evictSchema] at hentry
  split at hentry
  next => exact absurd hentry (by simp)
  next => exact hentry

/-- A closed unit holds nothing. -/
theorem Holds.of_closed {status : UnitStatus}
    (h : (us.modify i (·.closed status)).Holds key r b) : us.Holds key r b := by
  refine h.of_modify_of_kept fun u hentry => ?_
  rw [UnitOfWork.closed, Std.ExtTreeMap.getElem?_empty] at hentry
  exact absurd hentry (by simp)

/-- A unit that takes over what a nested one holds. -/
theorem Holds.of_absorb {nested : UnitOfWork} (h : (us.modify i (·.absorb nested)).Holds key r b) :
    us.Holds key r b ∨ nested.entries[key]? = some (.row r b) := by
  obtain h | ⟨u, hu, hentry⟩ := h.of_modify
  · exact .inl h
  · rw [UnitOfWork.entries_absorb, Option.or_eq_some_iff] at hentry
    obtain hentry | ⟨-, hentry⟩ := hentry
    · exact .inr hentry
    · exact .inl ⟨i, u, hu, hentry⟩

/-- A new unit holds nothing. -/
theorem Holds.of_begin {label : String} {parent : Option Nat}
    (h : (us.begin label parent).Holds key r b) : us.Holds key r b := by
  obtain ⟨j, u, hu, hentry⟩ := h
  have hlist : (us.list ++ [({ label, parent } : UnitOfWork)])[j]? = some u := hu
  rw [List.getElem?_append] at hlist
  split at hlist
  next => exact ⟨j, u, hlist, hentry⟩
  next =>
    obtain ⟨hlt, hget⟩ := List.getElem?_eq_some_iff.1 hlist
    rw [List.getElem_singleton] at hget
    have hnew : (∅ : Std.ExtTreeMap String UnitEntry compare)[key]? = some (.row r b) := by
      rw [← hget] at hentry
      exact hentry
    rw [Std.ExtTreeMap.getElem?_empty] at hnew
    exact absurd hnew (by simp)

end Units

/-! ## Closing units -/

section

variable {σ : Type} {w w₁ : State σ} {db : σ} {i : Nat} {key : String} {r : Row} {b : Bool}

/-- A statement does not change what units hold. -/
theorem State.Moved.holds_iff (h : w.Moved db w₁) :
    w₁.units.Holds key r b ↔ w.units.Holds key r b := by
  have hunit : ∀ {w w₁ : State σ} {db : σ}, w.Moved db w₁ → w.units.Holds key r b →
      w₁.units.Holds key r b := by
    rintro w w₁ db h ⟨i, u, hu, hentry⟩
    obtain ⟨u', hu', -, hentries⟩ := h.exists_unit hu
    exact ⟨i, u', hu', by rw [hentries]; exact hentry⟩
  exact ⟨hunit h.symm, hunit h⟩

/-- A row that is in the session cache after a unit was published was there before, or the unit held
it to be published. -/
theorem UnitOfWork.of_publish {u : UnitOfWork} {c : SessionCache}
    (h : (u.publish c).rows[key]? = some r) :
    c.rows[key]? = some r ∨ c.isEnabled = true ∧ u.entries[key]? = some (.row r true) := by
  by_cases henabled : c.isEnabled = true
  · rw [rows_publish henabled] at h
    cases hentry : u.entries[key]? with
    | none =>
      rw [hentry] at h
      exact .inl h
    | some entry =>
      rw [hentry] at h
      cases entry with
      | deleted => exact absurd h (by simp [UnitEntry.published])
      | row r' promote =>
        cases promote with
        | false => exact .inl h
        | true =>
          obtain rfl : r' = r := Option.some.inj h
          exact .inr ⟨henabled, rfl⟩
  · rw [publish, if_neg henabled] at h
    exact .inl h

/-- A commit hands rows on and makes none. -/
theorem State.holds_commit (h : (w.commit i).2.units.Holds key r b) : w.units.Holds key r b := by
  obtain ⟨-, hsame⟩ | ⟨u, hu, -, ⟨-, hclosed⟩ | ⟨p, -, hclosed⟩⟩ := w.commit_cases i
  · rwa [hsame] at h
  · rw [hclosed] at h
    exact h.of_closed
  · rw [hclosed] at h
    obtain h | hentry := h.of_absorb
    · exact h.of_closed
    · exact ⟨i, u, hu, hentry⟩

/-- A commit publishes rows of units that are to go on, into a cache that is switched on. -/
theorem State.cache_commit (h : (w.commit i).2.cache.rows[key]? = some r) :
    w.cache.rows[key]? = some r ∨ w.cache.isEnabled = true ∧ w.units.Holds key r true := by
  obtain ⟨-, hsame⟩ | ⟨u, hu, -, ⟨-, hclosed⟩ | ⟨p, -, hclosed⟩⟩ := w.commit_cases i
  · rw [hsame] at h
    exact .inl h
  · rw [hclosed] at h
    exact (UnitOfWork.of_publish h).imp_right fun ⟨henabled, hentry⟩ =>
      ⟨henabled, i, u, hu, hentry⟩
  · rw [hclosed] at h
    exact .inl h

theorem State.isEnabled_commit (w : State σ) (i : Nat) :
    (w.commit i).2.cache.isEnabled = w.cache.isEnabled := by
  obtain ⟨-, hsame⟩ | ⟨u, -, -, ⟨-, hclosed⟩ | ⟨p, -, hclosed⟩⟩ := w.commit_cases i
  · rw [hsame]
  · rw [hclosed]
    exact (u.sameSettings_publish w.cache).isEnabled
  · rw [hclosed]

/-- An abort makes no rows. -/
theorem State.holds_abort (h : (w.abort i).2.units.Holds key r b) : w.units.Holds key r b := by
  obtain ⟨-, hsame⟩ | ⟨u, -, -, hclosed⟩ := w.abort_cases i
  · rwa [hsame] at h
  · rw [hclosed] at h
    exact h.of_closed

end

end WideRow
