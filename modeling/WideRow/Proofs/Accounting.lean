import Mathlib.Algebra.BigOperators.Ring.Finset
import WideRow.Proofs.Charges

/-!
# The books of a run

A unit counts what is spent in it, and takes over what the units have counted that were committed
into it. So the counts of a unit are those of the operations that ran in it, or in a unit that was
committed into it, or in one that was committed into such a unit, and so on: in the units of which
it is an heir (`Units.heirs`). Who was committed into whom is read off the statuses of units, which
are as the commits and aborts of the run say (`heir?_stateAfter`). What each operation of a run came
to is its `Booking`.

> `accounts_balance`: after an orderly run the statements that the session has counted are those
> that its executor was given, and every unit has counted the statements and the lookups of the
> operations whose units it is an heir of. A lookup is answered by a cache, with one hit and no
> statement, or sends one statement, without a hit.

A run is orderly if operations run in open units and a nested unit is closed while its parent is
open.
-/

namespace WideRow

/-! ## Heirs -/

/-- The unit that a unit was committed into. -/
def UnitAccount.heir? (a : UnitAccount) : Option Nat :=
  if a.status = .committed then a.parent else none

namespace Units

/-- The unit that a unit was committed into. -/
def heir? (us : Units) (j : Nat) : Option Nat := (us.get? j).bind fun u => u.account.heir?

/-- The units that have the counts of a unit by now: itself, and if it was committed into another
one, the heirs of that one. -/
def heirs (us : Units) (j : Nat) : List Nat :=
  match us.heir? j with
  | none => [j]
  | some p => if p < j then j :: us.heirs p else [j]
termination_by j

variable {us us' : Units} {i j k p : Nat}

/-- A unit without an heir answers for itself. -/
theorem heirs_of_none (h : us.heir? j = none) : us.heirs j = [j] := by
  rw [heirs, h]

/-- The statements of a unit are also those of its heir, and of the heirs of that one. -/
theorem heirs_of_some (h : us.heir? j = some p) (hlt : p < j) : us.heirs j = j :: us.heirs p := by
  rw [heirs, h]
  exact if_pos hlt

theorem heirs_of_not_lt (h : us.heir? j = some p) (hlt : ¬ p < j) : us.heirs j = [j] := by
  rw [heirs, h]
  exact if_neg hlt

/-- Only who is whose heir decides which units a statement falls to. -/
theorem heirs_congr (h : ∀ j, us'.heir? j = us.heir? j) (j : Nat) : us'.heirs j = us.heirs j := by
  -- an heir was begun before, so heirs are followed by smaller numbers
  induction j using Nat.strongRecOn with
  | ind j ih =>
    cases hj : us.heir? j with
    | none => rw [heirs_of_none hj, heirs_of_none ((h j).trans hj)]
    | some p =>
      by_cases hlt : p < j
      · rw [heirs_of_some hj hlt, heirs_of_some ((h j).trans hj) hlt, ih p hlt]
      · rw [heirs_of_not_lt hj hlt, heirs_of_not_lt ((h j).trans hj) hlt]

/-- Heirs were begun earlier. -/
theorem le_of_mem_heirs (h : i ∈ us.heirs j) : i ≤ j := by
  induction j using Nat.strongRecOn with
  | ind j ih =>
    cases hj : us.heir? j with
    | none =>
      rw [heirs_of_none hj, List.mem_singleton] at h
      exact Nat.le_of_eq h
    | some p =>
      by_cases hlt : p < j
      · rw [heirs_of_some hj hlt, List.mem_cons] at h
        obtain rfl | h := h
        · exact Nat.le_refl _
        · exact Nat.le_trans (ih p hlt h) (Nat.le_of_lt hlt)
      · rw [heirs_of_not_lt hj hlt, List.mem_singleton] at h
        exact Nat.le_of_eq h

/-- Of the heirs of a unit only the last one has none itself. -/
theorem eq_of_mem_heirs (hi : us.heir? i = none) (hk : us.heir? k = none) (hmem : i ∈ us.heirs j)
    (hmem' : k ∈ us.heirs j) : i = k := by
  induction j using Nat.strongRecOn with
  | ind j ih =>
    cases hj : us.heir? j with
    | none =>
      rw [heirs_of_none hj, List.mem_singleton] at hmem hmem'
      rw [hmem, hmem']
    | some p =>
      by_cases hlt : p < j
      · rw [heirs_of_some hj hlt, List.mem_cons] at hmem hmem'
        obtain rfl | hmem := hmem
        · cases hi.symm.trans hj
        obtain rfl | hmem' := hmem'
        · cases hk.symm.trans hj
        exact ih p hlt hmem hmem'
      · rw [heirs_of_not_lt hj hlt, List.mem_singleton] at hmem hmem'
        rw [hmem, hmem']

/-- Where a unit is committed into its parent, the parent becomes an heir of the units of which the
unit is one. -/
theorem mem_heirs_of_committed (hlt : p < k) (hk : us.heir? k = none) (hp : us.heir? p = none)
    (h : ∀ j, us'.heir? j = if j = k then some p else us.heir? j) (i j : Nat) :
    i ∈ us'.heirs j ↔ i ∈ us.heirs j ∨ i = p ∧ k ∈ us.heirs j := by
  induction j using Nat.strongRecOn with
  | ind j ih =>
    by_cases hjk : j = k
    · subst hjk
      have hp' : us'.heir? p = none := by
        rw [h, if_neg (Nat.ne_of_lt hlt), hp]
      have hj' : us'.heir? j = some p := by
        rw [h, if_pos rfl]
      rw [heirs_of_some hj' hlt, heirs_of_none hp', heirs_of_none hk]
      simp
    · have hj' : us'.heir? j = us.heir? j := by
        rw [h, if_neg hjk]
      cases hj : us.heir? j with
      | none =>
        rw [heirs_of_none hj, heirs_of_none (hj'.trans hj)]
        simp [Ne.symm hjk]
      | some q =>
        by_cases hqj : q < j
        · rw [heirs_of_some hj hqj, heirs_of_some (hj'.trans hj) hqj, List.mem_cons, List.mem_cons,
            List.mem_cons, ih q hqj]
          simp only [Ne.symm hjk, false_or, or_assoc]
        · rw [heirs_of_not_lt hj hqj, heirs_of_not_lt (hj'.trans hj) hqj]
          simp [Ne.symm hjk]

end Units

/-- A unit is in use. -/
def Units.isOpen (us : Units) (i : Nat) : Bool := (us.get? i).any fun u => u.status = .opened

theorem Units.isOpen_iff {us : Units} {i : Nat} :
    us.isOpen i = true ↔ ∃ u, us.get? i = some u ∧ u.status = .opened := by
  unfold isOpen
  rw [Option.any_eq_true]
  simp only [decide_eq_true_eq]

/-! ## Bookings -/

/-- What one operation of a run came to: where it ran, how many statements it sent, and for a
lookup, whether a cache answered it, or both of them missed it. -/
structure Booking where
  unit : Option Nat
  sent : Nat
  answered : Bool
  missed : Bool

/-- What an operation counts for the cache. -/
def Booking.cache (b : Booking) : Int :=
  (if b.answered then 1 else 0) - if b.missed then 1 else 0

/-- The balance of a unit at the caches is what they answered less what they missed. -/
theorem Booking.sum_cache : ∀ bs : List Booking,
    (bs.map cache).sum = (bs.countP (·.answered) : Int) - bs.countP (·.missed)
  | [] => rfl
  | b :: bs => by
    rw [List.map_cons, List.sum_cons, sum_cache bs, List.countP_cons, List.countP_cons, cache]
    cases b.answered <;> cases b.missed <;> simp <;> omega

/-- The bookings of operations that ran in units of which a unit is an heir. -/
def Units.share (us : Units) (i : Nat) (bs : List Booking) : List Booking :=
  bs.filter fun b => b.unit.any fun j => (us.heirs j).contains i

section

variable {σ : Type} (s : Session σ) (unit : Option Nat) (w : State σ)

/-- A cache answers a call: it is a lookup, whose statement was built. -/
def Call.isAnswered : Call → Bool
  | lookup q => (q.single.statement s.prepare).isOk && (q.single.plan s.prepare).IsAnswered unit w
  | _ => false

/-- Both caches miss a call: it is a lookup, whose statement was built. -/
def Call.isMissed : Call → Bool
  | lookup q =>
    (q.single.statement s.prepare).isOk && (q.single.plan s.prepare).IsMissedByBoth unit w
  | _ => false

/-- What a call comes to, by a count of the statements that the executor was given. -/
def Call.booking (given : σ → Nat) (c : Call) : Booking where
  unit
  sent := given (c.run s unit w).2.database - given w.database
  answered := c.isAnswered s unit w
  missed := c.isMissed s unit w

end

namespace SessionStep

variable {σ : Type} (s : Session σ) (given : σ → Nat)

/-- The bookings of a run, the latest first. -/
def bookings (w : State σ) : List SessionStep → List Booking
  | [] => []
  | call unit c :: past =>
    c.booking s unit (stateAfter s w past) given :: bookings w past
  | keep _ _ :: past | begin _ _ :: past | commit _ :: past | abort _ :: past => bookings w past

/-- A step is in order: an operation runs in an open unit if in any, a nested unit is begun in a
unit that there is, and a unit is not committed or aborted once its parent is closed. -/
def isOrderly (w : State σ) : SessionStep → Bool
  | call (some i) _ => w.units.isOpen i
  | begin _ (some p) => (w.units.get? p).isSome
  | commit i | abort i =>
    !w.units.isOpen i || ((w.units.get? i).bind (·.parent)).all w.units.isOpen
  | call none _ | keep _ _ | begin _ none => true

/-- All steps of a run are in order. -/
def allOrderly (w : State σ) : List SessionStep → Bool
  | [] => true
  | x :: past => x.isOrderly (stateAfter s w past) && allOrderly w past

end SessionStep

/-! ## Who was committed -/

/-- The parent of a unit, and whether the unit is in use. -/
structure UnitRole where
  parent : Option Nat
  status : UnitStatus
  deriving DecidableEq

namespace UnitRole

/-- A unit that is not in use any more stays as it was closed. -/
def close (r : UnitRole) (status : UnitStatus) : UnitRole :=
  if r.status = .opened then { r with status } else r

/-- The unit that a unit was committed into. -/
def heir? (r : UnitRole) : Option Nat := if r.status = .committed then r.parent else none

end UnitRole

/-- The role of a unit, as it stands in the books. -/
def UnitAccount.role (a : UnitAccount) : UnitRole := ⟨a.parent, a.status⟩

/-- The roles of units by the steps of a run: a unit is begun in its parent, and the first commit or
abort of the unit closes it. -/
def SessionStep.roles : List SessionStep → List UnitRole
  | [] => []
  | begin _ parent :: past => roles past ++ [⟨parent, .opened⟩]
  | commit i :: past => (roles past).modify i (·.close .committed)
  | abort i :: past => (roles past).modify i (·.close .aborted)
  | call _ _ :: past | keep _ _ :: past => roles past

/-! ## Balances -/

/-- The account of a unit after it was closed. -/
def UnitAccount.closed (a : UnitAccount) (status : UnitStatus) : UnitAccount :=
  { a with status, commitHooks := [], abortHooks := [] }

/-- The account of a unit after a nested one was folded into it. -/
def UnitAccount.absorb (a nested : UnitAccount) : UnitAccount :=
  { a with
    cacheOperations := a.cacheOperations + nested.cacheOperations
    databaseOperations := a.databaseOperations + nested.databaseOperations
    commitHooks := a.commitHooks ++ nested.commitHooks }

namespace Units

variable {us us' : Units} {i j k p : Nat} {a : UnitAccount} {b : Booking} {bs : List Booking}
  {count : UnitAccount → Int} {amount : Booking → Int}

/-- The heir of a unit shows in the account of the unit. -/
theorem heir?_eq (us : Units) (j : Nat) : us.heir? j = us.accounts[j]?.bind UnitAccount.heir? := by
  unfold heir? accounts
  rw [List.getElem?_map]
  show us.list[j]?.bind _ = _
  cases us.list[j]? <;> rfl

theorem heir?_of_account (h : us.accounts[j]? = some a) : us.heir? j = a.heir? := by
  rw [heir?_eq, h]
  rfl

/-- An open unit has no heir. -/
theorem heir?_of_opened (h : us.accounts[j]? = some a) (hopen : a.status = .opened) :
    us.heir? j = none := by
  rw [heir?_of_account h, UnitAccount.heir?, hopen]
  rfl

/-- One account that changes is the only one whose heir may change. -/
theorem heir?_modify {g : UnitAccount → UnitAccount}
    (haccounts : us'.accounts = us.accounts.modify k g) (ha : us.accounts[k]? = some a) (j : Nat) :
    us'.heir? j = if j = k then (g a).heir? else us.heir? j := by
  rw [heir?_eq, heir?_eq, haccounts, List.getElem?_modify]
  by_cases hjk : j = k
  · rw [if_pos hjk, hjk, ha]
    simp
  · rw [if_neg hjk]
    simp [Ne.symm hjk]

theorem exists_of_accounts_modify {accounts : List UnitAccount} {g : UnitAccount → UnitAccount}
    {a' : UnitAccount} (h : (accounts.modify k g)[i]? = some a') :
    ∃ a, accounts[i]? = some a ∧ a' = if i = k then g a else a := by
  rw [List.getElem?_modify] at h
  cases ha : accounts[i]? with
  | none => simp [ha] at h
  | some a =>
    rw [ha] at h
    refine ⟨a, rfl, ?_⟩
    by_cases hik : i = k
    · simpa [hik] using h.symm
    · simpa [hik, Ne.symm hik] using h.symm

/-- Parents were begun before their units. -/
def HasOlderParents (accounts : List UnitAccount) : Prop :=
  ∀ (i : Nat) (a : UnitAccount) (p : Nat), accounts[i]? = some a → a.parent = some p → p < i

/-- Parents do not change, so they stay the older ones. -/
theorem HasOlderParents.modify {accounts : List UnitAccount} (h : HasOlderParents accounts)
    {g : UnitAccount → UnitAccount} (hg : ∀ a, (g a).parent = a.parent) (k : Nat) :
    HasOlderParents (accounts.modify k g) := by
  intro i a p ha hparent
  obtain ⟨a₀, ha₀, rfl⟩ := exists_of_accounts_modify ha
  refine h i a₀ p ha₀ ?_
  by_cases hik : i = k
  · rwa [if_pos hik, hg] at hparent
  · rwa [if_neg hik] at hparent

theorem HasOlderParents.concat {accounts : List UnitAccount} (h : HasOlderParents accounts)
    {a : UnitAccount} (ha : ∀ p, a.parent = some p → p < accounts.length) :
    HasOlderParents (accounts ++ [a]) := by
  intro i a' p ha' hparent
  rw [List.getElem?_append] at ha'
  split at ha'
  next => exact h i a' p ha' hparent
  next hi =>
    rw [List.getElem?_singleton] at ha'
    split at ha'
    next =>
      obtain rfl := Option.some.inj ha'
      exact Nat.lt_of_lt_of_le (ha p hparent) (Nat.le_of_not_lt hi)
    next => exact absurd ha' (by simp)

/-- Only who is whose heir decides the share of a unit. -/
theorem share_congr (h : ∀ j, us'.heir? j = us.heir? j) (i : Nat) (bs : List Booking) :
    us'.share i bs = us.share i bs := by
  unfold share
  simp only [heirs_congr h]

/-- What the operations came to in whose units a unit is an heir. -/
def total (us : Units) (bs : List Booking) (amount : Booking → Int) (i : Nat) : Int :=
  ((us.share i bs).map amount).sum

/-- Every unit has counted what the operations came to in whose units it is an heir. -/
def Balances (us : Units) (bs : List Booking) (count : UnitAccount → Int)
    (amount : Booking → Int) : Prop :=
  ∀ i a, us.accounts[i]? = some a → count a = us.total bs amount i

/-- The books stay balanced where both sides change by the same. -/
theorem Balances.change {bs' : List Booking} (h : us.Balances bs count amount) (δ : Nat → Int)
    (hcount : ∀ i a', us'.accounts[i]? = some a' →
      ∃ a, us.accounts[i]? = some a ∧ count a' = count a + δ i)
    (htotal : ∀ i, us'.total bs' amount i = us.total bs amount i + δ i) :
    us'.Balances bs' count amount := by
  intro i a' ha'
  obtain ⟨a, ha, hcounted⟩ := hcount i a' ha'
  rw [hcounted, htotal, h i a ha]

/-- The balance is one of accounts. -/
theorem Balances.of_accounts (h : us.Balances bs count amount)
    (haccounts : us'.accounts = us.accounts) : us'.Balances bs count amount := by
  have hheirs : ∀ j, us'.heir? j = us.heir? j := by
    intro j
    rw [heir?_eq, haccounts, ← heir?_eq]
  refine h.change (fun _ => 0) (fun i a ha => ?_) fun i => ?_
  · exact ⟨a, by rwa [← haccounts], (Int.add_zero _).symm⟩
  · rw [total, share_congr hheirs, Int.add_zero, total]

/-- An operation outside of units is nothing to any unit. -/
theorem Balances.book_outside (h : us.Balances bs count amount) (hb : b.unit = none) :
    us.Balances (b :: bs) count amount := by
  intro i a ha
  have hshare : us.share i (b :: bs) = us.share i bs := by
    simp [share, hb]
  rw [total, hshare]
  exact h i a ha

/-- What an operation in an open unit comes to is charged to this unit. -/
theorem Balances.book_inside {cache database : Int} (h : us.Balances bs count amount)
    (hb : b.unit = some k) (hk : us.heir? k = none)
    (haccounts : us'.accounts = us.accounts.modify k (·.charge cache database))
    (hcharge : ∀ a : UnitAccount, count (a.charge cache database) = count a + amount b) :
    us'.Balances (b :: bs) count amount := by
  have hheirs : ∀ j, us'.heir? j = us.heir? j := by
    intro j
    rw [heir?_eq, heir?_eq, haccounts, List.getElem?_modify]
    cases us.accounts[j]? with
    | none => rfl
    | some a => by_cases hkj : k = j <;> simp [hkj, UnitAccount.heir?, UnitAccount.charge]
  -- the unit itself is the only heir of what is spent in it, as long as it is open
  refine h.change (fun i => if i = k then amount b else 0) (fun i a' ha' => ?_) fun i => ?_
  · rw [haccounts] at ha'
    obtain ⟨a, ha, rfl⟩ := exists_of_accounts_modify ha'
    refine ⟨a, ha, ?_⟩
    by_cases hik : i = k
    · rw [if_pos hik, if_pos hik, hcharge]
    · rw [if_neg hik, if_neg hik, Int.add_zero]
  · have hmine : (b.unit.any fun j => (us.heirs j).contains i) = decide (i = k) := by
      rw [hb, Option.any_some, heirs_of_none hk]
      simp
    rw [total, share_congr hheirs, share, List.filter_cons, hmine]
    by_cases hik : i = k
    · rw [if_pos (decide_eq_true hik), if_pos hik, List.map_cons, List.sum_cons, Int.add_comm]
      rfl
    · rw [if_neg (by simpa using hik), if_neg hik, Int.add_zero]
      rfl

/-- To book a call of an open unit is to charge its account: nobody inherits from an open unit, so
the booking falls to it alone. -/
theorem Balances.book {cache database : Int} (h : us.Balances bs count amount)
    (hopen : ∀ k, b.unit = some k → ∃ a, us.accounts[k]? = some a ∧ a.status = .opened)
    (haccounts : us'.accounts = b.unit.elim us.accounts fun k =>
      us.accounts.modify k (·.charge cache database))
    (hcharge : ∀ a : UnitAccount, count (a.charge cache database) = count a + amount b) :
    us'.Balances (b :: bs) count amount := by
  cases hb : b.unit with
  | none =>
    rw [hb] at haccounts
    exact (h.book_outside hb).of_accounts haccounts
  | some k =>
    rw [hb] at haccounts
    obtain ⟨a, ha, hstatus⟩ := hopen k hb
    exact h.book_inside hb (heir?_of_opened ha hstatus) haccounts hcharge

/-- A new unit has nothing to count. -/
theorem Balances.begin (h : us.Balances bs count amount) (hopen : a.status = .opened)
    (hcount : count a = 0) (haccounts : us'.accounts = us.accounts ++ [a])
    (hbooked : ∀ b ∈ bs, ∀ j, b.unit = some j → j < us.accounts.length) :
    us'.Balances bs count amount := by
  have hheirs : ∀ j, us'.heir? j = us.heir? j := by
    intro j
    rw [heir?_eq, heir?_eq, haccounts, List.getElem?_append]
    by_cases hj : j < us.accounts.length
    · rw [if_pos hj]
    · rw [if_neg hj, List.getElem?_eq_none (Nat.le_of_not_lt hj), List.getElem?_singleton]
      split
      next => simp [UnitAccount.heir?, hopen]
      next => rfl
  intro i a' ha'
  rw [total, share_congr hheirs]
  rw [haccounts, List.getElem?_append] at ha'
  split at ha'
  next => exact h i a' ha'
  next hi =>
    -- all operations ran in older units, whose heirs are older still
    have hnone : us.share i bs = [] := by
      refine List.filter_eq_nil_iff.2 fun b hb hmem => ?_
      obtain ⟨j, hj, hij⟩ := (Option.any_eq_true ..).1 hmem
      have hle := le_of_mem_heirs (List.contains_iff_mem.1 hij)
      exact hi (Nat.lt_of_le_of_lt hle (hbooked b hb j hj))
    rw [List.getElem?_singleton] at ha'
    split at ha'
    next =>
      rw [← Option.some.inj ha', hnone, hcount]
      rfl
    next => exact absurd ha' (by simp)

/-- A unit that is closed without an heir keeps what it has counted. -/
theorem Balances.close {status : UnitStatus} (h : us.Balances bs count amount)
    (ha : us.accounts[k]? = some a) (hkept : (a.closed status).heir? = a.heir?)
    (hcount : ∀ a : UnitAccount, count (a.closed status) = count a)
    (haccounts : us'.accounts = us.accounts.modify k (·.closed status)) :
    us'.Balances bs count amount := by
  have hheirs : ∀ j, us'.heir? j = us.heir? j := by
    intro j
    rw [heir?_modify haccounts ha]
    by_cases hjk : j = k
    · rw [if_pos hjk, hkept, hjk, heir?_of_account ha]
    · rw [if_neg hjk]
  refine h.change (fun _ => 0) (fun i a' ha' => ?_) fun i => ?_
  · rw [haccounts] at ha'
    obtain ⟨a₀, ha₀, rfl⟩ := exists_of_accounts_modify ha'
    refine ⟨a₀, ha₀, ?_⟩
    by_cases hik : i = k
    · rw [if_pos hik, hcount, Int.add_zero]
    · rw [if_neg hik, Int.add_zero]
  · rw [total, share_congr hheirs, Int.add_zero, total]

/-- The sum over a list's items of two kinds, none of which is of both. -/
theorem sum_filter_or {β : Type} {P Q : β → Bool} {f : β → Int} :
    ∀ {l : List β}, (∀ b ∈ l, P b = true → Q b = true → False) →
      ((l.filter fun b => P b || Q b).map f).sum =
        ((l.filter P).map f).sum + ((l.filter Q).map f).sum
  | [], _ => rfl
  | b :: l, h => by
    have ih := sum_filter_or (f := f) fun b' hb' => h b' (List.mem_cons_of_mem _ hb')
    have hb := h b (List.mem_cons_self ..)
    cases hP : P b <;> cases hQ : Q b
    · simp [hP, hQ, ih]
    · simp [hP, hQ, ih]; omega
    · simp [hP, hQ, ih]; omega
    · exact (hb hP hQ).elim

/-- Where a unit is committed into its parent, it alone gets an heir. -/
theorem heir?_committed {aₚ : UnitAccount} (hpk : p ≠ k) (ha : us.accounts[k]? = some a)
    (hparent : a.parent = some p) (hp : us.accounts[p]? = some aₚ)
    (haccounts : us'.accounts =
      (us.accounts.modify k (·.closed .committed)).modify p (·.absorb a)) (j : Nat) :
    us'.heir? j = if j = k then some p else us.heir? j := by
  rw [heir?_eq, haccounts, List.getElem?_modify, List.getElem?_modify]
  by_cases hjk : j = k
  · subst hjk
    simp [ha, hpk, UnitAccount.heir?, UnitAccount.closed, hparent]
  · rw [if_neg hjk, heir?_eq]
    by_cases hpj : p = j
    · subst hpj
      simp [hp, Ne.symm hjk, UnitAccount.heir?, UnitAccount.absorb]
    · simp [Ne.symm hjk, hpj]

/-- Where a unit is committed into its parent, the parent becomes an heir of what was spent in the
unit. -/
theorem total_committed (hlt : p < k) (hk : us.heir? k = none) (hp : us.heir? p = none)
    (hheirs : ∀ j, us'.heir? j = if j = k then some p else us.heir? j) (i : Nat) :
    us'.total bs amount i =
      us.total bs amount i + if i = p then us.total bs amount k else 0 := by
  have hmem := mem_heirs_of_committed hlt hk hp hheirs i
  by_cases hip : i = p
  · subst hip
    have hshare : us'.share i bs = bs.filter fun b =>
        (b.unit.any fun j => (us.heirs j).contains i) ||
          b.unit.any fun j => (us.heirs j).contains k := by
      refine List.filter_congr fun b _ => ?_
      cases b.unit with
      | none => rfl
      | some j =>
        rw [Option.any_some, Option.any_some, Option.any_some, Bool.eq_iff_iff]
        simp [hmem j]
    rw [if_pos rfl, total, hshare, sum_filter_or]
    · rfl
    · -- an operation whose unit had both as heirs ran in one unit that has two last heirs
      intro b _ hi' hk'
      obtain ⟨j, hj, hij⟩ := (Option.any_eq_true ..).1 hi'
      obtain ⟨j', hj', hkj⟩ := (Option.any_eq_true ..).1 hk'
      obtain rfl : j = j' := Option.some.inj (hj.symm.trans hj')
      exact Nat.ne_of_lt hlt (eq_of_mem_heirs hp hk (List.contains_iff_mem.1 hij)
        (List.contains_iff_mem.1 hkj))
  · have hshare : us'.share i bs = us.share i bs := by
      refine List.filter_congr fun b _ => ?_
      cases b.unit with
      | none => rfl
      | some j =>
        rw [Option.any_some, Option.any_some, Bool.eq_iff_iff]
        simp [hmem j, hip]
    rw [if_neg hip, total, hshare, Int.add_zero, total]

/-- A unit that is committed into its open parent leaves there what it has counted. -/
theorem Balances.fold {aₚ : UnitAccount} (h : us.Balances bs count amount) (hlt : p < k)
    (ha : us.accounts[k]? = some a) (hopen : a.status = .opened) (hparent : a.parent = some p)
    (hp : us.accounts[p]? = some aₚ) (hpopen : aₚ.status = .opened)
    (hcount : ∀ a : UnitAccount, count (a.closed .committed) = count a)
    (habsorb : ∀ a nested : UnitAccount, count (a.absorb nested) = count a + count nested)
    (haccounts : us'.accounts =
      (us.accounts.modify k (·.closed .committed)).modify p (·.absorb a)) :
    us'.Balances bs count amount := by
  have hheirs := heir?_committed (Nat.ne_of_lt hlt) ha hparent hp haccounts
  refine h.change (fun i => if i = p then count a else 0) (fun i a' ha' => ?_) fun i => ?_
  · rw [haccounts] at ha'
    obtain ⟨a₁, ha₁, rfl⟩ := exists_of_accounts_modify ha'
    obtain ⟨a₀, ha₀, rfl⟩ := exists_of_accounts_modify ha₁
    refine ⟨a₀, ha₀, ?_⟩
    have hclosed : count (if i = k then a₀.closed .committed else a₀) = count a₀ := by
      by_cases hik : i = k
      · rw [if_pos hik, hcount]
      · rw [if_neg hik]
    by_cases hip : i = p
    · rw [if_pos hip, if_pos hip, habsorb, hclosed]
    · rw [if_neg hip, if_neg hip, hclosed, Int.add_zero]
  · rw [h k a ha]
    exact total_committed hlt (heir?_of_opened ha hopen) (heir?_of_opened hp hpopen) hheirs i

end Units

/-! ## Runs -/

/-- The executor, which also counts the statements that it is given. -/
def Executor.tallied {σ : Type} (x : Executor σ) : Executor (σ × Nat) where
  execute st o db := ((x.execute st o db.1).1, (x.execute st o db.1).2, db.2 + 1)

/-- The session, whose executor also counts the statements that it is given. -/
def Session.tallied {σ : Type} (s : Session σ) : Session (σ × Nat) where
  executor := s.executor.tallied
  prepare := s.prepare
  config := s.config

/-- A session's executor tells by its state how many statements it was given. -/
def Session.CountedBy {σ : Type} (s : Session σ) (given : σ → Nat) : Prop :=
  ∀ st o db, given (s.executor.execute st o db).2 = given db + 1

/-- The database has been given as many statements as were sent. -/
theorem Session.Reaches.given_eq {σ : Type} {s : Session σ} {given : σ → Nat} {n : Nat}
    {db db' : σ} (h : s.Reaches n db db') (hgiven : s.CountedBy given) :
    given db' = given db + n := by
  induction h with
  | refl => rfl
  | step _ st o ih => rw [hgiven, ih, Nat.add_assoc]

/-- A database beside a tally counts what it is given. -/
theorem Session.countedBy_tallied {σ : Type} (s : Session σ) : s.tallied.CountedBy Prod.snd :=
  fun _ _ _ => rfl

section

variable {σ : Type} {s : Session σ} {given : σ → Nat} {unit : Option Nat} {w w' : State σ}
  {bs : List Booking} {i : Nat} {u : UnitOfWork}

/-- A call spends what is booked for it. -/
theorem Call.spends_booking (hgiven : s.CountedBy given) (c : Call) (unit : Option Nat)
    (w : State σ) :
    w.Spends s unit (c.booking s unit w given).sent
      (if (c.booking s unit w given).answered then 1 else 0)
      (if (c.booking s unit w given).missed then 1 else 0) (c.run s unit w).2 := by
  have hsent : ∀ {sent answered missed : Nat},
      w.Spends s unit sent answered missed (c.run s unit w).2 →
      w.Spends s unit (c.booking s unit w given).sent answered missed (c.run s unit w).2 := by
    intro sent answered missed hspends
    -- the executor's count has gone up by what was sent
    have heq : (c.booking s unit w given).sent = sent := by
      show given (c.run s unit w).2.database - given w.database = sent
      rw [hspends.database.given_eq hgiven, Nat.add_sub_cancel_left]
    rwa [heq]
  cases c with
  | lookup q =>
    cases hst : q.single.statement s.prepare with
    | error e =>
      have hspends := hsent (spends_lookup_of_error hst unit w)
      simpa [booking, isAnswered, isMissed, hst, Except.isOk, Except.toBool] using hspends
    | ok st =>
      obtain ⟨sent, hspends, -⟩ := spends_lookup hst unit w
      replace hspends := hsent hspends
      simpa [booking, isAnswered, isMissed, hst, Except.isOk, Except.toBool] using hspends
  | read q => exact hsent (spends_read q w)
  | count x => exact hsent (spends_count x w)
  | insert x => exact hsent (spends_insert x w)
  | update x => exact hsent (spends_update x w)
  | delete x => exact hsent (spends_delete x w)

/-- The books of a session are balanced: what is counted is what the operations came to. -/
structure State.IsBalanced (given : σ → Nat) (bs : List Booking) (w : State σ) : Prop where
  requests : w.metrics.requests = UInt64.ofNat (given w.database)
  sent : given w.database = (bs.map (·.sent)).sum
  hits : w.metrics.hits = UInt64.ofNat (bs.countP (·.answered))
  parents : Units.HasOlderParents w.units.accounts
  booked : ∀ b ∈ bs, ∀ j, b.unit = some j → j < w.units.accounts.length
  database : w.units.Balances bs (·.databaseOperations) fun b => b.sent
  cache : w.units.Balances bs (·.cacheOperations) Booking.cache

namespace State

/-- Where only the accounts of the units changed, it is for them to balance. -/
theorem IsBalanced.of_balances (h : w.IsBalanced given bs) (hdatabase : w'.database = w.database)
    (hmetrics : w'.metrics = w.metrics) (hparents : Units.HasOlderParents w'.units.accounts)
    (hlength : w'.units.accounts.length = w.units.accounts.length)
    (hsent : w'.units.Balances bs (·.databaseOperations) fun b => b.sent)
    (hcache : w'.units.Balances bs (·.cacheOperations) Booking.cache) :
    w'.IsBalanced given bs where
  requests := by rw [hmetrics, hdatabase, h.requests]
  sent := by rw [hdatabase, h.sent]
  hits := by rw [hmetrics, h.hits]
  parents := hparents
  booked := by rw [hlength]; exact h.booked
  database := hsent
  cache := hcache

theorem IsBalanced.of_same (h : w.IsBalanced given bs) (hdatabase : w'.database = w.database)
    (hmetrics : w'.metrics = w.metrics) (haccounts : w'.units.accounts = w.units.accounts) :
    w'.IsBalanced given bs :=
  h.of_balances hdatabase hmetrics (by rw [haccounts]; exact h.parents) (by rw [haccounts])
    (h.database.of_accounts haccounts) (h.cache.of_accounts haccounts)

/-- At the start nothing is booked, and all counters are at zero. -/
theorem isBalanced_start (s : Session σ) (db : σ) (h : given db = 0) :
    (s.start db).IsBalanced given [] where
  requests := by
    rw [show (s.start db).database = db from rfl, h]
    rfl
  sent := h
  hits := rfl
  parents i a p ha := absurd ha (by simp [Session.start, Units.accounts])
  booked b hb := absurd hb (by simp)
  database i a ha := absurd ha (by simp [Session.start, Units.accounts])
  cache i a ha := absurd ha (by simp [Session.start, Units.accounts])

/-- An operation that runs in an open unit, or in none, is booked. -/
theorem IsBalanced.book (h : w.IsBalanced given bs) (hgiven : s.CountedBy given) {b : Booking}
    (hopen : ∀ i, b.unit = some i → ∃ a, w.units.accounts[i]? = some a ∧ a.status = .opened)
    (hspends : w.Spends s b.unit b.sent (if b.answered then 1 else 0)
      (if b.missed then 1 else 0) w') : w'.IsBalanced given (b :: bs) where
  requests := by
    rw [hspends.requests, hspends.database.given_eq hgiven, h.requests, UInt64.ofNat_add]
  sent := by
    rw [hspends.database.given_eq hgiven, h.sent, List.map_cons, List.sum_cons, Nat.add_comm]
  hits := by rw [hspends.hits, h.hits, ← UInt64.ofNat_add, List.countP_cons]
  parents := by
    rw [hspends.accounts]
    cases b.unit with
    | none => exact h.parents
    | some k =>
      refine h.parents.modify ?_ k
      exact fun _ => rfl
  booked b' hb' j hj := by
    have hlength : w'.units.accounts.length = w.units.accounts.length := by
      rw [hspends.accounts]
      cases b.unit with
      | none => rfl
      | some k => exact List.length_modify ..
    rw [hlength]
    obtain rfl | hb' := List.mem_cons.1 hb'
    · obtain ⟨a, ha, -⟩ := hopen j hj
      exact (List.getElem?_eq_some_iff.1 ha).1
    · exact h.booked b' hb' j hj
  database := h.database.book hopen hspends.accounts fun _ => rfl
  cache := by
    refine h.cache.book hopen hspends.accounts fun a => ?_
    show a.cacheOperations + _ = _
    unfold Booking.cache
    cases b.answered <;> cases b.missed <;> rfl

theorem accounts_begin (w : State σ) (label : String) (parent : Option Nat) :
    (w.begin label parent).2.units.accounts =
      w.units.accounts ++ [⟨label, parent, .opened, [], [], 0, 0⟩] := by
  show (w.units.list ++ [_]).map UnitOfWork.account = _
  rw [List.map_append]
  rfl

/-- A unit that is begun with an older one as its parent, if any, has nothing to book. -/
theorem IsBalanced.begin (h : w.IsBalanced given bs) {label : String} {parent : Option Nat}
    (hparent : ∀ p, parent = some p → p < w.units.accounts.length) :
    (w.begin label parent).2.IsBalanced given bs where
  requests := h.requests
  sent := h.sent
  hits := h.hits
  parents := by
    rw [accounts_begin]
    exact h.parents.concat hparent
  booked b hb j hj := by
    rw [accounts_begin, List.length_append]
    exact Nat.lt_add_right _ (h.booked b hb j hj)
  database := h.database.begin rfl rfl (accounts_begin ..) h.booked
  cache := h.cache.begin rfl rfl (accounts_begin ..) h.booked

/-- A unit that is closed without an heir changes no books. -/
theorem IsBalanced.close (h : w.IsBalanced given bs) {a : UnitAccount} {status : UnitStatus}
    (ha : w.units.accounts[i]? = some a) (hkept : (a.closed status).heir? = a.heir?)
    (hdatabase : w'.database = w.database) (hmetrics : w'.metrics = w.metrics)
    (haccounts : w'.units.accounts = w.units.accounts.modify i (·.closed status)) :
    w'.IsBalanced given bs := by
  have hparents : Units.HasOlderParents w'.units.accounts := by
    rw [haccounts]
    refine h.parents.modify ?_ i
    exact fun _ => rfl
  exact h.of_balances hdatabase hmetrics hparents (by rw [haccounts, List.length_modify])
    (h.database.close ha hkept (fun _ => rfl) haccounts)
    (h.cache.close ha hkept (fun _ => rfl) haccounts)

/-- A unit that is committed into its open parent hands over what it has counted. -/
theorem IsBalanced.fold (h : w.IsBalanced given bs) {p : Nat} {a aₚ : UnitAccount}
    (ha : w.units.accounts[i]? = some a) (hopen : a.status = .opened) (hparent : a.parent = some p)
    (hp : w.units.accounts[p]? = some aₚ) (hpopen : aₚ.status = .opened)
    (hdatabase : w'.database = w.database) (hmetrics : w'.metrics = w.metrics)
    (haccounts : w'.units.accounts =
      (w.units.accounts.modify i (·.closed .committed)).modify p (·.absorb a)) :
    w'.IsBalanced given bs := by
  have hparents : Units.HasOlderParents w'.units.accounts := by
    rw [haccounts]
    refine Units.HasOlderParents.modify (h.parents.modify ?_ i) ?_ p
    · exact fun _ => rfl
    · exact fun _ => rfl
  have hpi := h.parents i a p ha hparent
  exact h.of_balances hdatabase hmetrics hparents
    (by rw [haccounts, List.length_modify, List.length_modify])
    (h.database.fold hpi ha hopen hparent hp hpopen (fun _ => rfl) (fun _ _ => rfl) haccounts)
    (h.cache.fold hpi ha hopen hparent hp hpopen (fun _ => rfl) (fun _ _ => rfl) haccounts)

end State

theorem Units.getElem?_accounts (us : Units) (i : Nat) :
    us.accounts[i]? = (us.get? i).map UnitOfWork.account :=
  List.getElem?_map ..

theorem Units.account_of_get? (h : w.units.get? i = some u) :
    w.units.accounts[i]? = some u.account := by
  rw [getElem?_accounts, h]
  rfl

section

variable {us : Units} {f : UnitOfWork → UnitOfWork}

/-- An item of a list matters to a change of it alone. -/
theorem modify_congr {α : Type} {f g : α → α} {l : List α}
    (h : ∀ a, l[i]? = some a → f a = g a) : l.modify i f = l.modify i g := by
  refine List.ext_getElem? fun j => ?_
  rw [List.getElem?_modify, List.getElem?_modify]
  by_cases hij : i = j
  · subst hij
    cases ha : l[i]? with
    | none => rfl
    | some a => simp [h a ha]
  · simp [hij]

/-- What keeps the role of a unit keeps the roles of all. -/
theorem Units.roles_kept (us : Units) (h : ∀ u, (f u).account.role = u.account.role) (i : Nat) :
    (us.modify i f).accounts.map UnitAccount.role = us.accounts.map UnitAccount.role := by
  rw [accounts, accounts, List.map_map, List.map_map]
  exact map_modify_of_kept h us.list i

/-- To close an open unit closes its role. -/
theorem Units.roles_closed (hu : us.get? i = some u) (hopen : u.status = .opened)
    (status : UnitStatus) :
    (us.modify i (·.closed status)).accounts.map UnitAccount.role =
      (us.accounts.map UnitAccount.role).modify i (·.close status) := by
  have hset := map_modify (f := UnitAccount.role) (g := (·.closed status))
    (k := fun r => { r with status }) (fun _ => rfl) us.accounts i
  rw [us.accounts_modify (g := (·.closed status)) (fun _ => rfl), hset]
  refine modify_congr fun r hr => ?_
  rw [List.getElem?_map, getElem?_accounts, hu] at hr
  obtain rfl := Option.some.inj hr
  exact (if_pos hopen).symm

/-- A unit that is closed cannot be closed again. -/
theorem Units.modify_close_of_closed (hclosed : ∀ u, us.get? i = some u → u.status ≠ .opened)
    {status : UnitStatus} : (us.accounts.map UnitAccount.role).modify i (·.close status) =
      us.accounts.map UnitAccount.role := by
  have hkept : ∀ r, (us.accounts.map UnitAccount.role)[i]? = some r → r.close status = id r := by
    intro r hr
    rw [List.getElem?_map, getElem?_accounts] at hr
    cases hu : us.get? i with
    | none => simp [hu] at hr
    | some u =>
      rw [hu] at hr
      obtain rfl := Option.some.inj hr
      exact if_neg (hclosed u hu)
  rw [modify_congr hkept, List.modify_id]

end

theorem isBalanced_updateCache {α : Type} (h : w.IsBalanced given bs) (m : Mapping α) (item : α) :
    (s.updateCache m item w).2.IsBalanced given bs := by
  unfold Session.updateCache
  dsimp only
  split
  next => split <;> exact h.of_same rfl rfl rfl
  next => exact h

/-- A commit hands the charges of a unit on to its parent, which is open if the run is orderly. -/
theorem isBalanced_commit (h : w.IsBalanced given bs)
    (horderly : (SessionStep.commit i).isOrderly w = true) :
    (w.commit i).2.IsBalanced given bs := by
  have hclosed : (w.units.modify i (·.closed .committed)).accounts =
      w.units.accounts.modify i (·.closed .committed) :=
    w.units.accounts_modify (fun _ => rfl) i
  obtain ⟨-, hsame⟩ | ⟨u, hu, hopen, ⟨hparent, hcommit⟩ | ⟨p, hparent, hcommit⟩⟩ := w.commit_cases i
  · rwa [hsame]
  · rw [hcommit]
    refine h.close (Units.account_of_get? hu) ?_ rfl rfl hclosed
    simp [UnitAccount.heir?, UnitAccount.closed, UnitOfWork.account, hopen, hparent]
  · have hpopen : w.units.isOpen p = true := by
      have hiopen := Units.isOpen_iff.2 ⟨u, hu, hopen⟩
      simpa [SessionStep.isOrderly, hiopen, hu, hparent] using horderly
    obtain ⟨v, hv, hvopen⟩ := Units.isOpen_iff.1 hpopen
    rw [hcommit]
    refine h.fold (Units.account_of_get? hu) hopen hparent (Units.account_of_get? hv) hvopen
      rfl rfl ?_
    rw [← hclosed]
    exact Units.accounts_modify _ (fun _ => rfl) p

/-- What was charged to an aborted unit stays with it. -/
theorem isBalanced_abort (h : w.IsBalanced given bs) : (w.abort i).2.IsBalanced given bs := by
  obtain ⟨-, hsame⟩ | ⟨u, hu, hopen, habort⟩ := w.abort_cases i
  · rwa [hsame]
  · rw [habort]
    refine h.close (Units.account_of_get? hu) ?_ rfl rfl
      (w.units.accounts_modify (fun _ => rfl) i)
    simp [UnitAccount.heir?, UnitAccount.closed, UnitOfWork.account, hopen]

namespace SessionStep

/-- A step in order keeps the books balanced, if an operation is booked. -/
theorem isBalanced_run (hgiven : s.CountedBy given) {past : List SessionStep} (x : SessionStep)
    (horderly : x.isOrderly (stateAfter s w past) = true)
    (h : (stateAfter s w past).IsBalanced given (bookings s given w past)) :
    (stateAfter s w (x :: past)).IsBalanced given (bookings s given w (x :: past)) := by
  cases x with
  | call unit c =>
    refine State.IsBalanced.book h hgiven (fun i hi => ?_) (c.spends_booking hgiven unit _)
    obtain rfl : unit = some i := hi
    obtain ⟨u, hu, hopen⟩ := Units.isOpen_iff.1 horderly
    exact ⟨u.account, Units.account_of_get? hu, hopen⟩
  | keep m item => exact isBalanced_updateCache h m item
  | begin label parent =>
    refine h.begin fun p hp => ?_
    subst hp
    obtain ⟨u, hu⟩ := Option.isSome_iff_exists.1 horderly
    exact (List.getElem?_eq_some_iff.1 (Units.account_of_get? hu)).1
  | commit i => exact isBalanced_commit h horderly
  | abort i => exact isBalanced_abort h

/-- Along an orderly run every counter is what the bookings say. -/
theorem isBalanced_stateAfter (hgiven : s.CountedBy given) (h : w.IsBalanced given []) :
    ∀ {past : List SessionStep}, allOrderly s w past = true →
      (stateAfter s w past).IsBalanced given (bookings s given w past)
  | [], _ => h
  | x :: past, horderly => by
    rw [allOrderly, Bool.and_eq_true] at horderly
    exact isBalanced_run hgiven x horderly.1 (isBalanced_stateAfter hgiven h horderly.2)

/-- A step changes the roles of units as it says. -/
theorem roles_run (hgiven : s.CountedBy given) {past : List SessionStep} (x : SessionStep)
    (h : w.units.accounts.map UnitAccount.role = roles past) :
    (x.run s w).units.accounts.map UnitAccount.role = roles (x :: past) := by
  cases x with
  | call unit c =>
    show (c.run s unit w).2.units.accounts.map _ = roles past
    rw [(c.spends_booking hgiven unit w).accounts]
    cases unit with
    | none => exact h
    | some i =>
      rw [← h, Option.elim_some]
      refine map_modify_of_kept ?_ w.units.accounts i
      exact fun _ => rfl
  | keep m item =>
    show (s.updateCache m item w).2.units.accounts.map _ = roles past
    rw [← h]
    unfold Session.updateCache
    dsimp only
    split
    next => split <;> rfl
    next => rfl
  | begin label parent =>
    show (w.begin label parent).2.units.accounts.map _ = _
    rw [State.accounts_begin, List.map_append, h]
    rfl
  -- closing again changes no role, and neither does folding a unit into its parent
  | commit i =>
    show (w.commit i).2.units.accounts.map _ = (roles past).modify i _
    obtain ⟨hclosed, hsame⟩ | ⟨u, hu, hopen, ⟨-, hcommit⟩ | ⟨p, -, hcommit⟩⟩ := w.commit_cases i
    · rw [hsame, ← h, Units.modify_close_of_closed hclosed]
    · rw [hcommit, ← h]
      exact Units.roles_closed hu hopen .committed
    · rw [hcommit, ← h, ← Units.roles_closed hu hopen]
      exact Units.roles_kept (f := (·.absorb u)) _ (fun _ => rfl) p
  | abort i =>
    show (w.abort i).2.units.accounts.map _ = (roles past).modify i _
    obtain ⟨hclosed, hsame⟩ | ⟨u, hu, hopen, habort⟩ := w.abort_cases i
    · rw [hsame, ← h, Units.modify_close_of_closed hclosed]
    · rw [habort, ← h]
      exact Units.roles_closed hu hopen .aborted

/-- Who was committed into whom is as the steps of a run say: a unit has the one that it was begun
in as its heir if a commit of it came before any abort. -/
theorem heir?_stateAfter (hgiven : s.CountedBy given) (db : σ) (past : List SessionStep) (i : Nat) :
    (stateAfter s (s.start db) past).units.heir? i = (roles past)[i]?.bind UnitRole.heir? := by
  have hroles : (stateAfter s (s.start db) past).units.accounts.map UnitAccount.role =
      roles past := by
    induction past with
    | nil => rfl
    | cons x past ih => exact roles_run hgiven x ih
  rw [← hroles, List.getElem?_map, Units.heir?_eq]
  cases (stateAfter s (s.start db) past).units.accounts[i]? with
  | none => rfl
  | some a => rfl

/-- A lookup that comes to a statement: if a cache answers it, no statement is sent and there is one
hit; otherwise there is no hit, and one statement is sent, unless a row of the caches that lacks a
cell breaks the lookup off. -/
theorem lookup_counted {α : Type} {q : PointQuery α} {st : Statement} (hgiven : s.CountedBy given)
    (hst : q.statement s.prepare = .ok st) (unit : Option Nat) (w : State σ) :
    ((q.plan s.prepare).IsAnswered unit w → given (q.run s unit w).2.database = given w.database ∧
      (q.run s unit w).2.metrics.hits = w.metrics.hits + 1) ∧
    (¬ (q.plan s.prepare).IsAnswered unit w →
      (q.run s unit w).2.metrics.hits = w.metrics.hits ∧
      (given (q.run s unit w).2.database = given w.database + 1 ∨
        given (q.run s unit w).2.database = given w.database ∧
          (q.run s unit w).1 = .error .brokenOff ∧ ¬ w.HasFullRows)) := by
  obtain ⟨sent, hspends, hnone, hsent, -⟩ := spends_lookup hst unit w
  have hdatabase := hspends.database.given_eq hgiven
  have hhits := hspends.hits
  refine ⟨fun hanswered => ?_, fun hnot => ?_⟩
  · obtain rfl := hnone hanswered
    rw [if_pos hanswered] at hhits
    exact ⟨hdatabase, hhits⟩
  · rw [if_neg hnot] at hhits
    refine ⟨hhits.trans (UInt64.add_zero _), ?_⟩
    obtain rfl | ⟨rfl, hbroken, hragged⟩ := hsent hnot
    · exact .inl hdatabase
    · exact .inr ⟨hdatabase, hbroken, hragged⟩

/-- After any orderly run the session has counted as many statements as its executor was given, and
as many hits as lookups were answered by a cache. Every unit has counted the statements that were
sent by the operations that ran in it or in a unit of which it is an heir; and the lookups among
these that a cache answered, less those that both caches missed. Of any run, in order or not, the
steps tell which unit was committed into which. Of a single lookup: if it comes to
no statement, none is sent and there is no hit. If a cache answers it, no statement is sent and
there is one hit. Otherwise there is no hit, and one statement is sent, unless a row of the caches
that lacks a cell breaks the lookup off. -/
theorem accounts_balance (s : Session σ) :
    (∀ (db : σ) (past : List SessionStep),
      allOrderly s.tallied (s.tallied.start (db, 0)) past = true →
      let w := stateAfter s.tallied (s.tallied.start (db, 0)) past
      let bs := bookings s.tallied Prod.snd (s.tallied.start (db, 0)) past
      w.metrics.requests = UInt64.ofNat w.database.2 ∧ w.database.2 = (bs.map (·.sent)).sum ∧
      w.metrics.hits = UInt64.ofNat (bs.countP (·.answered)) ∧
      ∀ i u, w.units.get? i = some u →
        u.databaseOperations = (((w.units.share i bs).map (·.sent)).sum : Nat) ∧
        u.cacheOperations = ((w.units.share i bs).countP (·.answered) : Int) -
          (w.units.share i bs).countP (·.missed)) ∧
    (∀ (db : σ) (past : List SessionStep) (j : Nat),
      (stateAfter s.tallied (s.tallied.start (db, 0)) past).units.heir? j =
        (roles past)[j]?.bind UnitRole.heir?) ∧
    ∀ {α : Type} (q : PointQuery α) (unit : Option Nat) (w : State (σ × Nat)),
      let outcome := q.run s.tallied unit w
      (∀ e, q.statement s.prepare = .error e → outcome.2.database.2 = w.database.2 ∧
        outcome.2.metrics.hits = w.metrics.hits) ∧
      ∀ st, q.statement s.prepare = .ok st →
        ((q.plan s.prepare).IsAnswered unit w → outcome.2.database.2 = w.database.2 ∧
          outcome.2.metrics.hits = w.metrics.hits + 1) ∧
        (¬ (q.plan s.prepare).IsAnswered unit w → outcome.2.metrics.hits = w.metrics.hits ∧
          (outcome.2.database.2 = w.database.2 + 1 ∨ outcome.2.database.2 = w.database.2 ∧
            outcome.1 = .error .brokenOff ∧ ¬ w.HasFullRows)) := by
  refine ⟨fun db past horderly => ?_,
    fun db past j => heir?_stateAfter s.countedBy_tallied (db, 0) past j,
    fun q unit w => ⟨fun e hst => ?_, fun st hst => lookup_counted s.countedBy_tallied hst unit w⟩⟩
  · have hbalanced := isBalanced_stateAfter s.countedBy_tallied
      (State.isBalanced_start s.tallied (db, 0) rfl) horderly
    refine ⟨hbalanced.requests, hbalanced.sent, hbalanced.hits, fun i u hu => ?_⟩
    have hdatabase := hbalanced.database i _ (Units.account_of_get? hu)
    have hcache := hbalanced.cache i _ (Units.account_of_get? hu)
    rw [Units.total, Booking.sum_cache] at hcache
    rw [Nat.cast_list_sum, List.map_map]
    exact ⟨hdatabase, hcache⟩
  · have hspends := spends_lookup_of_error (s := s.tallied) hst unit w
    exact ⟨hspends.database.given_eq s.countedBy_tallied,
      hspends.hits.trans (UInt64.add_zero _)⟩

end SessionStep

end

namespace User

open SessionStep

/-- A unit reads a name three times in a nested one, and then changes it; the latest step first. -/
def nestedReading : List SessionStep :=
  [.commit 0, .call (some 0) (.update (rename 5 "Bea")), .commit 1,
    .call (some 1) (.lookup (nameOf 5)), .call (some 1) (.lookup (nameOf 5)),
    .call (some 1) (.lookup (nameOf 5)), .begin "inner" (some 0), .begin "outer" none]

/-- The outer unit has counted the statements of the first lookup and of the update, and of the
three lookups two answers less one that both caches missed. Another lookup afterwards is answered
by the session cache, without a statement. -/
theorem nestedReading_balanced :
    let w := stateAfter session.tallied (session.tallied.start ([ann], 0)) nestedReading
    let bs := bookings session.tallied Prod.snd (session.tallied.start ([ann], 0)) nestedReading
    allOrderly session.tallied (session.tallied.start ([ann], 0)) nestedReading = true ∧
      w.metrics.requests = 2 ∧ ((w.units.share 0 bs).map (·.sent)).sum = 2 ∧
      ((w.units.share 0 bs).countP (·.answered) : Int) -
        (w.units.share 0 bs).countP (·.missed) = 1 ∧
      ((nameOf 5).single.run session.tallied none w).2.database.2 = 2 := by
  intro w bs
  have horderly : allOrderly session.tallied (session.tallied.start ([ann], 0)) nestedReading =
      true := by decide +kernel
  have hsent : w.database.2 = 2 := by decide +kernel
  have hcounts : (w.units.get? 0).map (fun u => (u.databaseOperations, u.cacheOperations)) =
      some (2, 1) := by decide +kernel
  have hanswered : ((nameOf 5).single.plan session.prepare).IsAnswered none w := by decide +kernel
  obtain ⟨hruns, -, hlookups⟩ := accounts_balance session
  obtain ⟨hrequests, -, -, hunits⟩ := hruns [ann] nestedReading horderly
  obtain ⟨u, hu, hcounted⟩ := Option.map_eq_some_iff.1 hcounts
  obtain ⟨hdatabase, hcache⟩ := hunits 0 u hu
  rw [Prod.mk.injEq] at hcounted
  refine ⟨horderly, ?_, ?_, ?_, ?_⟩
  · rw [hrequests, hsent]
    rfl
  · have hboth := hdatabase.symm.trans hcounted.1
    exact Int.ofNat.inj hboth
  · exact hcache.symm.trans hcounted.2
  · exact (((hlookups _ none w).2 _ rfl).1 hanswered).1.trans hsent

end User

end WideRow
