import Mathlib.Data.ENat.Lattice
import WideRow.Backoff

/-!
# How dialling goes

Dialling stops at the first success or when the attempts are used up, whichever comes first; one
attempt is always made. Between two dials there is one sleep, for the wait after as many failures as
there were dials, and after the last dial there is none (`Backoff.exists_waits`). Where the first
success and other first occasions stand is a number that may be infinite, `firstPlace`.

> `run_stops`: dialling stops after exactly as many dials as it takes to succeed or to use up the
> attempts, with what the last dial brought, and the nominal waits double up to their limit.

The one exception is a wait with jitter for which there is nothing to choose from, because the
choices are counted in 64 bits and their number does not fit (`Backoff.LacksWait`). It takes a
nominal wait of more than a thousand million years (`firstWithoutWait_eq_top`). There dialling
breaks off.
-/

namespace WideRow

/-! ## Lengths of durations -/

namespace Duration

/-- Durations end at a greatest one, and a longer time is that one. -/
theorem val_ofNanoseconds (n : Nat) :
    ((ofNanoseconds n).nanoseconds : Nat) = min n (durationCount - 1) := by
  unfold ofNanoseconds
  split
  next h =>
    show n = _
    omega
  next h =>
    show durationCount - 1 = _
    omega

theorem val_least (a b : Duration) :
    ((a.least b).nanoseconds : Nat) = min (a.nanoseconds : Nat) (b.nanoseconds : Nat) := by
  unfold least
  split
  next h => exact (Nat.min_eq_left h).symm
  next h => exact (Nat.min_eq_right (Nat.le_of_lt (Fin.not_le.1 h))).symm

/-- Half of a duration is rounded down to whole nanoseconds. -/
theorem val_half (d : Duration) : (d.half.nanoseconds : Nat) = d.nanoseconds / 2 := by
  have hlt := d.nanoseconds.isLt
  rw [half, val_ofNanoseconds]
  omega

end Duration

/-! ## First places -/

/-- The first number from one on of which something holds; infinite where there is none. -/
noncomputable def firstPlace (P : Nat → Prop) : ℕ∞ := ⨅ i : Nat, ⨅ _ : 1 ≤ i ∧ P i, (i : ℕ∞)

section

variable {P : Nat → Prop} {n : Nat}

/-- The first place is the greatest lower bound of all places. -/
theorem le_firstPlace : (n : ℕ∞) ≤ firstPlace P ↔ ∀ i, 1 ≤ i → P i → n ≤ i := by
  simp only [firstPlace, le_iInf_iff, Nat.cast_le, and_imp]

theorem firstPlace_le (hn : 1 ≤ n) (h : P n) : firstPlace P ≤ n := iInf₂_le n ⟨hn, h⟩

theorem firstPlace_eq (hn : 1 ≤ n) (h : P n) (hbefore : ∀ i, 1 ≤ i → P i → n ≤ i) :
    firstPlace P = n :=
  le_antisymm (firstPlace_le hn h) (le_firstPlace.2 hbefore)

/-- Without any place the first one is nowhere. -/
theorem firstPlace_eq_top (h : ∀ i, 1 ≤ i → ¬ P i) : firstPlace P = ⊤ := by
  simp only [firstPlace, iInf_eq_top, ENat.natCast_ne_top, imp_false, not_and]
  exact h

end

namespace Backoff

/-! ## Nominal waits -/

section

variable (b : Backoff)

/-- Up to the thirty-second failure the factor doubles. -/
theorem factor_of_le {n : Nat} (h : n ≤ 32) : factor n = 2 ^ (n - 1) := if_pos h

/-- Beyond that it is the greatest number of 32 bits. -/
theorem factor_of_lt {n : Nat} (h : 32 < n) : factor n = 2 ^ 32 - 1 := if_neg (by omega)

/-- The factor never falls. -/
theorem factor_mono {n m : Nat} (h : n ≤ m) : factor n ≤ factor m := by
  rcases Nat.lt_or_ge 32 m with hm | hm
  · rw [factor_of_lt hm]
    rcases Nat.lt_or_ge 32 n with hn | hn
    · rw [factor_of_lt hn]
    · rw [factor_of_le hn]
      have hpow : 2 ^ (n - 1) ≤ 2 ^ 31 := Nat.pow_le_pow_right (by omega) (by omega)
      omega
  · rw [factor_of_le hm, factor_of_le (by omega)]
    exact Nat.pow_le_pow_right (by omega) (by omega)

/-- Where the product is longer than any duration, the limit is shorter than both. -/
theorem val_delayAfter (n : Nat) : ((b.delayAfter n).nanoseconds : Nat) =
    min (b.initialDelay.nanoseconds * factor n) b.maxDelay.nanoseconds := by
  have hlt := b.maxDelay.nanoseconds.isLt
  rw [delayAfter, Duration.val_least, Duration.scale, Duration.val_ofNanoseconds]
  omega

/-- No wait is longer than the longest one allowed. -/
theorem delayAfter_le (n : Nat) : (b.delayAfter n).nanoseconds ≤ b.maxDelay.nanoseconds := by
  rw [Fin.le_def, val_delayAfter]
  exact Nat.min_le_right ..

/-- Waits do not get shorter from one attempt to the next. -/
theorem delayAfter_mono {n m : Nat} (h : n ≤ m) :
    (b.delayAfter n).nanoseconds ≤ (b.delayAfter m).nanoseconds := by
  rw [Fin.le_def, val_delayAfter, val_delayAfter]
  have hproduct := Nat.mul_le_mul_left (b.initialDelay.nanoseconds : Nat) (factor_mono h)
  omega

/-- The wait doubles with every failure up to the limit, as long as the factor does or the limit is
reached by the largest factor. -/
theorem val_delayAfter_of_doubles {n : Nat} (h : n ≤ 32 ∨
    (b.maxDelay.nanoseconds : Nat) ≤ b.initialDelay.nanoseconds * (2 ^ 32 - 1)) :
    ((b.delayAfter n).nanoseconds : Nat) =
      min ((b.initialDelay.nanoseconds : Nat) * 2 ^ (n - 1)) b.maxDelay.nanoseconds := by
  rw [val_delayAfter]
  rcases Nat.lt_or_ge 32 n with hn | hn
  · have hreached := h.resolve_left (by omega)
    rw [factor_of_lt hn, Nat.min_eq_right hreached, Nat.min_eq_right]
    have hpow : 2 ^ 32 ≤ 2 ^ (n - 1) := Nat.pow_le_pow_right (by omega) (by omega)
    exact hreached.trans (Nat.mul_le_mul_left _ (by omega))
  · rw [factor_of_le hn]

/-! ## Waits that cannot be chosen -/

/-- The choices of a wait with jitter are one more than 64 bits can count. -/
def LacksWait (n : Nat) : Prop :=
  b.hasJitter = true ∧ (b.delayAfter n).half.milliseconds % UInt64.size = UInt64.size - 1

/-- A wait cannot be chosen only where the sum for the draw does not fit. -/
theorem waitAfter?_eq_none {n draw : Nat} : b.waitAfter? n draw = none ↔ b.LacksWait n := by
  unfold waitAfter? LacksWait
  have hsize : 1 < UInt64.size := by decide
  cases b.hasJitter with
  | false => simp
  | true =>
    simp only [Bool.not_true, Bool.false_eq_true, if_false, true_and]
    split
    next hzero => simp only [reduceCtorEq, false_iff]; omega
    next =>
      split
      next hfull => simp only [true_iff]; omega
      next hfits => simp only [reduceCtorEq, false_iff]; omega

/-- There is a wait unless it has jitter, and half of the limit is as many milliseconds as 64 bits
can count. -/
theorem not_lacksWait {n : Nat} (h : b.hasJitter = false ∨
    (b.maxDelay.nanoseconds : Nat) < 2 * 1000000 * (UInt64.size - 1)) : ¬ b.LacksWait n := by
  rintro ⟨hjitter, hlacks⟩
  have hshort := h.resolve_left (by simp [hjitter])
  have hnominal : ((b.delayAfter n).nanoseconds : Nat) ≤ b.maxDelay.nanoseconds :=
    b.delayAfter_le n
  rw [Duration.milliseconds, Duration.val_half] at hlacks
  have hle := Nat.mod_le ((b.delayAfter n).nanoseconds / 2 / 1000000) UInt64.size
  omega

/-- The first failure after which no wait can be chosen. -/
noncomputable def firstWithoutWait : ℕ∞ := firstPlace b.LacksWait

/-- Every wait can be chosen without jitter, and with jitter as long as half of the longest wait has
fewer milliseconds than 64 bits can count. -/
theorem firstWithoutWait_eq_top (h : b.hasJitter = false ∨
    (b.maxDelay.nanoseconds : Nat) < 2 * 1000000 * (UInt64.size - 1)) :
    b.firstWithoutWait = ⊤ :=
  firstPlace_eq_top fun _ _ => b.not_lacksWait h

end

/-! ## A run -/

section

variable {ε α : Type} (b : Backoff) (describe : ε → String) (draw : Nat → Nat)
  (dial : Nat → Except ε α)

/-- The first dial that succeeds. -/
noncomputable def firstSuccess : ℕ∞ := firstPlace fun i => ∃ connection, dial i = .ok connection

/-- A dial is followed by another one, after a sleep. -/
structure GoesOn (n : Nat) (wait : Duration) : Prop where
  failed : ∃ e, dial n = .error e
  left : n < b.attempts
  waits : b.waitAfter? n (draw n) = some wait

/-- A dial is the last one. -/
inductive EndsAt (n : Nat) : Ending ε α → Prop
  | connected {connection : α} (h : dial n = .ok connection) : EndsAt n (.connected connection)
  | failed {e : ε} (h : dial n = .error e) (used : b.attempts ≤ n) : EndsAt n (.failed e)
  | brokenOff {e : ε} (h : dial n = .error e) (left : n < b.attempts) (lacks : b.LacksWait n) :
    EndsAt n .brokenOff

/-- Dials with sleeps between them. -/
def stepsOf (waits : List Duration) : List Step :=
  .dial :: waits.flatMap fun wait => [.sleep wait, .dial]

/-- There is one more dial than there are waits. -/
theorem count_stepsOf (waits : List Duration) :
    (stepsOf waits).count .dial = waits.length + 1 := by
  have hrest : ∀ waits : List Duration,
      (waits.flatMap fun wait => [Step.sleep wait, Step.dial]).count .dial = waits.length := by
    intro waits
    induction waits with
    | nil => rfl
    | cons wait waits ih => simp [ih]
  rw [stepsOf, List.count_cons_self, hrest]

/-- From any number of failures on, dials and sleeps take turns until a dial is the last one. -/
theorem exists_waits (failures : Nat) : ∃ waits : List Duration,
    (b.runFrom describe draw dial failures).steps = stepsOf waits ∧
    (∀ i wait, waits[i]? = some wait → b.GoesOn draw dial (failures + i + 1) wait) ∧
    b.EndsAt dial (failures + waits.length + 1) (b.runFrom describe draw dial failures).ending := by
  rw [runFrom]
  split
  next connection hdial => exact ⟨[], rfl, fun i wait h => by simp at h, .connected hdial⟩
  next e hdial =>
    split
    next hused => exact ⟨[], rfl, fun i wait h => by simp at h, .failed hdial hused⟩
    next hleft =>
      split
      next hwait =>
        exact ⟨[], rfl, fun i wait h => by simp at h,
          .brokenOff hdial (Nat.not_le.1 hleft) (b.waitAfter?_eq_none.1 hwait)⟩
      next wait hwait =>
        obtain ⟨waits, hsteps, hgoes, hends⟩ := exists_waits (failures + 1)
        refine ⟨wait :: waits, ?_, fun i wait' hi => ?_, ?_⟩
        · show Step.dial :: .sleep wait :: (b.runFrom describe draw dial (failures + 1)).steps = _
          rw [hsteps]
          rfl
        · cases i with
          | zero =>
            obtain rfl : wait = wait' := by simpa using hi
            exact ⟨⟨e, hdial⟩, by omega, hwait⟩
          | succ i =>
            have hgo := hgoes i wait' (by simpa using hi)
            rwa [show failures + 1 + i + 1 = failures + (i + 1) + 1 by omega] at hgo
        · rwa [show failures + 1 + waits.length + 1 = failures + (wait :: waits).length + 1 by
            rw [List.length_cons]; omega] at hends
termination_by b.attempts - failures

end

/-- Dialling ends after so many dials. -/
structure Ends {ε α : Type} (b : Backoff) (draw : Nat → Nat) (dial : Nat → Except ε α) (n : Nat)
    (ending : Ending ε α) : Prop where
  pos : 1 ≤ n
  before : ∀ i, 1 ≤ i → i < n → ∃ wait, b.GoesOn draw dial i wait
  last : b.EndsAt dial n ending

section

variable {ε α : Type} {b : Backoff} {draw : Nat → Nat} {dial : Nat → Except ε α} {n : Nat}
  {ending : Ending ε α}

namespace Ends

/-- A run ends at the first dial that succeeds, or earlier. -/
theorem le_of_success (h : b.Ends draw dial n ending) {i : Nat} (hi : 1 ≤ i) {connection : α}
    (hdial : dial i = .ok connection) : n ≤ i := by
  refine Nat.le_of_not_lt fun hlt => ?_
  obtain ⟨wait, ⟨e, hfailed⟩, -, -⟩ := h.before i hi hlt
  cases hdial.symm.trans hfailed

theorem le_firstSuccess (h : b.Ends draw dial n ending) : (n : ℕ∞) ≤ firstSuccess dial :=
  le_firstPlace.2 fun _ hi ⟨_, hdial⟩ => h.le_of_success hi hdial

/-- If the last dial failed, the first success is yet to come. -/
theorem lt_firstSuccess (h : b.Ends draw dial n ending) {e : ε} (hlast : dial n = .error e) :
    (n : ℕ∞) < firstSuccess dial := by
  have hnext : ((n + 1 : Nat) : ℕ∞) ≤ firstSuccess dial := by
    refine le_firstPlace.2 fun i hi ⟨connection, hdial⟩ => ?_
    have hne : i ≠ n := by
      rintro rfl
      cases hdial.symm.trans hlast
    have hle := h.le_of_success hi hdial
    omega
  exact lt_of_lt_of_le (Nat.cast_lt.2 (Nat.lt_succ_self n)) hnext

/-- A run ends at the first wait that cannot be chosen, or earlier. -/
theorem le_firstWithoutWait (h : b.Ends draw dial n ending) : (n : ℕ∞) ≤ b.firstWithoutWait := by
  refine le_firstPlace.2 fun i hi hlacks => Nat.le_of_not_lt fun hlt => ?_
  obtain ⟨wait, hgoes⟩ := h.before i hi hlt
  cases (b.waitAfter?_eq_none.2 hlacks).symm.trans hgoes.waits

/-- A run has no more dials than attempts, and at least one. -/
theorem le_limit (h : b.Ends draw dial n ending) : n ≤ max b.attempts 1 := by
  rcases Nat.lt_or_ge 1 n with hn | hn
  · obtain ⟨wait, hgoes⟩ := h.before (n - 1) (by omega) (by omega)
    have hleft := hgoes.left
    omega
  · omega

/-- Of the three reasons for a dial to be the last one, it is the one that comes first. -/
theorem reason (h : b.Ends draw dial n ending) :
    (∃ connection, dial n = .ok connection ∧ ending = .connected connection ∧
      firstSuccess dial = n) ∨
    (∃ e, dial n = .error e ∧ ending = .failed e ∧ n < firstSuccess dial ∧
      max b.attempts 1 = n) ∨
    (ending = .brokenOff ∧ n < firstSuccess dial ∧ n < max b.attempts 1 ∧
      b.firstWithoutWait = n) := by
  have hpos := h.pos
  have hlimit := h.le_limit
  cases h.last with
  | connected hdial =>
    exact .inl ⟨_, hdial, rfl, le_antisymm (firstPlace_le hpos ⟨_, hdial⟩) h.le_firstSuccess⟩
  | failed hdial hused => exact .inr (.inl ⟨_, hdial, rfl, h.lt_firstSuccess hdial, by omega⟩)
  | brokenOff hdial hleft hlacks =>
    exact .inr (.inr ⟨rfl, h.lt_firstSuccess hdial, by omega,
      le_antisymm (firstPlace_le hpos hlacks) h.le_firstWithoutWait⟩)

end Ends

end

/-- Dialling makes as many dials as it takes to succeed or to use up the attempts, of which there is
at least one, and ends with the first success or the error of the last dial; unless it comes before
that to a wait that cannot be chosen, and breaks off. Between two dials there is one sleep, for the
wait after as many failures as there were dials. The nominal wait never exceeds the limit, never
decreases, and is the initial one doubled with every failure after the first, up to the limit. -/
theorem run_stops {ε α : Type} (b : Backoff) (describe : ε → String) (draw : Nat → Nat)
    (dial : Nat → Except ε α) :
    let run := b.run describe draw dial
    let limit := max b.attempts 1
    (b.hasJitter = false ∨ (b.maxDelay.nanoseconds : Nat) < 2 * 1000000 * (UInt64.size - 1) →
      b.firstWithoutWait = ⊤) ∧
    (min (firstSuccess dial) limit ≤ b.firstWithoutWait →
      run.dials = min (firstSuccess dial) limit ∧
      (firstSuccess dial ≤ limit →
        ∃ connection, dial run.dials = .ok connection ∧ run.ending = .connected connection) ∧
      (limit < firstSuccess dial → ∃ e, dial run.dials = .error e ∧ run.ending = .failed e)) ∧
    (b.firstWithoutWait < min (firstSuccess dial) limit →
      run.dials = b.firstWithoutWait ∧ run.ending = .brokenOff) ∧
    (∃ waits, run.steps = stepsOf waits ∧ waits.length + 1 = run.dials ∧
      ∀ i wait, waits[i]? = some wait → b.waitAfter? (i + 1) (draw (i + 1)) = some wait) ∧
    ∀ n, 1 ≤ n → (b.delayAfter n).nanoseconds ≤ b.maxDelay.nanoseconds ∧
      (∀ m, n ≤ m → (b.delayAfter n).nanoseconds ≤ (b.delayAfter m).nanoseconds) ∧
      (n ≤ 32 ∨ (b.maxDelay.nanoseconds : Nat) ≤ b.initialDelay.nanoseconds * (2 ^ 32 - 1) →
        ((b.delayAfter n).nanoseconds : Nat) =
          min ((b.initialDelay.nanoseconds : Nat) * 2 ^ (n - 1)) b.maxDelay.nanoseconds) := by
  intro run limit
  obtain ⟨waits, hsteps, hgoes, hlast⟩ := b.exists_waits describe draw dial 0
  have hdials : waits.length + 1 = run.dials := by
    rw [← count_stepsOf waits, ← hsteps]
    rfl
  -- each dial but the last one failed and was followed by a wait
  have hends : b.Ends draw dial run.dials run.ending := by
    refine ⟨by omega, fun i hi hlt => ?_, ?_⟩
    · obtain ⟨wait, hwait⟩ : ∃ wait, waits[i - 1]? = some wait :=
        ⟨_, List.getElem?_eq_getElem (by omega)⟩
      have hgo := hgoes (i - 1) wait hwait
      rw [show 0 + (i - 1) + 1 = i by omega] at hgo
      exact ⟨wait, hgo⟩
    · rw [← hdials, show waits.length + 1 = 0 + waits.length + 1 by omega]
      exact hlast
  have hlimit : (run.dials : ℕ∞) ≤ limit := Nat.cast_le.2 hends.le_limit
  refine ⟨b.firstWithoutWait_eq_top, fun hfirst => ?_, fun hfirst => ?_,
    ⟨waits, hsteps, hdials, fun i wait hi => ?_⟩,
    fun n _ => ⟨b.delayAfter_le n, fun m hm => b.delayAfter_mono hm,
      b.val_delayAfter_of_doubles⟩⟩
  · -- a wait that could not be chosen comes too late to end the run
    rcases hends.reason with ⟨connection, hdial, hending, hsuccess⟩ |
      ⟨e, hdial, hending, hlater, hused⟩ | ⟨-, hlater, hleft, hlacks⟩
    · rw [hsuccess, min_eq_left hlimit]
      exact ⟨rfl, fun _ => ⟨connection, hdial, hending⟩, fun hlt => absurd hlt (not_lt.2 hlimit)⟩
    · rw [show limit = run.dials from hused, min_eq_right (le_of_lt hlater)]
      exact ⟨rfl, fun hle => absurd hle (not_le.2 hlater), fun _ => ⟨e, hdial, hending⟩⟩
    · rw [hlacks] at hfirst
      exact absurd (lt_min hlater (Nat.cast_lt.2 hleft)) (not_lt.2 hfirst)
  · -- it comes first, so nothing else has ended the run before
    have hwaits := hends.le_firstWithoutWait
    rcases hends.reason with ⟨-, -, -, hsuccess⟩ | ⟨-, -, -, -, hused⟩ | ⟨hending, -, -, hlacks⟩
    · rw [hsuccess] at hfirst
      exact absurd (hwaits.trans_lt (lt_min_iff.1 hfirst).1) (lt_irrefl _)
    · rw [show limit = run.dials from hused] at hfirst
      exact absurd (hwaits.trans_lt (lt_min_iff.1 hfirst).2) (lt_irrefl _)
    · exact ⟨hlacks.symm, hending⟩
  · have hgo := hgoes i wait hi
    rw [show 0 + i + 1 = i + 1 by omega] at hgo
    exact hgo.waits

/-- Two dials that fail, and all others succeed. -/
def connectsThirdTime (n : Nat) : Except String String :=
  if n < 3 then .error "unreachable" else .ok "connected"

theorem firstSuccess_connectsThirdTime : firstSuccess connectsThirdTime = (3 : Nat) := by
  refine firstPlace_eq (by omega) ⟨"connected", rfl⟩ fun i _ ⟨connection, hdial⟩ => ?_
  refine Nat.le_of_not_lt fun hlt => ?_
  rw [connectsThirdTime, if_pos hlt] at hdial
  cases hdial

/-- Waits whose halves are as many milliseconds as 64 bits can count. -/
def outOfCount : Backoff where
  initialDelay := .ofParts 36893488147419103 230000000
  maxDelay := .ofParts 36893488147419103 230000000

theorem firstWithoutWait_outOfCount : outOfCount.firstWithoutWait = (1 : Nat) :=
  firstPlace_eq (by omega) (by unfold LacksWait; decide +kernel) fun _ hi _ => hi

/-- Four attempts are enough for the third dial to be made, unless there is no wait after the
first. -/
theorem third_dial_connects :
    let patient : Backoff := { hasJitter := false }
    let run := patient.run id (fun _ => 0) connectsThirdTime
    let broken := outOfCount.run id (fun _ => 0) connectsThirdTime
    run.dials = 3 ∧ run.ending = .connected "connected" ∧
      ((patient.delayAfter 3).nanoseconds : Nat) = 400000000 ∧
      broken.dials = 1 ∧ broken.ending = .brokenOff := by
  intro patient run broken
  obtain ⟨hwaits, hstops, -, -, hdelays⟩ :=
    patient.run_stops id (fun _ => 0) connectsThirdTime
  obtain ⟨-, -, hbreaks, -⟩ := outOfCount.run_stops id (fun _ => 0) connectsThirdTime
  have hsuccess : firstSuccess connectsThirdTime ≤ (max patient.attempts 1 : Nat) := by
    rw [firstSuccess_connectsThirdTime]
    exact Nat.cast_le.2 (by decide)
  obtain ⟨hdials, hconnected, -⟩ := hstops (by rw [hwaits (.inl rfl)]; exact le_top)
  rw [min_eq_left hsuccess, firstSuccess_connectsThirdTime, Nat.cast_inj] at hdials
  obtain ⟨connection, hdial, hending⟩ := hconnected hsuccess
  have hbroken := hbreaks (by
    rw [firstWithoutWait_outOfCount, firstSuccess_connectsThirdTime]
    exact lt_min (Nat.cast_lt.2 (by decide)) (Nat.cast_lt.2 (by decide)))
  rw [firstWithoutWait_outOfCount, Nat.cast_inj] at hbroken
  refine ⟨hdials, ?_, ?_, hbroken⟩
  · rw [hdials] at hdial
    cases hdial
    exact hending
  · exact ((hdelays 3 (by decide)).2.2 (.inl (by decide))).trans (by decide +kernel)

end Backoff

end WideRow
