import WideRow.Proofs.Dialling

/-!
# Waits with jitter

A wait with jitter is half of the nominal wait and a number of whole milliseconds more, which is
the remainder of a random number by the count of the choices. All of this is arithmetic of fixed
sizes: milliseconds are cut down to 64 bits, the count of choices must fit these, a sum of spans
must not be longer than any span, and there is no remainder by zero. `Backoff.computedWait` does
each of these steps as such and says which of them goes wrong.

> `wait_in_upper_half`: a wait is computed, without any step going wrong, and is at least half of
> the nominal wait and at most all of it.

The one exception is a nominal wait whose half has as many milliseconds as 64 bits can count, or
that many beyond a multiple of all that they can (`lacksWait_iff`): the count of choices is one more
and does not fit. The longest of all spans is one of these (`lacksWait_of_longest`).
-/

namespace WideRow

/-- How a step of arithmetic goes wrong. -/
inductive Mishap where
  | overflow
  | divisionByZero
  deriving DecidableEq

/-- The sum of two numbers of 64 bits. -/
def sum64 (m n : Nat) : Except Mishap Nat :=
  if m + n < UInt64.size then .ok (m + n) else .error .overflow

/-- The remainder of a division. -/
def remainder (m n : Nat) : Except Mishap Nat :=
  if n = 0 then .error .divisionByZero else .ok (m % n)

namespace Duration

/-- The sum of two spans, which must not be longer than any span. -/
def sum (a b : Duration) : Except Mishap Duration :=
  if h : (a.nanoseconds : Nat) + b.nanoseconds < durationCount then .ok ⟨⟨_, h⟩⟩
  else .error .overflow

/-- A sum that fits is the exact one. -/
theorem sum_eq {a b : Duration} (h : (a.nanoseconds : Nat) + b.nanoseconds < durationCount) :
    a.sum b = .ok (a.add b) := by
  rw [sum, dif_pos h, add, ofNanoseconds, dif_pos h]

/-- Half of a span and at most as many milliseconds as it has are no more than the span. -/
theorem sum_half {d : Duration} {n : Nat} (h : n ≤ d.half.milliseconds) :
    d.half.sum (.ofMilliseconds n) = .ok (d.half.add (.ofMilliseconds n)) ∧
      (d.nanoseconds : Nat) / 2 ≤ (d.half.add (.ofMilliseconds n)).nanoseconds ∧
      (d.half.add (.ofMilliseconds n)).nanoseconds ≤ d.nanoseconds := by
  have hlt := d.nanoseconds.isLt
  rw [milliseconds, val_half] at h
  have hoffset : ((ofMilliseconds n).nanoseconds : Nat) = n * 1000000 := by
    rw [ofMilliseconds, val_ofNanoseconds]
    omega
  have hsum : ((d.half.add (.ofMilliseconds n)).nanoseconds : Nat) =
      d.nanoseconds / 2 + n * 1000000 := by
    rw [add, val_ofNanoseconds, val_half, hoffset]
    omega
  refine ⟨sum_eq ?_, ?_, ?_⟩
  · rw [val_half, hoffset]
    omega
  · omega
  · rw [Fin.le_def, hsum]
    omega

end Duration

namespace Backoff

section

variable (b : Backoff)

/-- The wait after some failures, given a random number, with every step checked. -/
def computedWait (failures draw : Nat) : Except Mishap Duration :=
  let nominal := b.delayAfter failures
  if !b.hasJitter then .ok nominal
  else
    let spread := nominal.half.milliseconds % UInt64.size
    if spread = 0 then .ok nominal
    else do
      let choices ← sum64 spread 1
      let offset ← remainder draw choices
      nominal.half.sum (.ofMilliseconds (offset % UInt64.size))

variable {b} {n : Nat}

/-- Where no wait can be chosen, the computation overflows. -/
theorem computedWait_of_lacksWait (h : b.LacksWait n) (draw : Nat) :
    b.computedWait n draw = .error .overflow := by
  obtain ⟨hjitter, hspread⟩ := h
  rw [computedWait, hjitter, hspread]
  rfl

/-- A wait can be computed where it can be chosen, and the cuts and checks make no difference to
it. -/
theorem exists_computedWait (h : ¬ b.LacksWait n) (draw : Nat) :
    ∃ wait, b.computedWait n draw = .ok wait ∧ b.waitAfter? n draw = some wait ∧
      ((b.delayAfter n).nanoseconds : Nat) / 2 ≤ wait.nanoseconds ∧
      wait.nanoseconds ≤ (b.delayAfter n).nanoseconds := by
  rw [computedWait, waitAfter?]
  cases hjitter : b.hasJitter with
  | false => exact ⟨_, rfl, rfl, Nat.div_le_self .., le_refl _⟩
  | true =>
    simp only [Bool.not_true, Bool.false_eq_true, if_false]
    generalize hspread : (b.delayAfter n).half.milliseconds % UInt64.size = spread
    have hle : spread ≤ (b.delayAfter n).half.milliseconds := hspread ▸ Nat.mod_le ..
    have hlt : spread < UInt64.size := hspread ▸ Nat.mod_lt _ (by decide)
    have hfits : spread + 1 < UInt64.size := by
      have hne : spread ≠ UInt64.size - 1 := fun he => h ⟨hjitter, hspread.trans he⟩
      omega
    split
    next => exact ⟨_, rfl, rfl, Nat.div_le_self .., le_refl _⟩
    next =>
      have hoffset : draw % (spread + 1) < spread + 1 := Nat.mod_lt _ (Nat.succ_pos _)
      -- the offset is at most the milliseconds of the half, so that the sum is at most the whole
      obtain ⟨hsum, hbounds⟩ := Duration.sum_half (d := b.delayAfter n)
        (n := draw % (spread + 1)) (by omega)
      have hchoices : sum64 spread 1 = pure (spread + 1) := if_pos hfits
      have hremainder : remainder draw (spread + 1) = pure (draw % (spread + 1)) :=
        if_neg (Nat.succ_ne_zero _)
      refine ⟨_, ?_, if_neg (Nat.ne_of_lt hfits), hbounds⟩
      rw [hchoices, pure_bind, hremainder, pure_bind, Nat.mod_eq_of_lt (by omega), hsum]

/-- The choices cannot be counted where their number is a multiple of all that 64 bits can count. -/
theorem lacksWait_iff : b.LacksWait n ↔
    b.hasJitter = true ∧ UInt64.size ∣ (b.delayAfter n).milliseconds / 2 + 1 := by
  have hhalf : (b.delayAfter n).half.milliseconds = (b.delayAfter n).milliseconds / 2 := by
    rw [Duration.milliseconds, Duration.milliseconds, Duration.val_half]
    omega
  rw [LacksWait, hhalf]
  refine and_congr_right fun _ => ?_
  simp only [UInt64.size]
  omega

theorem factor_pos (n : Nat) : 0 < factor n := by
  rcases Nat.lt_or_ge 32 n with hn | hn
  · rw [factor_of_lt hn]
    decide
  · rw [factor_of_le hn]
    exact Nat.two_pow_pos _

/-- Half of the longest span has five hundred times as many milliseconds as 64 bits can tell apart,
less one. -/
theorem lacksWait_of_longest (hjitter : b.hasJitter = true) (hinitial : b.initialDelay = .max)
    (hmax : b.maxDelay = .max) (n : Nat) : b.LacksWait n := by
  have hnominal : ((b.delayAfter n).nanoseconds : Nat) = durationCount - 1 := by
    rw [val_delayAfter, hinitial, hmax]
    show min ((durationCount - 1) * factor n) (durationCount - 1) = _
    exact Nat.min_eq_right (Nat.le_mul_of_pos_right _ (factor_pos n))
  refine ⟨hjitter, ?_⟩
  rw [Duration.milliseconds, Duration.val_half, hnominal]
  rfl

end

/-- Unless its choices cannot be counted, a wait is computed without any step going wrong, whatever
the random number is; it is the one that `waitAfter?` gives, and it is at least half of the nominal
wait, rounded down, and at most all of it. Where they cannot be counted, the sum that counts them
overflows. This takes jitter and a nominal wait that falls short of a multiple of `2 ^ 65`
milliseconds by at most two of them. A shorter limit rules it out, and where both delays are the
longest that there are, it is so after every failure. -/
theorem wait_in_upper_half (b : Backoff) (failures draw : Nat) :
    let nominal := b.delayAfter failures
    (¬ b.LacksWait failures → ∃ wait, b.computedWait failures draw = .ok wait ∧
      b.waitAfter? failures draw = some wait ∧
      (nominal.nanoseconds : Nat) / 2 ≤ wait.nanoseconds ∧
      wait.nanoseconds ≤ nominal.nanoseconds) ∧
    (b.LacksWait failures → b.computedWait failures draw = .error .overflow ∧
      b.waitAfter? failures draw = none) ∧
    (b.LacksWait failures ↔
      b.hasJitter = true ∧ UInt64.size ∣ nominal.milliseconds / 2 + 1) ∧
    ((b.maxDelay.nanoseconds : Nat) < 2 * 1000000 * (UInt64.size - 1) →
      ¬ b.LacksWait failures) ∧
    (b.hasJitter = true → b.initialDelay = .max → b.maxDelay = .max → b.LacksWait failures) :=
  ⟨fun h => exists_computedWait h draw,
    fun h => ⟨computedWait_of_lacksWait h draw, b.waitAfter?_eq_none.2 h⟩, lacksWait_iff,
    fun h => b.not_lacksWait (.inr h),
    fun hjitter hinitial hmax => lacksWait_of_longest hjitter hinitial hmax failures⟩

/-- Waits of a second, with the largest random number of 128 bits; and the longest waits. -/
theorem second_waited :
    let second : Backoff := { initialDelay := .ofSeconds 1, maxDelay := .ofSeconds 1 }
    let longest : Backoff := { initialDelay := .max, maxDelay := .max }
    (∃ wait, second.computedWait 1 (2 ^ 128 - 1) = .ok wait ∧
      500000000 ≤ (wait.nanoseconds : Nat) ∧ (wait.nanoseconds : Nat) ≤ 1000000000) ∧
    longest.computedWait 1 (2 ^ 128 - 1) = .error .overflow := by
  intro second longest
  obtain ⟨hwait, -, -, hshort, -⟩ := second.wait_in_upper_half 1 (2 ^ 128 - 1)
  obtain ⟨-, hlacks, -, -, hlongest⟩ := longest.wait_in_upper_half 1 (2 ^ 128 - 1)
  obtain ⟨wait, hcomputed, -, hlow, hhigh⟩ := hwait (hshort (by decide +kernel))
  have hnominal : ((second.delayAfter 1).nanoseconds : Nat) = 1000000000 := by decide +kernel
  rw [Fin.le_def, hnominal] at hhigh
  rw [hnominal] at hlow
  exact ⟨⟨wait, hcomputed, hlow, hhigh⟩, (hlacks (hlongest rfl rfl rfl)).1⟩

end Backoff

end WideRow
