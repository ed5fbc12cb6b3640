import WideRow.Metrics

/-!
# Dialling again

How a connection is tried again: how often, and how long to wait between two tries. The nominal
wait doubles with every failure up to a limit; with jitter, a random part of its second half is
left out. `Backoff.run` dials until a dial succeeds or the attempts are used up, and keeps a
record of what it did and of what was logged.
-/

namespace WideRow

/-- How a connection is tried again. -/
structure Backoff where
  attempts : Nat := 4
  initialDelay : Duration := .ofMilliseconds 100
  maxDelay : Duration := .ofSeconds 5
  hasJitter : Bool := true
  deriving DecidableEq

namespace Backoff

/-- Tries so many times, at least once. -/
def withAttempts (b : Backoff) (n : Nat) : Backoff := { b with attempts := Nat.max n 1 }

/-- Waits from one delay up to another. -/
def withDelays (b : Backoff) (initial most : Duration) : Backoff :=
  { b with initialDelay := initial, maxDelay := most.greatest initial }

/-- Leaves nothing to chance. -/
def withoutJitter (b : Backoff) : Backoff := { b with hasJitter := false }

/-- The largest factor by which the initial delay grows. -/
def maxFactor : Nat := UInt32.size - 1

/-- The factor by which the delay has grown after some failures. -/
def factor (failures : Nat) : Nat := if failures ≤ 32 then Nat.pow 2 (failures - 1) else maxFactor

/-- The nominal wait after some failures. -/
def delayAfter (b : Backoff) (failures : Nat) : Duration :=
  (b.initialDelay.scale (factor failures)).least b.maxDelay

/-- The wait after some failures, given a random number. The choice is among the whole
milliseconds of the second half of the nominal wait. These are counted in 64 bits, and where the
count of choices does not fit there is no wait to choose. -/
def waitAfter? (b : Backoff) (failures draw : Nat) : Option Duration :=
  let nominal := b.delayAfter failures
  if !b.hasJitter then some nominal
  else
    let spread := nominal.half.milliseconds % UInt64.size
    if spread = 0 then some nominal
    else if spread + 1 = UInt64.size then none
    else some (nominal.half.add (.ofMilliseconds (draw % (spread + 1))))

/-- How dialling ends. -/
inductive Ending (ε α : Type) where
  | connected (connection : α)
  | failed (e : ε)
  /-- There was no wait to choose. -/
  | brokenOff
  deriving DecidableEq

/-- What is done while dialling. -/
inductive Step where
  | dial
  | sleep (wait : Duration)
  deriving DecidableEq

/-- The record of dialling. -/
structure Run (ε α : Type) where
  ending : Ending ε α
  /-- What was done, in order. -/
  steps : List Step
  log : List Event := []

/-- The number of dials. -/
def Run.dials {ε α : Type} (r : Run ε α) : Nat := r.steps.count .dial

/-- Dials after some failures, and goes on until the end. Dials are numbered from one. -/
def runFrom {ε α : Type} (b : Backoff) (describe : ε → String) (draw : Nat → Nat)
    (dial : Nat → Except ε α) (failures : Nat) : Run ε α :=
  match dial (failures + 1) with
  | .ok connection =>
    { ending := .connected connection
      steps := [.dial]
      log := if failures = 0 then []
        else [⟨.debug, "Connected after retries", [("failures", toString failures)]⟩] }
  | .error e =>
    if b.attempts ≤ failures + 1 then
      { ending := .failed e
        steps := [.dial]
        log := [⟨.warn, "Giving up on cluster connection",
          [("attempts", toString (failures + 1)), ("error", describe e)]⟩] }
    else
      match b.waitAfter? (failures + 1) (draw (failures + 1)) with
      | none => { ending := .brokenOff, steps := [.dial] }
      | some wait =>
        let rest := b.runFrom describe draw dial (failures + 1)
        { rest with
          steps := .dial :: .sleep wait :: rest.steps
          log := ⟨.debug, "Connect failed, retrying",
            [("failures", toString (failures + 1)),
              ("wait_ms", toString (wait.milliseconds % UInt64.size)),
              ("error", describe e)]⟩ :: rest.log }
termination_by b.attempts - failures

/-- Dials until a dial succeeds or the attempts are used up. -/
def run {ε α : Type} (b : Backoff) (describe : ε → String) (draw : Nat → Nat)
    (dial : Nat → Except ε α) : Run ε α :=
  b.runFrom describe draw dial 0

end Backoff

end WideRow
