import PageFlow.Action.Definition

namespace PageFlow

/-- How often and how patiently a step is tried again. Times are in milliseconds. -/
structure Backoff where
  retries : Nat
  base : Nat
  cap : Nat
deriving DecidableEq

namespace Backoff

def ofStep (step : Step) (cap : Nat) : Backoff :=
  ⟨step.retries, step.retryDelay, cap⟩

/-- Attempts in all; their number is kept in 32 bits. -/
def maxAttempts (b : Backoff) : Nat :=
  min (b.retries + 1) ((1 <<< 32) - 1)

theorem maxAttempts_le (step : Step) (cap : Nat) :
    (ofStep step cap).maxAttempts - 1 ≤ step.retries := by
  have h : (ofStep step cap).maxAttempts ≤ step.retries + 1 := Nat.min_le_left _ _
  omega

/-- A product of a span of time, if the span can be represented: below `2 ^ 64` seconds. -/
def times? (span : Nat) (factor : UInt32) : Option Nat :=
  let product := span * factor.toNat
  if product < (1 <<< 64) * 1000 then some product else none

/-- The pause after a failed attempt, the first of which has number 1. -/
def delay (b : Backoff) (attempt : Nat) : Nat :=
  let exponent := min (attempt - 1) 31
  let factor : UInt32 := 1 <<< UInt32.ofNat exponent
  min ((times? b.base factor).getD b.cap) b.cap

end Backoff

end PageFlow
