/-!
  The backoff counter of an idle queue worker.

  Each snooze advances the step while it is at most 10, so the step stops at 11; a worker parks
  once the step exceeds 10, that is after eleven snoozes without work.  Finding work resets it.
-/

namespace OffloadAlgebra

/-- How long a worker has been idle, counted in snoozes up to 11. -/
structure Backoff where
  step : Nat := 0
  deriving DecidableEq, Repr, Inhabited

namespace Backoff

/-- The step after which a worker yields instead of spinning. -/
def yieldLimit : Nat := 10

/-- One more idle round. -/
def snooze (b : Backoff) : Backoff :=
  if b.step ≤ yieldLimit then ⟨b.step + 1⟩ else b

/-- Back to spinning. -/
def reset (_ : Backoff) : Backoff := ⟨0⟩

/-- Whether the worker parks on its next idle round. -/
def isParking (b : Backoff) : Bool := yieldLimit < b.step

theorem step_le_snooze (b : Backoff) : b.step ≤ (snooze b).step := by
  unfold snooze; split <;> simp

end Backoff

end OffloadAlgebra
