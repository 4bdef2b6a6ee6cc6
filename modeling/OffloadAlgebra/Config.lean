import OffloadAlgebra.Binary
import OffloadAlgebra.Error
import OffloadAlgebra.Options
import OffloadAlgebra.Word
/-!
  Device configuration and its validation.

  A configuration fixes the number of queue workers, the largest work group the device runs,
  the two dispatch thresholds and the base compile options.  `Config.validate` checks, in this
  order: a worker count of zero, a worker count above 1024, a zero work-group limit, and then
  each base option in name order (its name first, then its value).
  `fitThreadBlock` shrinks the thread block to the square root of the work-group limit; that
  root is estimated in double arithmetic and corrected on machine words (`isqrtWord`), which
  panics for the largest limits.
-/

namespace OffloadAlgebra

/-- When work is worth sending to the device: a product whose dimension product exceeds
    `multiplyWorth`, and a triangular solve whose size exceeds `triInverseWorth`. -/
structure Tuning where
  multiplyWorth : Nat
  triInverseWorth : Nat
  deriving DecidableEq, Repr, Inhabited

/-- Thresholds of a fresh configuration: two million and one hundred. -/
def Tuning.defaults : Tuning := ⟨2000000, 100⟩

/-- A device configuration.  `queueThreads` left open means one worker per processor; queue
    worker `i` is named `threadNamePrefix-i`. -/
structure Config where
  queueThreads : Option Nat := none
  maxWorkGroupSize : Nat := 1024
  tuning : Tuning := Tuning.defaults
  baseOptions : OptionMap := OptionMap.defaults
  threadNamePrefix : String := "queue"
  deriving DecidableEq, Repr, Inhabited

/-- Largest worker count a configuration accepts. -/
def Config.maxQueueThreads : Nat := 1024

/-- Largest signed 32-bit integer. -/
def int32Max : Nat := Nat.pow 2 31 - 1

namespace Config

/-- Checks a configuration, returning the first rule it breaks. -/
def validate (c : Config) : Except Error Unit := do
  if c.queueThreads = some 0 then
    throw (.config "queue_threads must be > 0")
  if let some n := c.queueThreads then
    if maxQueueThreads < n then
      throw (.config "queue_threads too large (max 1024)")
  if c.maxWorkGroupSize = 0 then
    throw (.config "max_work_group_size must be > 0")
  match c.baseOptions.firstInvalid? with
  | some (name, none) =>
    throw (.config ("compile option `" ++ name ++ "` is not a valid macro name"))
  | some (name, some v) =>
    throw (.config ("compile option `" ++ name ++ "` must be >= 0, got " ++ toString v))
  | none => pure ()

/-- Number of queue workers, given how many processors the host has. -/
def workerThreads (c : Config) (processors : Nat) : Nat := c.queueThreads.getD processors

end Config

/-- Where the square root of a word starts: the word converted to a double, its root taken in
    double arithmetic and truncated back to a word. -/
def isqrtEstimate (n : Nat) : Nat := Binary.truncSqrt (Binary.roundNat n)

/-- The first correction: while `r * r` exceeds `n`, step `r` down, each square taken on
    machine words.  At `r = 0` the square `0` never exceeds `n`, so `r` never steps below 0. -/
def isqrtDescend (n : Nat) : Nat → Except Panic Nat
  | 0 => pure 0
  | r + 1 => do
    let square ← Word.mul (r + 1) (r + 1)
    if n < square then isqrtDescend n r else pure (r + 1)

/-- The second correction: while `(r + 1) * (r + 1)` is at most `n`, step `r` up, the increment
    and the square both taken on machine words. -/
def isqrtAscend (n r : Nat) : Except Panic Nat :=
  match _hnext : Word.add r 1 with
  | .error p => .error p
  | .ok next =>
    match _hsquare : Word.mul next next with
    | .error p => .error p
    | .ok square => if _hle : square ≤ n then isqrtAscend n next else pure r
termination_by n + 1 - r
decreasing_by
  -- the step goes to `r + 1`, which is at most `n` since its square is
  obtain ⟨-, rfl⟩ := Word.add_eq_ok_iff.mp _hnext
  obtain ⟨-, rfl⟩ := Word.mul_eq_ok_iff.mp _hsquare
  have hr : r + 1 ≤ (r + 1) * (r + 1) := Nat.le_mul_self (r + 1)
  omega

/-- The floor of the square root of a word, computed as the device code does: from the double
    estimate, step down while the square exceeds `n`, then up while the next square does not.
    Every square is taken on machine words, so the root panics when one of them is not a word,
    which happens for every `n` from `(2 ^ 32 - 1) ^ 2` on. -/
def isqrtWord (n : Nat) : Except Panic Nat := do
  isqrtAscend n (← isqrtDescend n (isqrtEstimate n))

/-- The side of the largest square work group within `limit` items: the floor of the square
    root of the limit, capped at the largest signed 32-bit integer. -/
def blockSide (limit : Nat) : Except Panic Nat := do pure (min (← isqrtWord limit) int32Max)

/-- Shrink the thread block to a side: when `THREAD_BLOCK_SIZE` is bound to more than `side`,
    it becomes `side` and `WORK_PER_THREAD` becomes 1. -/
def fitThreadBlockTo (opts : OptionMap) (side : Nat) : OptionMap :=
  match opts.get? "THREAD_BLOCK_SIZE" with
  | some t =>
    if (side : Int) < t then (opts.insert "THREAD_BLOCK_SIZE" side).insert "WORK_PER_THREAD" 1
    else opts
  | none => opts

/-- Shrink the thread block to fit a work-group limit, to the side `blockSide limit`. -/
def fitThreadBlock (opts : OptionMap) (limit : Nat) : Except Panic OptionMap := do
  pure (fitThreadBlockTo opts (← blockSide limit))

end OffloadAlgebra
