import OffloadAlgebra.Error
import OffloadAlgebra.Word
/-!
  Work sizes and launch ranges.

  A `WorkSize` has one to three extents; an extent beyond its dimensions reads as 1.  A launch
  range has a global size and, optionally, a local (work-group) size.  `NdRange.validate` checks,
  in order: no global extent is zero, the local size has as many dimensions as the global one,
  and every local extent is non-zero and divides its global extent.
-/

namespace OffloadAlgebra

/-- One to three extents of a launch. -/
structure WorkSize where
  extents : List Nat
  deriving DecidableEq, Repr, Inhabited

namespace WorkSize

/-- Number of dimensions. -/
def dims (w : WorkSize) : Nat := w.extents.length

/-- The extent of dimension `d`, and 1 for a dimension the size does not have. -/
def get (w : WorkSize) (d : Nat) : Nat := w.extents.getD d 1

/-- The number of work items, multiplied out on machine words: a panic when a partial product
    is not a word. -/
def total (w : WorkSize) : Except Panic Nat := Word.product w.extents

/-- The extents written as a bracketed list, e.g. `[4, 0]`. -/
def describe (w : WorkSize) : String :=
  "[" ++ ", ".intercalate (w.extents.map toString) ++ "]"

end WorkSize

/-- A launch range: the global size and an optional work-group size. -/
structure NdRange where
  global : WorkSize
  localSize : Option WorkSize := none
  deriving DecidableEq, Repr, Inhabited

namespace NdRange

/-- Checks the range on behalf of `function`, returning the first rule it breaks. -/
def validate (r : NdRange) (function : String) : Except Error Unit :=
  if r.global.extents.contains 0 then
    .error (.invalidArgument function ("empty global range " ++ r.global.describe))
  else match r.localSize with
    | none => .ok ()
    | some l =>
      if l.dims ≠ r.global.dims then
        .error (.invalidArgument function ("local range has " ++ toString l.dims ++
          " dimensions, global has " ++ toString r.global.dims))
      else if (r.global.extents.zip l.extents).all (fun p => p.2 ≠ 0 ∧ p.1 % p.2 = 0) then
        .ok ()
      else
        .error (.invalidArgument function ("local range " ++ l.describe ++
          " does not divide global range " ++ r.global.describe))

end NdRange

/-- The least multiple of `multiple` that is at least `n`; `n` itself when `multiple` is zero. -/
def roundUp (n multiple : Nat) : Nat :=
  if multiple = 0 then n else (n + multiple - 1) / multiple * multiple

/-- `roundUp` on machine words: the rounded-up quotient is always a word, and its product with
    `multiple` panics when it is not. -/
def roundUpWord (n multiple : Nat) : Except Panic Nat :=
  if multiple = 0 then .ok n else Word.mul ((n + multiple - 1) / multiple) multiple

/-- A dimension as a kernel's 32-bit integer argument, refused on behalf of `function` when it
    does not fit. -/
def intDim (function : String) (n : Nat) : Except Error Int :=
  if n ≤ Nat.pow 2 31 - 1 then .ok n
  else .error (.invalidArgument function ("dimension " ++ toString n ++ " exceeds the int range"))

/-- Whether work of a size is sent to the device: only when it exceeds the threshold. -/
def shouldOffload (size threshold : Nat) : Bool := threshold < size

end OffloadAlgebra
