import OffloadAlgebra.Binary
/-!
  Matrix entries and how matrices store them.

  The library computes on doubles.  The host kernels and the host-side matrix arithmetic are
  written over a `Scalar`, so that the same algorithms can also be read in exact arithmetic.  A
  scalar has zero and one, the four operations and negation, a fused multiply-add (`a * b + c`
  rounded once), the sum of no terms (negative zero for doubles), and the test for zero by which
  the product kernel skips a term.

  Matrices are stored column by column: entry `(i, j)` of a matrix with `rows` rows sits at
  `j * rows + i`, and reads as zero past the end of the storage.
-/

namespace OffloadAlgebra

/-- The arithmetic of matrix entries. -/
class Scalar (α : Type) extends Zero α, One α, Add α, Mul α, Neg α, Div α where
  /-- `a * b + c`, rounded once. -/
  fma : α → α → α → α
  /-- The sum of no terms. -/
  negZero : α
  /-- Whether a value is zero, of either sign. -/
  isZero : α → Bool

/-- Doubles, with the fused multiply-add rounded to nearest, ties to even. -/
instance : Scalar Float where
  fma := Binary.fusedMulAdd
  negZero := -0.0
  isZero x := x == 0

namespace ColumnMajor

/-- Entry `(i, j)` of a matrix with `rows` rows stored column by column; zero past the end. -/
def entry {α : Type} [Zero α] (data : Array α) (rows i j : Nat) : α := data.getD (j * rows + i) 0

/-- The storage of the `rows × cols` matrix whose entry `(i, j)` is `f i j`. -/
def ofFn {α : Type} (rows cols : Nat) (f : Nat → Nat → α) : Array α :=
  (Array.range (rows * cols)).map fun t => f (t % rows) (t / rows)

end ColumnMajor

end OffloadAlgebra
