import OffloadAlgebra.Shape
import OffloadAlgebra.Word
import OffloadAlgebra.Scalar
/-!
  Dense host matrices of doubles and the host-side arithmetic on them.

  A `Matrix` stores its entries column by column: entry `(i, j)` sits at `j * rows + i`.  The
  row-by-column dot product sums from negative zero, so empty vectors give `-0.0`.

  The product of two host matrices and the solve of a triangular system come from a dense
  linear-algebra library.  The operations take it as a parameter, a `HostAlgebra`, and what they
  need of it is stated where it is used (`HostAlgebra.Lawful`).
-/

namespace OffloadAlgebra

/-- A dense matrix of doubles, stored column by column. -/
structure Matrix where
  rows : Nat
  cols : Nat
  data : Array Float
  deriving Inhabited

namespace Matrix

/-- The shape of a matrix. -/
def shape (m : Matrix) : Shape := ⟨m.rows, m.cols⟩

/-- Number of entries. -/
def size (m : Matrix) : Nat := m.rows * m.cols

/-- Whether the matrix has no entries. -/
def isEmpty (m : Matrix) : Bool := m.size == 0

/-- Entry `(i, j)`; zero outside the stored entries. -/
def get (m : Matrix) (i j : Nat) : Float := ColumnMajor.entry m.data m.rows i j

/-- The matrix whose entry `(i, j)` is `f i j`. -/
def ofFn (rows cols : Nat) (f : Nat → Nat → Float) : Matrix := ⟨rows, cols, ColumnMajor.ofFn rows cols f⟩

/-- The zero matrix. -/
def zeros (rows cols : Nat) : Matrix := ⟨rows, cols, Array.replicate (rows * cols) 0⟩

/-- A zero matrix as the host allocates it: the element count is a machine-word product and
    its buffer must be reservable, or the allocation panics. -/
def hostZeros (rows cols : Nat) : Except Panic Matrix := do
  Word.reserve (← Word.mul rows cols)
  pure (zeros rows cols)

/-- The identity matrix. -/
def identity (n : Nat) : Matrix := ofFn n n fun i j => if i = j then 1 else 0

/-- A matrix from its entries listed row by row. -/
def ofRowMajor (rows cols : Nat) (xs : Array Float) : Matrix :=
  ofFn rows cols fun i j => xs.getD (i * cols + j) 0

/-- The entries listed row by row. -/
def toRowMajor (m : Matrix) : Array Float :=
  (Array.range m.size).map fun t => m.get (t / m.cols) (t % m.cols)

/-- Every entry multiplied by `c`. -/
def scale (m : Matrix) (c : Float) : Matrix := { m with data := m.data.map (· * c) }

/-- The entries in storage order, as a list. -/
def toList (m : Matrix) : List Float := m.data.toList

/-- Both operands must be vectors of the same length; then the sum of the products of their
    entries in storage order, starting from negative zero. -/
def dotRowCol (rv v : Matrix) : Except Error Float := do
  Shape.checkVector "multiply" "rv" rv.shape
  Shape.checkVector "multiply" "v" v.shape
  Shape.checkSizeMatch "multiply" "Size of rv" rv.size "Size of v" v.size
  pure ((rv.toList.zip v.toList).foldl (fun acc p => acc + p.1 * p.2) (-0.0))

/-- The first diagonal entry (within the smaller dimension) equal to zero makes the matrix
    singular; negative zero counts, not-a-number does not. -/
def checkNonzeroDiagonal (function name : String) (m : Matrix) : Except Error Unit :=
  match (List.range (min m.rows m.cols)).find? (fun i => m.get i i == 0) with
  | some i => .error (.invalidArgument function
      (name ++ " is singular: diagonal element " ++ toString i ++ " is zero"))
  | none => .ok ()

end Matrix

/-- The dense routines of the host library: the product of two matrices, and the solve of a
    triangular system.  Matrices are passed as their storage, column by column, and each routine
    is written over any `Scalar`, so one routine can be read in doubles, as the program runs it,
    and in exact arithmetic. -/
structure HostAlgebra where
  /-- The storage of the product of the `m × k` matrix `a` and the `k' × n` matrix `b`, or the
      panic of allocating the `m × n` result. -/
  mul : {α : Type} → [Scalar α] → (a b : Array α) → (m k k' n : Nat) → Except Panic (Array α)
  /-- The storage of the solution `x` of `a * x = b` against the lower (`lower = true`) or upper
      triangle of the matrix `a` with `n` rows, for the `rows × cols` right-hand side `b`; nothing
      when the routine finds the triangle singular. -/
  solve : {α : Type} → [Scalar α] → (a : Array α) → (n : Nat) → (b : Array α) → (rows cols : Nat) →
    (lower : Bool) → Option (Array α)

/-- The product of two host matrices, with the rows of the first and the columns of the second. -/
def HostAlgebra.product (host : HostAlgebra) (a b : Matrix) : Except Panic Matrix := do
  let d ← host.mul a.data b.data a.rows a.cols b.rows b.cols
  pure ⟨a.rows, b.cols, d⟩

/-- Which triangle of a square matrix an operation reads. -/
inductive TriView where
  | entire
  | lower
  | upper
  deriving DecidableEq, Repr, Inhabited

end OffloadAlgebra
