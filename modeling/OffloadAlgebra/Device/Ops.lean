import OffloadAlgebra.Device.Invoke
import OffloadAlgebra.Kernel.Standard
import OffloadAlgebra.Range
import OffloadAlgebra.Shape
/-!
  Matrix operations on device matrices, composed from the standard kernels.

  Each operation allocates its result first and launches nothing when an operand is empty, so
  the result then stays zero.  The product runs over the result's shape rounded up to whole
  thread blocks, whose side is the product kernel's `THREAD_BLOCK_SIZE` as built on the
  context (at least one).  An upper triangle is inverted as the transpose of the lower inverse
  of the transpose.
-/

namespace OffloadAlgebra.Context

/-- The thread-block side the product kernel is built with on this context. -/
def threadBlockSize : DeviceM Nat := do
  let k ← kernel Standard.matrixMultiply
  pure (match k.options.get? "THREAD_BLOCK_SIZE" with
    | some v => max 1 v.toNat
    | none => 1)

/-- The product of device matrices `a` and `b`, as a new device matrix. -/
def multiplyOnDevice (a b : Nat) : DeviceM Nat := do
  let ma := (← get).matrix a
  let mb := (← get).matrix b
  DeviceM.check (Shape.checkMultiplicable "multiply" "A" ⟨ma.rows, ma.cols⟩ "B" ⟨mb.rows, mb.cols⟩)
  let c ← alloc ma.rows mb.cols
  if ma.rows * ma.cols = 0 ∨ mb.rows * mb.cols = 0 then return c
  let tbs ← threadBlockSize
  let range : NdRange := ⟨⟨[roundUp ma.rows tbs, roundUp mb.cols tbs]⟩, some ⟨[tbs, tbs]⟩⟩
  let m ← DeviceM.check (intDim "multiply" ma.rows)
  let n ← DeviceM.check (intDim "multiply" mb.cols)
  let k ← DeviceM.check (intDim "multiply" ma.cols)
  let _ ← invoke Standard.matrixMultiply range [.matrix a, .matrix b, .matrix c, .int m, .int n, .int k]
  pure c

/-- The transpose of device matrix `a`, as a new device matrix. -/
def transposeOnDevice (a : Nat) : DeviceM Nat := do
  let ma := (← get).matrix a
  let t ← alloc ma.cols ma.rows
  if ma.rows * ma.cols = 0 then return t
  let r ← DeviceM.check (intDim "transpose" ma.rows)
  let c ← DeviceM.check (intDim "transpose" ma.cols)
  let _ ← invoke Standard.transpose ⟨⟨[ma.rows, ma.cols]⟩, none⟩ [.matrix t, .matrix a, .int r, .int c]
  pure t

/-- The inverse of the lower triangle of device matrix `a`, as a new device matrix. -/
def lowerInverseOnDevice (a : Nat) : DeviceM Nat := do
  let ma := (← get).matrix a
  let inv ← alloc ma.rows ma.cols
  if ma.rows * ma.cols = 0 then return inv
  let n ← DeviceM.check (intDim "tri_inverse" ma.rows)
  let _ ← invoke Standard.lowerTriInverse ⟨⟨[ma.rows]⟩, none⟩ [.matrix a, .matrix inv, .int n]
  pure inv

/-- The inverse of the chosen triangle of the square device matrix `a`. -/
def triInverseOnDevice (a : Nat) (view : TriView) : DeviceM Nat := do
  let ma := (← get).matrix a
  DeviceM.check (Shape.checkSquare "tri_inverse" "A" ⟨ma.rows, ma.cols⟩)
  match view with
  | .lower => lowerInverseOnDevice a
  | .upper => do
    let t ← transposeOnDevice a
    let inv ← lowerInverseOnDevice t
    transposeOnDevice inv
  | .entire => throw (.invalidArgument "tri_inverse" "matrix must be lower or upper triangular")

end OffloadAlgebra.Context
