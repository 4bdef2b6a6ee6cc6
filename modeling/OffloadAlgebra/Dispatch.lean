import OffloadAlgebra.Device.Ops
/-!
  Host matrices in, host matrices out: each operation decides whether the work is worth
  sending to the device.

  Shapes are checked first, and an empty operand gives a zero result without a decision; a
  zero product too large to allocate panics.  A product goes to the device when
  `rows(a) * cols(a) * cols(b)` (saturated to a machine word) exceeds the context's product
  threshold; a triangular solve or inverse when the order of the matrix exceeds the triangular
  threshold.  Each decision is counted in the metrics.  On the device a solve is the inverse
  times the right-hand side; on the host the work goes to the host library, `host`.
-/

namespace OffloadAlgebra.Context

/-- Count one dispatch decision. -/
def recordDispatch (offloaded : Bool) : DeviceM Unit :=
  modify fun ctx => { ctx with metrics := ctx.metrics.recordDispatch offloaded }

/-- The largest machine word. -/
def wordMax : Nat := Nat.pow 2 64 - 1

/-- The product `a * b`. -/
def multiply (host : HostAlgebra) (a b : Matrix) : DeviceM Matrix := do
  DeviceM.check (Shape.checkMultiplicable "multiply" "m1" a.shape "m2" b.shape)
  if a.isEmpty || b.isEmpty then return ← DeviceM.unwind (Matrix.hostZeros a.rows b.cols)
  let offload := shouldOffload (min (a.rows * a.cols * b.cols) wordMax) (← get).tuning.multiplyWorth
  recordDispatch offload
  if offload then
    let x ← fromHost a
    let y ← fromHost b
    toHost (← multiplyOnDevice x y)
  else
    DeviceM.unwind (host.product a b)

/-- Refuse the view that is no triangle. -/
def checkTriangular (function : String) : TriView → Except Error Unit
  | .entire => .error (.invalidArgument function "matrix must be lower or upper triangular")
  | _ => .ok ()

/-- Decide and count whether a triangular matrix of order `n` goes to the device. -/
def offloadTriangular (n : Nat) : DeviceM Bool := do
  let offload := shouldOffload n (← get).tuning.triInverseWorth
  recordDispatch offload
  pure offload

/-- The host library's solution of `a * x = b` against the lower triangle of `a` for the lower
    view and the upper one otherwise; a triangle it finds singular is refused. -/
def hostSolve (host : HostAlgebra) (function : String) (a b : Matrix) (view : TriView) : Except Error Matrix :=
  match host.solve a.data a.rows b.data b.rows b.cols (view == .lower) with
  | some x => .ok ⟨b.rows, b.cols, x⟩
  | none => .error (.invalidArgument function "A is singular")

/-- The solution `x` of `a * x = b` for the chosen triangle of the square matrix `a`. -/
def solveTri (host : HostAlgebra) (a b : Matrix) (view : TriView) : DeviceM Matrix := do
  let f := "mdivide_left_tri"
  DeviceM.check (Shape.checkSquare f "A" a.shape)
  DeviceM.check (Shape.checkMultiplicable f "A" a.shape "b" b.shape)
  if a.rows = 0 ∨ b.cols = 0 then return Matrix.zeros a.rows b.cols
  DeviceM.check (checkTriangular f view)
  DeviceM.check (a.checkNonzeroDiagonal f "A")
  if ← offloadTriangular a.rows then
    let x ← fromHost a
    let inv ← triInverseOnDevice x view
    let y ← fromHost b
    toHost (← multiplyOnDevice inv y)
  else
    DeviceM.check (hostSolve host f a b view)

/-- The inverse of the chosen triangle of the square matrix `a`. -/
def invertTri (host : HostAlgebra) (a : Matrix) (view : TriView) : DeviceM Matrix := do
  let f := "mdivide_left_tri_inverse"
  DeviceM.check (Shape.checkSquare f "A" a.shape)
  if a.rows = 0 then return Matrix.zeros 0 0
  DeviceM.check (checkTriangular f view)
  DeviceM.check (a.checkNonzeroDiagonal f "A")
  if ← offloadTriangular a.rows then
    let x ← fromHost a
    toHost (← triInverseOnDevice x view)
  else
    DeviceM.check (hostSolve host f a (Matrix.identity a.rows) view)

end OffloadAlgebra.Context
