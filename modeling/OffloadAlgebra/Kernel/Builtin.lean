import OffloadAlgebra.Kernel.Launch
import OffloadAlgebra.Scalar
/-!
  The built-in kernels, run on the host.

  All three work on matrices stored column by column, and their arithmetic is written over any
  `Scalar` (the kernels run it on doubles).
  * `matrix_multiply` (A, B in; C out; sizes M, N, K): column `j` of C starts at zero and, for
    `p < K` in order, gains `A(:,p) * B(p,j)` unless `B(p,j)` is zero (of either sign).
  * `transpose` (B out; A in; rows, cols): `B[i * cols + j] = A[j * rows + i]`.
  * `lower_tri_inverse` (A in; inv out; N): the inverse of the lower triangle of A, column by
    column: zero above the diagonal, `1 / A(j,j)` on it, and below it
    `inv(i,j) = -(sum of A(i,k) * inv(k,j) for k = j .. i-1) / A(i,i)`, the sum taken from
    negative zero in order.
  Each first reads its sizes, then its buffers, and checks every buffer is long enough before
  writing anything.
-/

namespace OffloadAlgebra.Builtin

section Arithmetic

variable {α : Type} [Scalar α]

/-- Column `j` of the product of the `m × k` matrix `a` and the `k × n` matrix `b`: it starts at
    zero and, for `p < k` in order, gains `a(:,p) * b(p,j)` unless `b(p,j)` is zero. -/
def multiplyColumn (a b : Array α) (m k j : Nat) : Array α :=
  (List.range k).foldl (fun col p =>
      let bpj := b.getD (j * k + p) 0
      if Scalar.isZero bpj then col
      else col.zipIdx.map fun (x, i) => x + a.getD (p * m + i) 0 * bpj)
    (Array.replicate m 0)

/-- The product of the `m × k` matrix `a` and the `k × n` matrix `b`, column after column. -/
def multiplyColumns (a b : Array α) (m n k : Nat) : Array α :=
  (List.range n).foldl (fun acc j => acc ++ multiplyColumn a b m k j) #[]

/-- The `cols × rows` transpose of the `rows × cols` matrix `a`. -/
def transposeData (a : Array α) (rows cols : Nat) : Array α :=
  (Array.range (rows * cols)).map fun t => a.getD (t % cols * rows + t / cols) 0

/-- Column `j` of the inverse of the lower triangle of the order-`n` matrix `a`. -/
def lowerInverseColumn (a : Array α) (n j : Nat) : Array α :=
  let entry (i k : Nat) : α := a.getD (k * n + i) 0
  (List.range (n - j - 1)).foldl (fun col t =>
      let i := j + 1 + t
      let sum := (List.range (i - j)).foldl (fun acc s => acc + entry i (j + s) * col.getD (j + s) 0)
        Scalar.negZero
      col.push (-sum / entry i i))
    ((Array.replicate j 0).push (1 / entry j j))

/-- The inverse of the lower triangle of the order-`n` matrix `a`, column after column. -/
def lowerInverseColumns (a : Array α) (n : Nat) : Array α :=
  (List.range n).foldl (fun acc j => acc ++ lowerInverseColumn a n j) #[]

end Arithmetic

/-- The product kernel. -/
def matrixMultiply (l : Launch) : Except Fault Writes := do
  let m ← l.size 3
  let n ← l.size 4
  let k ← l.size 5
  let a ← l.read 0
  let b ← l.read 1
  let c ← l.write 2
  l.ensureLen "A" a (m * k)
  l.ensureLen "B" b (k * n)
  l.ensureLen "C" c (m * n)
  pure [(2, multiplyColumns a b m n k ++ c.extract (m * n) c.size)]

/-- The transpose kernel. -/
def transpose (l : Launch) : Except Fault Writes := do
  let rows ← l.size 2
  let cols ← l.size 3
  let a ← l.read 1
  let b ← l.write 0
  l.ensureLen "A" a (rows * cols)
  l.ensureLen "B" b (rows * cols)
  pure [(0, transposeData a rows cols ++ b.extract (rows * cols) b.size)]

/-- The lower triangular inverse kernel. -/
def lowerTriInverse (l : Launch) : Except Fault Writes := do
  let n ← l.size 2
  let a ← l.read 0
  let inv ← l.write 1
  l.ensureLen "A" a (n * n)
  l.ensureLen "inv" inv (n * n)
  pure [(1, lowerInverseColumns a n ++ inv.extract (n * n) inv.size)]

/-! ## Each kernel writes only its output buffer -/

theorem matrixMultiply_writes (l : Launch) {ws : Writes} (h : matrixMultiply l = .ok ws) : l.WritesWritable ws := by
  obtain ⟨_, -, h⟩ := Except.bind_eq_ok h
  obtain ⟨_, -, h⟩ := Except.bind_eq_ok h
  obtain ⟨_, -, h⟩ := Except.bind_eq_ok h
  obtain ⟨_, -, h⟩ := Except.bind_eq_ok h
  obtain ⟨_, -, h⟩ := Except.bind_eq_ok h
  obtain ⟨c, hc, h⟩ := Except.bind_eq_ok h
  obtain ⟨_, -, h⟩ := Except.bind_eq_ok h
  obtain ⟨_, -, h⟩ := Except.bind_eq_ok h
  obtain ⟨_, -, h⟩ := Except.bind_eq_ok h
  cases h
  exact Launch.writesWritable_of_write hc _

theorem transpose_writes (l : Launch) {ws : Writes} (h : transpose l = .ok ws) : l.WritesWritable ws := by
  obtain ⟨_, -, h⟩ := Except.bind_eq_ok h
  obtain ⟨_, -, h⟩ := Except.bind_eq_ok h
  obtain ⟨_, -, h⟩ := Except.bind_eq_ok h
  obtain ⟨b, hb, h⟩ := Except.bind_eq_ok h
  obtain ⟨_, -, h⟩ := Except.bind_eq_ok h
  obtain ⟨_, -, h⟩ := Except.bind_eq_ok h
  cases h
  exact Launch.writesWritable_of_write hb _

theorem lowerTriInverse_writes (l : Launch) {ws : Writes} (h : lowerTriInverse l = .ok ws) :
    l.WritesWritable ws := by
  obtain ⟨_, -, h⟩ := Except.bind_eq_ok h
  obtain ⟨_, -, h⟩ := Except.bind_eq_ok h
  obtain ⟨inv, hinv, h⟩ := Except.bind_eq_ok h
  obtain ⟨_, -, h⟩ := Except.bind_eq_ok h
  obtain ⟨_, -, h⟩ := Except.bind_eq_ok h
  cases h
  exact Launch.writesWritable_of_write hinv _

end OffloadAlgebra.Builtin
