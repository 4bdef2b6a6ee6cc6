import OffloadAlgebra.Matrix
/-!
  The dense host routines the operations are run with (`HostAlgebra.blocked`).

  The product sums each entry from its first term on, `a(i,0) * b(0,j) + a(i,1) * b(1,j) + ...`,
  one addition at a time, except when all three dimensions exceed five: then the inner dimension
  is cut into blocks of `innerBlock`, each summed with fused multiply-adds.  It first allocates
  its result, and panics when that allocation does.

  A triangular solve works on each column `x` of the right-hand side by substitution: a lower
  solve visits `i = 0, 1, ..., n-1` and an upper solve `i = n-1, ..., 0`; at each step `x(i)`
  becomes `x(i) / a(i,i)`, and every row `k` still to come gets `x(k) := (-x(i)) * a(k,i) + x(k)`.
  Only the chosen triangle of `a`, diagonal included, is read.  A right-hand side with a column
  and a triangle with a zero on its diagonal give no solution.
-/

namespace OffloadAlgebra.Matrix

/-- The inner-dimension block of the large host product. -/
def innerBlock : Nat := 256

section Arithmetic

variable {α : Type} [Scalar α]

/-- The sum of the terms `a(i,p) * b(p,j)` for `p` from `start` on, at most `innerBlock` of them
    and none from `k` on, accumulated in order from zero with one fused multiply-add per term;
    `a` has `m` rows and `b` has `k'` rows. -/
def blockSum (a b : Array α) (m k k' i j start : Nat) : α :=
  (List.range (min innerBlock (k - start))).foldl
    (fun acc p => Scalar.fma (ColumnMajor.entry a m i (start + p)) (ColumnMajor.entry b k' (start + p) j) acc) 0

/-- The storage of the host product of the `m × k` matrix `a` and the `k' × n` matrix `b`.  When
    `m`, `k` and `n` all exceed five, the inner dimension is cut into blocks of `innerBlock`; each
    block is summed with fused multiply-adds from zero on, and an entry is the first block's sum,
    kept as it is (a negative zero stays negative), plus the later ones, in order.  Otherwise an
    entry is the sum of its terms from the first one on. -/
def mulHostData (a b : Array α) (m k k' n : Nat) : Array α :=
  if 5 < m ∧ 5 < k ∧ 5 < n then
    ColumnMajor.ofFn m n fun i j =>
      let blocks := (k + innerBlock - 1) / innerBlock
      (List.range (blocks - 1)).foldl (fun acc t => acc + blockSum a b m k k' i j ((t + 1) * innerBlock))
        (blockSum a b m k k' i j 0)
  else
    ColumnMajor.ofFn m n fun i j =>
      (List.range (k - 1)).foldl
        (fun acc p => acc + ColumnMajor.entry a m i (p + 1) * ColumnMajor.entry b k' (p + 1) j)
        (ColumnMajor.entry a m i 0 * ColumnMajor.entry b k' 0 j)

/-- One substitution step at row `i` against the matrix `a` with `n` rows: divide by the
    diagonal, then update the rows `later`. -/
def substStep (a : Array α) (n : Nat) (x : Array α) (i : Nat) (later : List Nat) : Array α :=
  let xi := x.getD i 0 / ColumnMajor.entry a n i i
  let x := x.setIfInBounds i xi
  later.foldl (fun x k => x.setIfInBounds k ((-xi) * ColumnMajor.entry a n k i + x.getD k 0)) x

/-- Solve one column against the lower triangle of the matrix `a` with `n` rows. -/
def solveLowerColumn (a : Array α) (n : Nat) (x : Array α) : Array α :=
  (List.range n).foldl (fun x i => substStep a n x i ((List.range (n - i - 1)).map (· + i + 1))) x

/-- Solve one column against the upper triangle of the matrix `a` with `n` rows. -/
def solveUpperColumn (a : Array α) (n : Nat) (x : Array α) : Array α :=
  (List.range n).reverse.foldl (fun x i => substStep a n x i (List.range i)) x

/-- The storage of the solution of `a * x = b`, by substitution against the lower
    (`lower = true`) or upper triangle of the matrix `a` with `n` rows, for the `rows × cols`
    right-hand side `b`: the solved columns one after another. -/
def solveTriangularData (a : Array α) (n : Nat) (b : Array α) (rows cols : Nat) (lower : Bool) : Array α :=
  ((Array.range cols).map fun j =>
    let x := (Array.range rows).map fun i => ColumnMajor.entry b rows i j
    if lower then solveLowerColumn a n x else solveUpperColumn a n x).flatMap id

end Arithmetic

/-- Whether the triangle of the matrix `a` with `n` rows has a zero on its diagonal. -/
def singularDiagonal {α : Type} [Scalar α] (a : Array α) (n : Nat) : Bool :=
  (List.range n).any fun i => Scalar.isZero (ColumnMajor.entry a n i i)

end OffloadAlgebra.Matrix

namespace OffloadAlgebra

/-- The host algebra the operations are run with: the product summed as `mulHostData` sums it,
    after allocating its result, and the solves by substitution, refused for a right-hand side
    with a column when the triangle has a zero on its diagonal. -/
def HostAlgebra.blocked : HostAlgebra where
  mul a b m k k' n := do
    Word.reserve (← Word.mul m n)
    pure (Matrix.mulHostData a b m k k' n)
  solve a n b rows cols lower :=
    if cols != 0 && Matrix.singularDiagonal a n then none
    else some (Matrix.solveTriangularData a n b rows cols lower)

end OffloadAlgebra
