import Mathlib
import OffloadAlgebra.Proofs.Exact.Product
import OffloadAlgebra.Matrix.Dense
/-!
  Triangular inverses and solves in exact arithmetic.

  Over the rationals, take a square matrix of order `n` with no zero on its diagonal and write
  `T` for its lower or upper triangle (`ColumnMajor.triangle`); `T` is invertible, its
  determinant being the product of the diagonal.

  The lower inverse kernel builds each column of the inverse of the lower triangle by forward
  substitution against a unit column, reading the entries of the column it computed before
  (`lowerInverseColumn_getD`), so the lower triangle times its columns is the identity and the
  kernel's storage is `T⁻¹` (`lowerInverseColumns_exact`).  The upper triangle is inverted as the
  transpose of the lower inverse of the transpose (`upperInverse_exact`).

  The blocked host algebra solves by substitution, one row at a time in the order the triangle
  allows.  Each step keeps the right-hand side equal to what the rows done so far leave to
  explain (`residual`), so when every row is done the columns solve `T * X = B` and
  `X = T⁻¹ * B` (`solveTriangularData_exact`).
-/

/-- Matrices over the rationals with `r` rows and `c` columns. -/
abbrev RatMatrix (r c : Nat) : Type := Matrix (Fin r) (Fin c) ℚ

namespace OffloadAlgebra

namespace ColumnMajor

/-! ## Storage and matrices -/

/-- The `r × c` matrix stored column by column in `d`. -/
def toMatrix (d : Array ℚ) (r c : Nat) : RatMatrix r c := Matrix.of fun i j => entry d r i j

/-- The storage of a matrix, column by column. -/
def ofMatrix {r c : Nat} (M : RatMatrix r c) : Array ℚ :=
  ofFn r c fun i j => if h : i < r ∧ j < c then M ⟨i, h.1⟩ ⟨j, h.2⟩ else 0

section Storage

variable {r c : Nat}

@[simp] theorem toMatrix_apply (d : Array ℚ) (i : Fin r) (j : Fin c) : toMatrix d r c i j = entry d r i j := rfl

theorem entry_ofMatrix (M : RatMatrix r c) (i : Fin r) (j : Fin c) : entry (ofMatrix M) r i j = M i j := by
  rw [ofMatrix, entry_ofFn _ i.isLt j.isLt, dif_pos ⟨i.isLt, j.isLt⟩]

@[simp] theorem toMatrix_ofMatrix (M : RatMatrix r c) : toMatrix (ofMatrix M) r c = M := by
  ext i j
  exact entry_ofMatrix M i j

/-- Storage of entries given by a function within the shape is the storage of the matrix they
    make. -/
theorem ofFn_eq_ofMatrix (f : Nat → Nat → ℚ) : ofFn r c f = ofMatrix (Matrix.of fun (i : Fin r) (j : Fin c) => f i j) :=
  ofFn_congr fun i hi j hj => by rw [dif_pos ⟨hi, hj⟩, Matrix.of_apply]

/-- The product in exact arithmetic is the storage of the product of the stored matrices. -/
theorem exactProduct_eq (a b : Array ℚ) (m k n : Nat) :
    exactProduct a b m k n = ofMatrix (toMatrix a m k * toMatrix b k n) := by
  refine ofFn_congr fun i hi j hj => ?_
  rw [dif_pos ⟨hi, hj⟩, Matrix.mul_apply]
  exact (Fin.sum_univ_eq_sum_range (fun p => entry a m i p * entry b k p j) k).symm

end Storage

/-! ## Triangles -/

/-- Whether entry `(i, j)` lies in the lower (`lower = true`) or upper triangle, diagonal
    included. -/
def InTriangle (lower : Bool) (i j : Nat) : Prop := if lower then j ≤ i else i ≤ j

instance (lower : Bool) (i j : Nat) : Decidable (InTriangle lower i j) := by
  unfold InTriangle
  cases lower <;> infer_instance

/-- Entry `(i, j)` of the lower (`lower = true`) or upper triangle of the order-`n` matrix stored
    in `d`, diagonal included; zero elsewhere. -/
def triangleEntry (lower : Bool) (d : Array ℚ) (n i j : Nat) : ℚ := if InTriangle lower i j then entry d n i j else 0

/-- The lower (`lower = true`) or upper triangle of the order-`n` matrix stored in `d`. -/
def triangle (lower : Bool) (d : Array ℚ) (n : Nat) : RatMatrix n n := Matrix.of fun i j => triangleEntry lower d n i j

section Triangle

variable {lower : Bool} {d : Array ℚ} {n : Nat}

theorem inTriangle_self (lower : Bool) (i : Nat) : InTriangle lower i i := by
  cases lower <;> exact Nat.le_refl i

theorem triangle_diag (i : Fin n) : triangle lower d n i i = entry d n i i := by
  simp [triangle, triangleEntry, inTriangle_self]

/-- A triangle's determinant is the product of its diagonal. -/
theorem det_triangle : (triangle lower d n).det = ∏ i : Fin n, entry d n i i := by
  have hdiag : ∏ i : Fin n, triangle lower d n i i = ∏ i : Fin n, entry d n i i :=
    Finset.prod_congr rfl fun i _ => triangle_diag i
  rw [← hdiag]
  -- the entries on the other side of the diagonal are zero
  cases lower with
  | true =>
    refine Matrix.det_of_isLowerTriangular _ fun i j hij => ?_
    have hlt : (i : Nat) < j := hij
    show (if InTriangle true i j then entry d n i j else 0) = 0
    exact if_neg (Nat.not_le.mpr hlt)
  | false =>
    refine Matrix.det_of_isUpperTriangular fun i j hij => ?_
    have hlt : (j : Nat) < i := hij
    show (if InTriangle false i j then entry d n i j else 0) = 0
    exact if_neg (Nat.not_le.mpr hlt)

/-- A triangle with no zero on its diagonal is invertible. -/
theorem isUnit_det_triangle (hd : ∀ i < n, entry d n i i ≠ 0) : IsUnit (triangle lower d n).det := by
  rw [det_triangle, isUnit_iff_ne_zero]
  exact Finset.prod_ne_zero_iff.mpr fun i _ => hd i i.isLt

/-- Solving against an invertible triangle: `T * X = B` makes `X` the product `T⁻¹ * B`. -/
theorem eq_inv_mul_of_triangle_mul {m : Nat} (hd : ∀ i < n, entry d n i i ≠ 0) {X B : RatMatrix n m}
    (h : triangle lower d n * X = B) : X = (triangle lower d n)⁻¹ * B := by
  rw [← h, ← Matrix.mul_assoc, Matrix.nonsing_inv_mul _ (isUnit_det_triangle hd), Matrix.one_mul]

end Triangle

/-! ## Transposes -/

/-- The transpose kernel's storage is the transposed matrix, whatever the scalars. -/
theorem transposeData_eq {α : Type} [Scalar α] (a : Array α) (rows cols : Nat) :
    Builtin.transposeData a rows cols = ofFn cols rows fun i j => entry a rows j i := by
  unfold Builtin.transposeData ofFn entry
  rw [Nat.mul_comm]

theorem transposeData_ofMatrix {r c : Nat} (M : RatMatrix r c) :
    Builtin.transposeData (ofMatrix M) r c = ofMatrix M.transpose := by
  rw [transposeData_eq]
  refine ofFn_congr fun i hi j hj => ?_
  rw [entry_ofMatrix M ⟨j, hj⟩ ⟨i, hi⟩, dif_pos ⟨hi, hj⟩]
  rfl

theorem entry_transposeData {α : Type} [Scalar α] {n i j : Nat} (d : Array α) (hi : i < n) (hj : j < n) :
    entry (Builtin.transposeData d n n) n i j = entry d n j i := by
  rw [transposeData_eq, entry_ofFn _ hi hj]

/-- The lower triangle of the transpose is the transpose of the upper triangle. -/
theorem triangle_transposeData {d : Array ℚ} {n : Nat} :
    triangle true (Builtin.transposeData d n n) n = (triangle false d n).transpose := by
  ext i j
  simp only [triangle, triangleEntry, Matrix.of_apply, Matrix.transpose_apply, InTriangle, if_true,
    Bool.false_eq_true, if_false, entry_transposeData d i.isLt j.isLt]

theorem inTriangle_true {i j : Nat} : InTriangle true i j ↔ j ≤ i := Iff.rfl

theorem inTriangle_false {i j : Nat} : InTriangle false i j ↔ i ≤ j := Iff.rfl

end ColumnMajor

open ColumnMajor

/-! ## Columns built by pushing -/

section Pushes

variable {α : Type}

/-- The array `col₀` with `m` values pushed, the `t`-th computed by `v` from the array so far. -/
def pushes (v : Array α → Nat → α) (col₀ : Array α) (m : Nat) : Array α :=
  (List.range m).foldl (fun col t => col.push (v col t)) col₀

variable (v : Array α → Nat → α) (col₀ : Array α)

theorem pushes_succ (m : Nat) : pushes v col₀ (m + 1) = (pushes v col₀ m).push (v (pushes v col₀ m) m) := by
  rw [pushes, List.range_succ, List.foldl_append, List.foldl_cons, List.foldl_nil]
  rfl

theorem size_pushes (m : Nat) : (pushes v col₀ m).size = col₀.size + m := by
  induction m with
  | zero => rfl
  | succ m ih => rw [pushes_succ, Array.size_push, ih, Nat.add_assoc]

/-- Later pushes keep what is already there. -/
theorem getD_pushes_of_le {m m' k : Nat} (hm : m' ≤ m) (hk : k < col₀.size + m') (d : α) :
    (pushes v col₀ m).getD k d = (pushes v col₀ m').getD k d := by
  induction m with
  | zero => rw [Nat.le_zero.mp hm]
  | succ m ih =>
    rcases Nat.eq_or_lt_of_le hm with rfl | hlt
    · rfl
    · have hk' : k ≠ (pushes v col₀ m).size := by
        rw [size_pushes]
        omega
      rw [pushes_succ, Array.getD_eq_getD_getElem?, Array.getElem?_push, if_neg hk', ← Array.getD_eq_getD_getElem?]
      exact ih (Nat.le_of_lt_succ hlt)

/-- The value pushed `t`-th sits after the start. -/
theorem getD_pushes_new {m t : Nat} (ht : t < m) (d : α) :
    (pushes v col₀ m).getD (col₀.size + t) d = v (pushes v col₀ t) t := by
  rw [getD_pushes_of_le v col₀ ht (by omega : col₀.size + t < col₀.size + (t + 1)), pushes_succ,
    Array.getD_eq_getD_getElem?,
    Array.getElem?_push, if_pos (size_pushes v col₀ t).symm, Option.getD_some]

end Pushes

/-! ## The lower inverse kernel -/

namespace Builtin

section Generic

variable {α : Type} [Scalar α]

/-- The entry at row `i` below the diagonal of column `j` of the lower inverse, from the entries
    `col` above it: minus the sum of `a(i,k) * col(k)` for `k` from `j` up to `i - 1`, over
    `a(i,i)`. -/
def lowerInverseNext (a : Array α) (n j : Nat) (col : Array α) (i : Nat) : α :=
  -((List.range (i - j)).foldl (fun acc s => acc + entry a n i (j + s) * col.getD (j + s) 0) Scalar.negZero) /
    entry a n i i

theorem lowerInverseColumn_eq_pushes (a : Array α) (n j : Nat) :
    lowerInverseColumn a n j =
      pushes (fun col t => lowerInverseNext a n j col (j + 1 + t)) ((Array.replicate j 0).push (1 / entry a n j j))
        (n - j - 1) := rfl

/-- The next entry reads only the entries above it. -/
theorem lowerInverseNext_congr {a : Array α} {n j i : Nat} {col col' : Array α}
    (h : ∀ k < i, col.getD k 0 = col'.getD k 0) : lowerInverseNext a n j col i = lowerInverseNext a n j col' i := by
  unfold lowerInverseNext
  congr 2
  refine List.foldl_ext _ _ _ fun acc s hs => ?_
  rw [h (j + s) (by rw [List.mem_range] at hs; omega)]

theorem size_lowerInverseColumn {a : Array α} {n j : Nat} (hj : j < n) : (lowerInverseColumn a n j).size = n := by
  rw [lowerInverseColumn_eq_pushes, size_pushes, Array.size_push, Array.size_replicate]
  omega

/-- Column `j` of the lower inverse: zero above the diagonal, `1 / a(j,j)` on it, and below it
    each entry computed from the entries of the column above it. -/
theorem lowerInverseColumn_getD {a : Array α} {n j i : Nat} (hi : i < n) :
    (lowerInverseColumn a n j).getD i 0 =
      if i < j then 0
      else if i = j then 1 / entry a n j j
      else lowerInverseNext a n j (lowerInverseColumn a n j) i := by
  have hsize₀ : ((Array.replicate j (0 : α)).push (1 / entry a n j j)).size = j + 1 := by simp
  rw [lowerInverseColumn_eq_pushes]
  split
  · -- above the diagonal: the zeros the column starts with
    rename_i hij
    rw [getD_pushes_of_le _ _ (Nat.zero_le _) (by omega), pushes, List.range_zero, List.foldl_nil,
      Array.getD_eq_getD_getElem?, Array.getElem?_push, if_neg (by simp; omega)]
    simp [hij]
  split
  · -- on the diagonal: the start's last entry
    rename_i _ hij
    rw [getD_pushes_of_le _ _ (Nat.zero_le _) (by omega), pushes, List.range_zero, List.foldl_nil,
      Array.getD_eq_getD_getElem?, Array.getElem?_push, if_pos (by simp [hij])]
    rfl
  · -- below it: the entry pushed at step `i - j - 1`, from the entries above it
    obtain ⟨t, rfl⟩ : ∃ t, i = j + 1 + t := ⟨i - j - 1, by omega⟩
    have ht : t < n - j - 1 := by omega
    rw [show j + 1 + t = ((Array.replicate j (0 : α)).push (1 / entry a n j j)).size + t by rw [hsize₀],
      getD_pushes_new _ _ ht, ← hsize₀]
    refine lowerInverseNext_congr fun k hk => ?_
    exact (getD_pushes_of_le _ _ (Nat.le_of_lt ht) (by rw [hsize₀]; omega) 0).symm

end Generic

end Builtin

/-! ## The lower inverse in exact arithmetic -/

/-- A sum over `k < n` whose terms vanish below `j` and above `i` runs from `j` to `i`. -/
theorem sum_range_eq_sum_between {f : Nat → ℚ} {n i j : Nat} (hji : j ≤ i) (hin : i < n)
    (hlow : ∀ k < j, f k = 0) (hhigh : ∀ k, i < k → f k = 0) :
    ∑ k ∈ Finset.range n, f k = ∑ s ∈ Finset.range (i - j), f (j + s) + f i := by
  have hsum := Finset.sum_range_add f (j + (i - j + 1)) (n - i - 1)
  rw [Finset.sum_range_add f j (i - j + 1), show j + (i - j + 1) + (n - i - 1) = n by omega] at hsum
  have h₁ : ∑ k ∈ Finset.range j, f k = 0 := Finset.sum_eq_zero fun k hk => hlow k (Finset.mem_range.mp hk)
  have h₃ : ∑ x ∈ Finset.range (n - i - 1), f (j + (i - j + 1) + x) = 0 :=
    Finset.sum_eq_zero fun x _ => hhigh _ (by omega)
  rw [hsum, h₁, h₃, zero_add, add_zero, Finset.sum_range_succ, show j + (i - j) = i by omega]

section Exact

variable {A : Array ℚ} {n : Nat}

theorem lowerInverseNext_exact (j : Nat) (col : Array ℚ) (i : Nat) :
    Builtin.lowerInverseNext A n j col i =
      -(∑ s ∈ Finset.range (i - j), entry A n i (j + s) * col.getD (j + s) 0) / entry A n i i := by
  unfold Builtin.lowerInverseNext
  rw [foldl_range_add, show (Scalar.negZero : ℚ) = 0 from rfl, zero_add]

/-- The lower inverse kernel's columns as a matrix. -/
def lowerInverseMatrix (A : Array ℚ) (n : Nat) : RatMatrix n n :=
  Matrix.of fun i j => (Builtin.lowerInverseColumn A n j).getD i 0

/-- The lower triangle times the kernel's columns is the identity. -/
theorem triangle_mul_lowerInverseMatrix (hd : ∀ i < n, entry A n i i ≠ 0) :
    triangle true A n * lowerInverseMatrix A n = 1 := by
  ext ⟨i, hi⟩ ⟨j, hj⟩
  rw [Matrix.mul_apply, Matrix.one_apply]
  -- the sum over the row of the triangle against the column
  let f : Nat → ℚ := fun k => (if k ≤ i then entry A n i k else 0) * (Builtin.lowerInverseColumn A n j).getD k 0
  have hsum : ∑ k : Fin n, triangle true A n ⟨i, hi⟩ k * lowerInverseMatrix A n k ⟨j, hj⟩ =
      ∑ k ∈ Finset.range n, f k := Fin.sum_univ_eq_sum_range f n
  rw [hsum]
  have hzero : ∀ k < j, (Builtin.lowerInverseColumn A n j).getD k 0 = 0 := fun k hk => by
    rw [Builtin.lowerInverseColumn_getD (by omega), if_pos hk]
  by_cases hji : j ≤ i
  · rw [sum_range_eq_sum_between hji hi (fun k hk => by simp only [f]; rw [hzero k hk, mul_zero])
      (fun k hk => by simp [f, Nat.not_le.mpr hk])]
    have hterms : ∀ s ∈ Finset.range (i - j), f (j + s) =
        entry A n i (j + s) * (Builtin.lowerInverseColumn A n j).getD (j + s) 0 := fun s hs => by
      have : j + s ≤ i := by rw [Finset.mem_range] at hs; omega
      simp [f, this]
    rw [Finset.sum_congr rfl hterms]
    simp only [f, Nat.le_refl, if_true]
    rcases Nat.eq_or_lt_of_le hji with rfl | hlt
    · -- the diagonal: `a(j,j) * (1 / a(j,j))`
      rw [Builtin.lowerInverseColumn_getD hi, if_neg (Nat.lt_irrefl _), if_pos rfl, Nat.sub_self,
        Finset.sum_range_zero, zero_add, if_pos rfl, mul_one_div_cancel (hd _ hi)]
    · -- below it: the entry cancels the sum of the terms before it
      rw [Builtin.lowerInverseColumn_getD hi, if_neg (by omega), if_neg (by omega), lowerInverseNext_exact,
        if_neg (by intro h; cases h; omega), mul_div_cancel₀ _ (hd i hi)]
      ring
  · -- above the diagonal every term has a zero factor
    rw [if_neg (by intro h; cases h; omega)]
    refine Finset.sum_eq_zero fun k hk => ?_
    by_cases hki : k ≤ i
    · simp only [f]
      rw [hzero k (by omega), mul_zero]
    · simp [f, hki]

theorem lowerInverseMatrix_eq (hd : ∀ i < n, entry A n i i ≠ 0) :
    lowerInverseMatrix A n = (triangle true A n)⁻¹ :=
  (Matrix.inv_eq_right_inv (triangle_mul_lowerInverseMatrix hd)).symm

/-- The lower inverse kernel computes the inverse of the lower triangle in exact arithmetic. -/
theorem lowerInverseColumns_exact (hd : ∀ i < n, entry A n i i ≠ 0) :
    Builtin.lowerInverseColumns A n = ofMatrix (triangle true A n)⁻¹ := by
  unfold Builtin.lowerInverseColumns
  rw [foldl_append_columns n n (Builtin.lowerInverseColumn A n) fun j hj => Builtin.size_lowerInverseColumn hj,
    ← lowerInverseMatrix_eq hd]
  refine ofFn_congr fun i hi j hj => ?_
  rw [dif_pos ⟨hi, hj⟩]
  rfl

end Exact

/-! ## The device's triangular inverse -/

section Device

variable {α : Type} [Scalar α]

/-- The storage the device computes for the inverse of the lower (`lower = true`) or upper
    triangle of the order-`n` matrix `a`: the lower inverse kernel's columns, or for the upper
    triangle the transpose of the lower inverse of the transpose. -/
def triInverseData (lower : Bool) (a : Array α) (n : Nat) : Array α :=
  if lower then Builtin.lowerInverseColumns a n
  else Builtin.transposeData (Builtin.lowerInverseColumns (Builtin.transposeData a n n) n) n n

end Device

section Exact

variable {A : Array ℚ} {n : Nat}

/-- The upper triangle is inverted through the lower inverse of the transpose, which has the same
    diagonal. -/
theorem upperInverse_exact (hd : ∀ i < n, entry A n i i ≠ 0) :
    Builtin.transposeData (Builtin.lowerInverseColumns (Builtin.transposeData A n n) n) n n =
      ofMatrix (triangle false A n)⁻¹ := by
  have hd' : ∀ i < n, entry (Builtin.transposeData A n n) n i i ≠ 0 := fun i hi => by
    rw [entry_transposeData A hi hi]
    exact hd i hi
  -- `((Uᵀ)⁻¹)ᵀ = U⁻¹`
  rw [lowerInverseColumns_exact hd', triangle_transposeData, transposeData_ofMatrix,
    Matrix.transpose_nonsing_inv, Matrix.transpose_transpose]

/-- The device's triangular inverse is the inverse of the triangle in exact arithmetic. -/
theorem triInverseData_exact (lower : Bool) (hd : ∀ i < n, entry A n i i ≠ 0) :
    triInverseData lower A n = ofMatrix (triangle lower A n)⁻¹ := by
  cases lower with
  | true => exact lowerInverseColumns_exact hd
  | false => exact upperInverse_exact hd

/-- The product kernel applied to the device's inverse and `B` gives `T⁻¹ * B` in exact
    arithmetic. -/
theorem multiplyColumns_triInverseData (lower : Bool) (hd : ∀ i < n, entry A n i i ≠ 0) (B : Array ℚ) (m : Nat) :
    Builtin.multiplyColumns (triInverseData lower A n) B n m n =
      ofMatrix ((triangle lower A n)⁻¹ * toMatrix B n m) := by
  rw [multiplyColumns_exact, exactProduct_eq, triInverseData_exact lower hd, toMatrix_ofMatrix]

end Exact

/-! ## Substitution on the host -/

section Substitution

/-- What the rows `done` of the triangle `T` leave unexplained of the right-hand side, for the
    partial solution `x`: a row not yet done still counts its own entry of `x`. -/
def residual (T : Nat → Nat → ℚ) (done : Finset Nat) (x : Array ℚ) (k : Nat) : ℚ :=
  (if k ∈ done then 0 else x.getD k 0) + ∑ p ∈ done, T k p * x.getD p 0

theorem getD_setIfInBounds (x : Array ℚ) (i k : Nat) (v : ℚ) :
    (x.setIfInBounds i v).getD k 0 = if i = k ∧ i < x.size then v else x.getD k 0 := by
  rw [Array.getD_eq_getD_getElem?, Array.getElem?_setIfInBounds, Array.getD_eq_getD_getElem?]
  by_cases hik : i = k
  · subst hik
    by_cases hs : i < x.size
    · simp [hs]
    · simp [hs]
  · simp [hik]

/-- Updating each row of a list once, from its own value. -/
theorem getD_foldl_update (g : Nat → ℚ) {later : List Nat} (hnd : later.Nodup) (x : Array ℚ) (k : Nat) :
    (later.foldl (fun x k => x.setIfInBounds k (g k + x.getD k 0)) x).getD k 0 =
      if k ∈ later ∧ k < x.size then g k + x.getD k 0 else x.getD k 0 := by
  induction later generalizing x with
  | nil => simp
  | cons k₀ rest ih =>
    obtain ⟨hk₀, hnd⟩ := List.nodup_cons.mp hnd
    rw [List.foldl_cons, ih hnd, Array.size_setIfInBounds]
    simp only [getD_setIfInBounds]
    by_cases hk : k = k₀
    · subst hk
      simp [hk₀]
    · simp [hk, Ne.symm hk]

theorem size_foldl_setIfInBounds (f : Array ℚ → Nat → ℚ) (later : List Nat) (x : Array ℚ) :
    (later.foldl (fun x k => x.setIfInBounds k (f x k)) x).size = x.size := by
  induction later generalizing x with
  | nil => rfl
  | cons k rest ih => rw [List.foldl_cons, ih, Array.size_setIfInBounds]

theorem size_substStep (a : Array ℚ) (n : Nat) (x : Array ℚ) (i : Nat) (later : List Nat) :
    (Matrix.substStep a n x i later).size = x.size := by
  unfold Matrix.substStep
  rw [size_foldl_setIfInBounds, Array.size_setIfInBounds]

/-- One substitution step at row `i`: the row's entry over the diagonal, and each later row less
    that value times its entry in column `i`. -/
theorem getD_substStep (a : Array ℚ) (n : Nat) {x : Array ℚ} {i : Nat} {later : List Nat} (hi : i < x.size)
    (hil : i ∉ later) (hnd : later.Nodup) (hls : ∀ k ∈ later, k < x.size) (k : Nat) :
    (Matrix.substStep a n x i later).getD k 0 =
      if k = i then x.getD i 0 / entry a n i i
      else if k ∈ later then -(x.getD i 0 / entry a n i i) * entry a n k i + x.getD k 0
      else x.getD k 0 := by
  unfold Matrix.substStep
  dsimp only
  rw [getD_foldl_update _ hnd, Array.size_setIfInBounds]
  simp only [getD_setIfInBounds]
  by_cases hki : k = i
  · subst hki
    simp [hil, hi]
  · by_cases hkl : k ∈ later
    · simp [hki, hkl, hls k hkl, Ne.symm hki]
    · simp [hki, hkl, Ne.symm hki]

/-- A substitution step at row `i`, against the triangle `T` whose row `i` has the diagonal of
    `a`, whose later rows read column `i` of `a` and whose rows done have nothing in column `i`:
    with row `i` done too, the right-hand side is explained as before. -/
theorem residual_substStep {a : Array ℚ} {n : Nat} {T : Nat → Nat → ℚ} {done : Finset Nat} {x : Array ℚ}
    {i : Nat} {later : List Nat} (hx : x.size = n) (hi : i < n) (hid : i ∉ done) (hdiag : entry a n i i ≠ 0)
    (hTi : T i i = entry a n i i) (hnd : later.Nodup) (hlater : ∀ k, k ∈ later ↔ k < n ∧ k ∉ done ∧ k ≠ i)
    (hTlater : ∀ k ∈ later, T k i = entry a n k i) (hTdone : ∀ k ∈ done, T k i = 0) {k : Nat} (hk : k < n) :
    residual T (insert i done) (Matrix.substStep a n x i later) k = residual T done x k := by
  have hil : i ∉ later := fun h => ((hlater i).mp h).2.2 rfl
  have hls : ∀ k ∈ later, k < x.size := fun k h => hx ▸ ((hlater k).mp h).1
  have hx' := getD_substStep a n (hx ▸ hi) hil hnd hls
  -- the rows done keep their entries
  have hdone : ∀ p ∈ done, (Matrix.substStep a n x i later).getD p 0 = x.getD p 0 := fun p hp => by
    rw [hx', if_neg (fun (h : p = i) => hid (h ▸ hp)), if_neg (fun h => ((hlater p).mp h).2.1 hp)]
  unfold residual
  rw [Finset.sum_insert hid, Finset.sum_congr rfl fun p hp => by rw [hdone p hp]]
  by_cases hki : k = i
  · -- row `i` itself: its diagonal times its new entry is its old entry
    subst hki
    rw [if_pos (Finset.mem_insert_self _ _), if_neg hid, hx', if_pos rfl, hTi, mul_div_cancel₀ _ hdiag, zero_add]
  · by_cases hkd : k ∈ done
    · rw [if_pos (Finset.mem_insert_of_mem hkd), if_pos hkd, hTdone k hkd, zero_mul, zero_add]
    · -- a later row: what it lost in its entry it gains in column `i`
      have hkl : k ∈ later := (hlater k).mpr ⟨hk, hkd, hki⟩
      rw [if_neg (by simp [hki, hkd]), if_neg hkd, hx', if_neg hki, if_pos hkl, hx', if_pos rfl, hTlater k hkl]
      ring

theorem mem_map_add_range {i n k : Nat} : k ∈ (List.range (n - i - 1)).map (· + i + 1) ↔ i < k ∧ k < n := by
  simp only [List.mem_map, List.mem_range]
  constructor
  · rintro ⟨t, ht, rfl⟩
    omega
  · intro h
    exact ⟨k - i - 1, by omega, by omega⟩

variable {a : Array ℚ} {n : Nat}

/-- Forward substitution, after the rows `i < m`. -/
theorem residual_solveLower (hd : ∀ i < n, entry a n i i ≠ 0) {x₀ : Array ℚ} (hx₀ : x₀.size = n) {m : Nat}
    (hm : m ≤ n) :
    ((List.range m).foldl (fun x i => Matrix.substStep a n x i ((List.range (n - i - 1)).map (· + i + 1))) x₀).size = n ∧
      ∀ k < n, residual (triangleEntry true a n) (Finset.range m)
        ((List.range m).foldl (fun x i => Matrix.substStep a n x i ((List.range (n - i - 1)).map (· + i + 1))) x₀) k =
          x₀.getD k 0 := by
  induction m with
  | zero => exact ⟨hx₀, fun k _ => by simp [residual]⟩
  | succ m ih =>
    obtain ⟨hsize, hres⟩ := ih (Nat.le_of_succ_le hm)
    rw [List.range_succ, List.foldl_append, List.foldl_cons, List.foldl_nil, Finset.range_add_one]
    refine ⟨by rw [size_substStep, hsize], fun k hk => ?_⟩
    -- row `m` is done next; the rows after it read column `m`, the rows before it do not
    exact (residual_substStep hsize hm Finset.notMem_range_self (hd m hm) (if_pos (Nat.le_refl m))
      ((List.nodup_range).map fun p q h => by omega) (fun k => by rw [mem_map_add_range]; simp; omega)
      (fun k hk => if_pos (mem_map_add_range.mp hk).1.le)
      (fun k hk => if_neg (Nat.not_le.mpr (Finset.mem_range.mp hk))) hk).trans (hres k hk)

/-- Back substitution, after the rows `n - m ≤ i < n`. -/
theorem residual_solveUpper (hd : ∀ i < n, entry a n i i ≠ 0) {x₀ : Array ℚ} (hx₀ : x₀.size = n) {m : Nat}
    (hm : m ≤ n) :
    ((List.range' (n - m) m).foldr (fun i x => Matrix.substStep a n x i (List.range i)) x₀).size = n ∧
      ∀ k < n, residual (triangleEntry false a n) (Finset.Ico (n - m) n)
        ((List.range' (n - m) m).foldr (fun i x => Matrix.substStep a n x i (List.range i)) x₀) k = x₀.getD k 0 := by
  induction m with
  | zero => exact ⟨hx₀, fun k _ => by simp [residual]⟩
  | succ m ih =>
    obtain ⟨hsize, hres⟩ := ih (Nat.le_of_succ_le hm)
    -- row `n - m - 1` is done next; the rows before it read column `n - m - 1`, the rows after it do not
    rw [show n - (m + 1) = n - m - 1 by omega, List.range'_succ, show n - m - 1 + 1 = n - m by omega,
      List.foldr_cons]
    have hins : Finset.Ico (n - m - 1) n = insert (n - m - 1) (Finset.Ico (n - m) n) := by
      ext k
      simp only [Finset.mem_Ico, Finset.mem_insert]
      omega
    refine ⟨by rw [size_substStep, hsize], fun k hk => ?_⟩
    rw [hins]
    exact (residual_substStep hsize (by omega) (by simp only [Finset.mem_Ico]; omega) (hd _ (by omega))
      (if_pos (Nat.le_refl _)) List.nodup_range (fun k => by simp only [List.mem_range, Finset.mem_Ico]; omega)
      (fun k hk => if_pos (Nat.le_of_lt (List.mem_range.mp hk)))
      (fun k hk => if_neg (by rw [inTriangle_false]; simp only [Finset.mem_Ico] at hk; omega)) hk).trans (hres k hk)

/-- The substitution of the host solves one column against the triangle. -/
theorem solveColumn_exact (lower : Bool) (hd : ∀ i < n, entry a n i i ≠ 0) {x₀ : Array ℚ} (hx₀ : x₀.size = n) :
    (if lower then Matrix.solveLowerColumn a n x₀ else Matrix.solveUpperColumn a n x₀).size = n ∧
      ∀ k < n, ∑ p ∈ Finset.range n, triangleEntry lower a n k p *
        (if lower then Matrix.solveLowerColumn a n x₀ else Matrix.solveUpperColumn a n x₀).getD p 0 = x₀.getD k 0 := by
  -- with every row done, a row's residual is the row of the triangle against the column
  have hfull : ∀ {x : Array ℚ}, (∀ k < n, residual (triangleEntry lower a n) (Finset.range n) x k = x₀.getD k 0) →
      ∀ k < n, ∑ p ∈ Finset.range n, triangleEntry lower a n k p * x.getD p 0 = x₀.getD k 0 := by
    intro x h k hk
    have := h k hk
    rwa [residual, if_pos (Finset.mem_range.mpr hk), zero_add] at this
  cases lower with
  | true =>
    obtain ⟨hsize, hres⟩ := residual_solveLower hd hx₀ (Nat.le_refl n)
    exact ⟨hsize, hfull hres⟩
  | false =>
    obtain ⟨hsize, hres⟩ := residual_solveUpper hd hx₀ (Nat.le_refl n)
    rw [Nat.sub_self, ← List.range_eq_range'] at hsize hres
    rw [← Finset.range_eq_Ico] at hres
    have hfold : Matrix.solveUpperColumn a n x₀ =
        (List.range n).foldr (fun i x => Matrix.substStep a n x i (List.range i)) x₀ := by
      rw [Matrix.solveUpperColumn, List.foldl_reverse]
    rw [if_neg Bool.false_ne_true, hfold]
    exact ⟨hsize, hfull hres⟩

/-- Columns made one by one and laid one after another. -/
theorem flatMap_map_range {α : Type} (f : Nat → Array α) (m : Nat) :
    ((Array.range m).map f).flatMap id = (List.range m).foldl (fun acc j => acc ++ f j) #[] := by
  rw [Array.flatMap, Array.foldl_map, ← Array.foldl_toList, Array.toList_range]
  rfl

/-- The host's triangular solve is `T⁻¹ * B` in exact arithmetic. -/
theorem solveTriangularData_exact (lower : Bool) (hd : ∀ i < n, entry a n i i ≠ 0) (B : Array ℚ) (m : Nat) :
    Matrix.solveTriangularData a n B n m lower = ofMatrix ((triangle lower a n)⁻¹ * toMatrix B n m) := by
  -- column `j` of `B`, and its solution
  let x₀ : Nat → Array ℚ := fun j => (Array.range n).map fun i => entry B n i j
  let col : Nat → Array ℚ := fun j =>
    if lower then Matrix.solveLowerColumn a n (x₀ j) else Matrix.solveUpperColumn a n (x₀ j)
  have hx₀ : ∀ j, (x₀ j).size = n := fun j => by simp [x₀]
  have hx₀get : ∀ j, ∀ k < n, (x₀ j).getD k 0 = entry B n k j := fun j k hk => by simp [x₀, hk]
  have hsolve : Matrix.solveTriangularData a n B n m lower = (List.range m).foldl (fun acc j => acc ++ col j) #[] :=
    flatMap_map_range col m
  rw [hsolve, foldl_append_columns n m col fun j _ => (solveColumn_exact lower hd (hx₀ j)).1, ofFn_eq_ofMatrix]
  congr 1
  -- the solved columns make `X` with `T * X = B`
  refine eq_inv_mul_of_triangle_mul hd ?_
  ext ⟨k, hk⟩ ⟨j, hj⟩
  rw [Matrix.mul_apply, toMatrix_apply, ← hx₀get j k hk, ← (solveColumn_exact lower hd (hx₀ j)).2 k hk]
  exact Fin.sum_univ_eq_sum_range (fun p => triangleEntry lower a n k p * (col j).getD p 0) n

theorem identity_eq_ofMatrix (n : Nat) :
    ofFn n n (fun i j => if i = j then (1 : ℚ) else 0) = ofMatrix (1 : RatMatrix n n) := by
  rw [ofFn_eq_ofMatrix]
  congr 1
  ext i j
  simp [Matrix.one_apply, Fin.ext_iff]

end Substitution

end OffloadAlgebra
