import Mathlib
import OffloadAlgebra.Proofs.Kernels.InPlace
import OffloadAlgebra.Proofs.Dispatch.Triangular
/-!
  What a launch of each built-in kernel does.

  A launch hands a kernel its arguments in the order of its signature: the contents of each
  buffer and the integers given as values (`productLaunch`, `transposeLaunch`, `inverseLaunch`,
  which are the launches `launchWork` makes). Each of the three kernels reads its sizes first and
  refuses a negative one, then refuses a buffer shorter than the part of it the kernel touches;
  a refusal is a device error and writes nothing. Past the checks the kernel writes one buffer:
  its head gets the kernel's result and the rest of it stays. `RefusesOrWrites` says this once
  for the three kernels, and each kernel's do-block is read into it by one case per check.

  What is written is read in two ways. In exact arithmetic the same functions, run on rationals,
  compute the column-major product and the inverse of the lower triangle (through
  `multiplyColumns_exact` and `lowerInverseColumns_exact`). And the loops of `InPlace`, which read
  and store only inside their buffers, leave exactly what is written: the checks dominate every
  index the loops compute (`matrixMultiply_staysInside` and its two siblings). Sizes are 32-bit
  integers, so no product of two of them reaches `2 ^ 64`.
-/

namespace OffloadAlgebra

/-! ## Arguments of a launch -/

namespace Launch

variable {l : Launch} {i : Nat}

theorem size_of_int {v : Int} (h : l.args[i]? = some (.int v)) :
    l.size i = if v < 0 then l.fail ("argument " ++ toString i ++ " must be non-negative, got " ++ toString v)
      else .ok v.toNat := by
  simp only [size, int, arg, h]
  rfl

theorem read_of_buffer {d : Array Float} {dir : Direction} (h : l.args[i]? = some (.buffer d dir)) :
    l.read i = .ok d := by
  simp only [read, arg, h]
  rfl

theorem write_of_buffer {d : Array Float} {dir : Direction} (h : l.args[i]? = some (.buffer d dir))
    (hw : dir.writes = true) : l.write i = .ok d := by
  simp only [write, arg, h]
  exact if_pos hw

/-- A check that refuses with a device error, followed by the rest of the kernel. -/
theorem check_bind {α β : Type} {c : Prop} [Decidable c] {m : String} {a : α} {f : α → Except Fault β} :
    ((if c then l.fail m else .ok a) >>= f) = if c then l.fail m else f a := by
  split <;> rfl

theorem ensureLen_bind {β : Type} {what : String} {buf : Array Float} {n : Nat} {f : Unit → Except Fault β} :
    (l.ensureLen what buf n >>= f) =
      if buf.size < n then l.fail (what ++ " holds " ++ toString buf.size ++ " elements, kernel touches " ++ toString n)
      else f () :=
  check_bind

end Launch

/-! ## A head written over a buffer -/

section Head

variable {α : Type} {X C : Array α} {p : Nat}

theorem size_append_extract (hX : X.size = p) (hp : p ≤ C.size) : (X ++ C.extract p C.size).size = C.size := by
  simp only [Array.size_append, Array.size_extract, hX, Nat.min_self]
  omega

/-- Past the head, the buffer is as it was. -/
theorem getElem?_append_extract (hX : X.size = p) {t : Nat} (ht : p ≤ t) :
    (X ++ C.extract p C.size)[t]? = C[t]? := by
  rw [Array.getElem?_append_right (by omega), Array.getElem?_extract, hX, Nat.min_self]
  split_ifs with hin
  · congr 1
    omega
  · exact (Array.getElem?_eq_none (by omega)).symm

end Head

/-! ## Column-major storage followed by the rest of a buffer -/

/-- Entry `(i, j)` of storage followed by anything is at `j * m + i`. -/
theorem ColumnMajor.getElem?_ofFn_append {α : Type} {m n i j : Nat} (f : Nat → Nat → α) (R : Array α)
    (hi : i < m) (hj : j < n) : (ColumnMajor.ofFn m n f ++ R)[j * m + i]? = some (f i j) := by
  have ht : j * m + i < (ColumnMajor.ofFn m n f).size := by
    rw [ColumnMajor.size_ofFn]
    exact Builtin.colIndex_lt hi hj
  rw [Array.getElem?_append_left ht, Array.getElem?_eq_getElem ht, ColumnMajor.getElem_ofFn, Nat.mul_comm j m,
    Nat.mul_add_mod, Nat.mod_eq_of_lt hi, Nat.mul_add_div (by omega), Nat.div_eq_of_lt hi, Nat.add_zero]

/-- Storage followed by anything reads as the square matrix stored at its head. -/
theorem ColumnMajor.toMatrix_append {X R : Array ℚ} {n : Nat} (hX : n * n ≤ X.size) :
    ColumnMajor.toMatrix (X ++ R) n n = ColumnMajor.toMatrix X n n := by
  ext i j
  simp only [ColumnMajor.toMatrix_apply, ColumnMajor.entry, Array.getD_eq_getD_getElem?]
  rw [Array.getElem?_append_left (Nat.lt_of_lt_of_le (Builtin.colIndex_lt i.isLt j.isLt) hX)]

/-! ## The sizes of a launch -/

/-- A product of two sizes that are 32-bit integers is a machine word. -/
theorem mul_lt_modulus_of_le_int32Max {a b : Int} (ha : a ≤ int32Max) (hb : b ≤ int32Max) :
    a.toNat * b.toNat < Word.modulus := by
  have ha' : a.toNat ≤ int32Max := Int.toNat_le.mpr ha
  have hb' : b.toNat ≤ int32Max := Int.toNat_le.mpr hb
  calc a.toNat * b.toNat ≤ int32Max * int32Max := Nat.mul_le_mul ha' hb'
    _ < Word.modulus := by decide

namespace Builtin

/-! ## The launches of the built-in kernels -/

/-- A launch of the product kernel: `A` and `B` read, `C` written, then the sizes `M`, `N`, `K`. -/
def productLaunch (name : String) (A B C : Array Float) (M N K : Int) (options : OptionMap) (range : NdRange) :
    Launch :=
  ⟨name, #[.buffer A .input, .buffer B .input, .buffer C .output, .int M, .int N, .int K], options, range⟩

/-- A launch of the transpose kernel: `B` written, `A` read, then `A`'s rows and columns. -/
def transposeLaunch (name : String) (B A : Array Float) (rows cols : Int) (options : OptionMap) (range : NdRange) :
    Launch :=
  ⟨name, #[.buffer B .output, .buffer A .input, .int rows, .int cols], options, range⟩

/-- A launch of the lower inverse kernel: `A` read, `inv` written, then the side `n`. -/
def inverseLaunch (name : String) (A inv : Array Float) (n : Int) (options : OptionMap) (range : NdRange) :
    Launch :=
  ⟨name, #[.buffer A .input, .buffer inv .output, .int n], options, range⟩

/-! The launches `launchWork` makes for the kernels' signatures, from device matrices and
    integers. -/

theorem productLaunch_of_lower (c : Context) (x y z : Nat) (M N K : Int) (options : OptionMap) (range : NdRange) :
    (⟨Standard.matrixMultiply.name,
      (([.matrix x, .matrix y, .matrix z, .int M, .int N, .int K] : List KernelArg).zip
        Standard.matrixMultiply.signature |>.map c.lower).toArray, options, range⟩ : Launch) =
      productLaunch "matrix_multiply" (c.matrix x).data (c.matrix y).data (c.matrix z).data M N K options range :=
  rfl

theorem transposeLaunch_of_lower (c : Context) (y x : Nat) (rows cols : Int) (options : OptionMap) (range : NdRange) :
    (⟨Standard.transpose.name,
      (([.matrix y, .matrix x, .int rows, .int cols] : List KernelArg).zip
        Standard.transpose.signature |>.map c.lower).toArray, options, range⟩ : Launch) =
      transposeLaunch "transpose" (c.matrix y).data (c.matrix x).data rows cols options range :=
  rfl

theorem inverseLaunch_of_lower (c : Context) (x y : Nat) (n : Int) (options : OptionMap) (range : NdRange) :
    (⟨Standard.lowerTriInverse.name,
      (([.matrix x, .matrix y, .int n] : List KernelArg).zip
        Standard.lowerTriInverse.signature |>.map c.lower).toArray, options, range⟩ : Launch) =
      inverseLaunch "lower_tri_inverse" (c.matrix x).data (c.matrix y).data n options range :=
  rfl

/-! ## Refused, or one buffer written -/

/-- A kernel's run on a launch either refuses, with a device error, for one of the reasons
    `refused` names, or, none of them holding, writes into argument `slot` a buffer with `P`, and
    nothing else. -/
def RefusesOrWrites (run : Except Fault Writes) (refused : Prop) (slot : Nat) (P : Array Float → Prop) : Prop :=
  (refused ∧ ∃ msg, run = .error (.error (.device msg))) ∨
    (¬ refused ∧ ∃ out, run = .ok [(slot, out)] ∧ P out)

namespace RefusesOrWrites

variable {run : Except Fault Writes} {refused : Prop} {slot : Nat} {P Q : Array Float → Prop}

theorem error_of (h : RefusesOrWrites run refused slot P) (hr : refused) :
    ∃ msg, run = .error (.error (.device msg)) := by
  rcases h with ⟨-, h⟩ | ⟨hn, -⟩
  · exact h
  · exact absurd hr hn

theorem ok_of (h : RefusesOrWrites run refused slot P) (hr : ¬ refused) :
    ∃ out, run = .ok [(slot, out)] ∧ P out := by
  rcases h with ⟨h, -⟩ | ⟨-, h⟩
  · exact absurd h hr
  · exact h

/-- A check in front of a kernel: it refuses when the check fails, and otherwise the kernel goes
    on as it would. -/
theorem check {l : Launch} {c : Prop} [Decidable c] {m : String} (h : RefusesOrWrites run refused slot P) :
    RefusesOrWrites (if c then l.fail m else run) (c ∨ refused) slot P := by
  by_cases hc : c
  · exact Or.inl ⟨Or.inl hc, _, if_pos hc⟩
  · rw [if_neg hc]
    rcases h with ⟨hr, msg, hrun⟩ | ⟨hr, out, hrun, hP⟩
    · exact Or.inl ⟨Or.inr hr, msg, hrun⟩
    · exact Or.inr ⟨fun h => h.elim hc hr, out, hrun, hP⟩

/-- The last check of a kernel, in front of its write. -/
theorem last {l : Launch} {c : Prop} [Decidable c] {m : String} {out : Array Float} (hP : ¬ c → P out) :
    RefusesOrWrites (if c then l.fail m else pure [(slot, out)]) c slot P := by
  by_cases hc : c
  · exact Or.inl ⟨hc, _, if_pos hc⟩
  · exact Or.inr ⟨hc, out, if_neg hc, hP hc⟩

theorem mono (h : RefusesOrWrites run refused slot P) (hPQ : ¬ refused → ∀ out, P out → Q out) :
    RefusesOrWrites run refused slot Q := by
  rcases h with h | ⟨hr, out, hrun, hP⟩
  · exact Or.inl h
  · exact Or.inr ⟨hr, out, hrun, hPQ hr out hP⟩

end RefusesOrWrites

/-! ## The three kernels on their launches -/

/-- The product kernel refuses a negative size or a short buffer, and otherwise writes the
    product's columns over the head of `C`. -/
theorem matrixMultiply_refusesOrWrites (name : String) (A B C : Array Float) (M N K : Int) (options : OptionMap)
    (range : NdRange) :
    RefusesOrWrites (matrixMultiply (productLaunch name A B C M N K options range))
      (M < 0 ∨ N < 0 ∨ K < 0 ∨ A.size < M.toNat * K.toNat ∨ B.size < K.toNat * N.toNat ∨
        C.size < M.toNat * N.toNat) 2
      (· = multiplyColumns A B M.toNat N.toNat K.toNat ++ C.extract (M.toNat * N.toNat) C.size) := by
  unfold matrixMultiply
  rw [Launch.size_of_int (v := M) rfl, Launch.size_of_int (v := N) rfl, Launch.size_of_int (v := K) rfl,
    Launch.read_of_buffer (d := A) rfl, Launch.read_of_buffer (d := B) rfl,
    Launch.write_of_buffer (d := C) rfl rfl]
  simp only [Launch.check_bind, Launch.ensureLen_bind, Except.ok_bind]
  -- the three sizes, then the three lengths, in the kernel's order; past them it writes
  exact .check (.check (.check (.check (.check (.last fun _ => rfl)))))

/-- The transpose kernel refuses a negative size or a short buffer, and otherwise writes the
    transpose over the head of `B`. -/
theorem transpose_refusesOrWrites (name : String) (B A : Array Float) (rows cols : Int) (options : OptionMap)
    (range : NdRange) :
    RefusesOrWrites (transpose (transposeLaunch name B A rows cols options range))
      (rows < 0 ∨ cols < 0 ∨ A.size < rows.toNat * cols.toNat ∨ B.size < rows.toNat * cols.toNat) 0
      (· = transposeData A rows.toNat cols.toNat ++ B.extract (rows.toNat * cols.toNat) B.size) := by
  unfold transpose
  rw [Launch.size_of_int (v := rows) rfl, Launch.size_of_int (v := cols) rfl,
    Launch.read_of_buffer (d := A) rfl, Launch.write_of_buffer (d := B) rfl rfl]
  simp only [Launch.check_bind, Launch.ensureLen_bind, Except.ok_bind]
  -- the two sizes, then the two lengths
  exact .check (.check (.check (.last fun _ => rfl)))

/-- The lower inverse kernel refuses a negative side or a short buffer, and otherwise writes the
    inverse's columns over the head of `inv`. -/
theorem lowerTriInverse_refusesOrWrites (name : String) (A inv : Array Float) (n : Int) (options : OptionMap)
    (range : NdRange) :
    RefusesOrWrites (lowerTriInverse (inverseLaunch name A inv n options range))
      (n < 0 ∨ A.size < n.toNat * n.toNat ∨ inv.size < n.toNat * n.toNat) 1
      (· = lowerInverseColumns A n.toNat ++ inv.extract (n.toNat * n.toNat) inv.size) := by
  unfold lowerTriInverse
  rw [Launch.size_of_int (v := n) rfl, Launch.read_of_buffer (d := A) rfl,
    Launch.write_of_buffer (d := inv) rfl rfl]
  simp only [Launch.check_bind, Launch.ensureLen_bind, Except.ok_bind]
  -- the side, then the two lengths
  exact .check (.check (.last fun _ => rfl))

/-! ## Past the checks -/

section Fits

variable {name : String} {options : OptionMap} {range : NdRange} {A B C : Array Float}

theorem matrixMultiply_of_fits {m n k : Nat} (hA : m * k ≤ A.size) (hB : k * n ≤ B.size) (hC : m * n ≤ C.size) :
    matrixMultiply (productLaunch name A B C m n k options range) =
      .ok [(2, multiplyColumns A B m n k ++ C.extract (m * n) C.size)] := by
  -- sizes given as naturals are never negative
  obtain ⟨out, hrun, rfl⟩ := (matrixMultiply_refusesOrWrites name A B C m n k options range).ok_of
    (by simp only [Int.toNat_natCast]; omega)
  simpa only [Int.toNat_natCast] using hrun

theorem lowerTriInverse_of_fits {n : Nat} (hA : n * n ≤ A.size) (hC : n * n ≤ C.size) :
    lowerTriInverse (inverseLaunch name A C n options range) =
      .ok [(1, lowerInverseColumns A n ++ C.extract (n * n) C.size)] := by
  obtain ⟨out, hrun, rfl⟩ := (lowerTriInverse_refusesOrWrites name A C n options range).ok_of
    (by simp only [Int.toNat_natCast]; omega)
  simpa only [Int.toNat_natCast] using hrun

end Fits

/-! ## Inside the buffers -/

section Inside

/-- Past the checks, the product kernel's loops stay inside `A`, `B` and `C` and leave what the
    kernel writes. -/
theorem matrixMultiply_staysInside (name : String) (A B C : Array Float) (M N K : Int) (options : OptionMap)
    (range : NdRange) :
    RefusesOrWrites (matrixMultiply (productLaunch name A B C M N K options range))
      (M < 0 ∨ N < 0 ∨ K < 0 ∨ A.size < M.toNat * K.toNat ∨ B.size < K.toNat * N.toNat ∨
        C.size < M.toNat * N.toNat) 2
      (fun out => multiplyInPlace A B C M.toNat N.toNat K.toNat = some out) :=
  (matrixMultiply_refusesOrWrites name A B C M N K options range).mono fun hr out hout => by
    simp only [not_or, Int.not_lt, Nat.not_lt] at hr
    obtain ⟨-, -, -, hA, hB, hC⟩ := hr
    rw [hout, multiplyInPlace_eq hA hB hC]

/-- Element `(i, j)` of the transpose's storage, `i * cols + j`, is element `(j, i)` of `A`'s. -/
theorem getElem?_transposeData_append {α : Type} [Scalar α] {A R : Array α} {rows cols i j : Nat}
    (hA : rows * cols ≤ A.size) (hi : i < rows) (hj : j < cols) :
    (transposeData A rows cols ++ R)[i * cols + j]? = A[j * rows + i]? := by
  rw [ColumnMajor.transposeData_eq, ColumnMajor.getElem?_ofFn_append _ _ hj hi,
    getElem?_eq_some_getD (Nat.lt_of_lt_of_le (colIndex_lt hi hj) hA)]
  rfl

/-- Past the checks, the transpose kernel's loops stay inside `A` and `B`, and leave in
    `B[i * cols + j]` the element `A[j * rows + i]`. -/
theorem transpose_staysInside (name : String) (B A : Array Float) (rows cols : Int) (options : OptionMap)
    (range : NdRange) :
    RefusesOrWrites (transpose (transposeLaunch name B A rows cols options range))
      (rows < 0 ∨ cols < 0 ∨ A.size < rows.toNat * cols.toNat ∨ B.size < rows.toNat * cols.toNat) 0
      (fun out => transposeInPlace A B rows.toNat cols.toNat = some out ∧
        ∀ i < rows.toNat, ∀ j < cols.toNat,
          j * rows.toNat + i < A.size ∧ out[i * cols.toNat + j]? = A[j * rows.toNat + i]?) :=
  (transpose_refusesOrWrites name B A rows cols options range).mono fun hr out hout => by
    simp only [not_or, Int.not_lt, Nat.not_lt] at hr
    obtain ⟨-, -, hA, hB⟩ := hr
    subst hout
    exact ⟨transposeInPlace_eq hA hB, fun i hi j hj =>
      ⟨Nat.lt_of_lt_of_le (colIndex_lt hi hj) hA, getElem?_transposeData_append hA hi hj⟩⟩

/-- Past the checks, the lower inverse kernel's loops stay inside `A` and `inv` and leave what
    the kernel writes. -/
theorem lowerTriInverse_staysInside (name : String) (A inv : Array Float) (n : Int) (options : OptionMap)
    (range : NdRange) :
    RefusesOrWrites (lowerTriInverse (inverseLaunch name A inv n options range))
      (n < 0 ∨ A.size < n.toNat * n.toNat ∨ inv.size < n.toNat * n.toNat) 1
      (fun out => lowerInverseInPlace A inv n.toNat = some out) :=
  (lowerTriInverse_refusesOrWrites name A inv n options range).mono fun hr out hout => by
    simp only [not_or, Int.not_lt, Nat.not_lt] at hr
    obtain ⟨-, hA, hinv⟩ := hr
    rw [hout, lowerInverseInPlace_eq hA hinv]

end Inside

/-! ## In exact arithmetic -/

section Exact

/-- What the product kernel writes, with rationals in its buffers: the product's entries
    `∑ p < k, A(i, p) * B(p, j)` at `j * m + i`, and `C` past them. -/
theorem product_written_exact {A B C : Array ℚ} {m n k : Nat} (hC : m * n ≤ C.size) :
    let W := multiplyColumns A B m n k ++ C.extract (m * n) C.size
    W.size = C.size ∧
      (∀ i < m, ∀ j < n,
        W[j * m + i]? = some (∑ p ∈ Finset.range k, A.getD (p * m + i) 0 * B.getD (j * k + p) 0)) ∧
      ∀ t, m * n ≤ t → W[t]? = C[t]? := by
  intro W
  have hsize : (multiplyColumns A B m n k).size = m * n := size_multiplyColumns A B m n k
  refine ⟨size_append_extract hsize hC, fun i hi j hj => ?_, fun t ht => getElem?_append_extract hsize ht⟩
  simp only [W]
  rw [multiplyColumns_exact, ColumnMajor.exactProduct, ColumnMajor.getElem?_ofFn_append _ _ hi hj]
  rfl

/-- What the lower inverse kernel writes, with rationals in its buffers and a diagonal of
    nonzero entries: at its head the inverse of the lower triangle, itself lower triangular, and
    `inv` past it. -/
theorem lowerInverse_written_exact {A inv : Array ℚ} {n : Nat} (hinv : n * n ≤ inv.size)
    (hd : ∀ j < n, A.getD (j * n + j) 0 ≠ 0) :
    let W := lowerInverseColumns A n ++ inv.extract (n * n) inv.size
    let X := ColumnMajor.toMatrix W n n
    ColumnMajor.triangle true A n * X = 1 ∧ X * ColumnMajor.triangle true A n = 1 ∧
      (∀ i j : Fin n, i < j → X i j = 0) ∧ W.size = inv.size ∧ ∀ t, n * n ≤ t → W[t]? = inv[t]? := by
  intro W X
  have hsize : (lowerInverseColumns A n).size = n * n := size_lowerInverseColumns A n
  have hunit : IsUnit (ColumnMajor.triangle true A n).det := ColumnMajor.isUnit_det_triangle hd
  have hX : X = (ColumnMajor.triangle true A n)⁻¹ := by
    simp only [X, W]
    rw [ColumnMajor.toMatrix_append hsize.ge, lowerInverseColumns_exact hd, ColumnMajor.toMatrix_ofMatrix]
  refine ⟨hX ▸ Matrix.mul_nonsing_inv _ hunit, hX ▸ Matrix.nonsing_inv_mul _ hunit, fun i j hij => ?_,
    size_append_extract hsize hinv, fun t ht => getElem?_append_extract hsize ht⟩
  -- the inverse is the kernel's columns, which start with zeros above the diagonal
  rw [hX, ← lowerInverseMatrix_eq hd]
  exact (lowerInverseColumn_getD i.isLt).trans (if_pos hij)

end Exact

/-! ## The kernels' contracts -/

/-- A launch of the product kernel with sizes `m`, `n`, `k` and buffers holding at least
    `m * k`, `k * n` and `m * n` elements writes only `C`: over its first `m * n` elements the
    product's columns, which in exact arithmetic hold `∑ p < k, A[p * m + i] * B[j * k + p]` at
    `j * m + i`, and past them `C` as it was. A negative size or a short buffer is refused with a
    device error, and nothing is written. -/
theorem product_launch_contract :
    (∀ (name : String) (A B C : Array Float) (m n k : Nat) (options : OptionMap) (range : NdRange),
      m * k ≤ A.size → k * n ≤ B.size → m * n ≤ C.size →
      matrixMultiply (productLaunch name A B C m n k options range) =
        .ok [(2, multiplyColumns A B m n k ++ C.extract (m * n) C.size)]) ∧
    (∀ (name : String) (A B C : Array Float) (M N K : Int) (options : OptionMap) (range : NdRange),
      M < 0 ∨ N < 0 ∨ K < 0 ∨ A.size < M.toNat * K.toNat ∨ B.size < K.toNat * N.toNat ∨
        C.size < M.toNat * N.toNat →
      ∃ msg, matrixMultiply (productLaunch name A B C M N K options range) = .error (.error (.device msg))) ∧
    (∀ (A B C : Array ℚ) (m n k : Nat), m * n ≤ C.size →
      let W := multiplyColumns A B m n k ++ C.extract (m * n) C.size
      W.size = C.size ∧
        (∀ i < m, ∀ j < n,
          W[j * m + i]? = some (∑ p ∈ Finset.range k, A.getD (p * m + i) 0 * B.getD (j * k + p) 0)) ∧
        ∀ t, m * n ≤ t → W[t]? = C[t]?) := by
  refine ⟨?_, ?_, ?_⟩
  · intro name A B C m n k options range hA hB hC
    exact matrixMultiply_of_fits hA hB hC
  · intro name A B C M N K options range h
    exact (matrixMultiply_refusesOrWrites name A B C M N K options range).error_of h
  · intro A B C m n k hC
    exact product_written_exact hC

/-- A launch of the lower inverse kernel with side `n` and buffers holding at least `n * n`
    elements writes over the head of `inv` the kernel's columns, and leaves the rest of `inv`. It
    reads only the lower triangle of `A`, diagonal included: an `A` that agrees there gives the
    same run. In exact arithmetic, with nonzero entries on the diagonal, the head it writes is
    the inverse `X` of the lower triangle `L` of `A`: `L * X = X * L = 1`, and `X` is zero above
    its diagonal. -/
theorem lower_inverse_launch_contract :
    (∀ (name : String) (A inv : Array Float) (n : Nat) (options : OptionMap) (range : NdRange),
      n * n ≤ A.size → n * n ≤ inv.size →
      lowerTriInverse (inverseLaunch name A inv n options range) =
        .ok [(1, lowerInverseColumns A n ++ inv.extract (n * n) inv.size)]) ∧
    (∀ (name : String) (A A' inv : Array Float) (n : Nat) (options : OptionMap) (range : NdRange),
      n * n ≤ A.size → n * n ≤ A'.size → n * n ≤ inv.size →
      (∀ i < n, ∀ j ≤ i, A'.getD (j * n + i) 0 = A.getD (j * n + i) 0) →
      lowerTriInverse (inverseLaunch name A' inv n options range) =
        lowerTriInverse (inverseLaunch name A inv n options range)) ∧
    (∀ (A inv : Array ℚ) (n : Nat), n * n ≤ inv.size → (∀ j < n, A.getD (j * n + j) 0 ≠ 0) →
      let W := lowerInverseColumns A n ++ inv.extract (n * n) inv.size
      let X := ColumnMajor.toMatrix W n n
      ColumnMajor.triangle true A n * X = 1 ∧ X * ColumnMajor.triangle true A n = 1 ∧
        (∀ i j : Fin n, i < j → X i j = 0) ∧ W.size = inv.size ∧ ∀ t, n * n ≤ t → W[t]? = inv[t]?) := by
  refine ⟨?_, ?_, ?_⟩
  · intro name A inv n options range hA hinv
    exact lowerTriInverse_of_fits hA hinv
  · intro name A A' inv n options range hA hA' hinv hlower
    have hsame : ColumnMajor.SameTriangle true A' A n := fun i hi j _ hji => hlower i hi j hji
    rw [lowerTriInverse_of_fits hA' hinv, lowerTriInverse_of_fits hA hinv, lowerInverseColumns_sameTriangle hsame]
  · intro A inv n hinv hd
    exact lowerInverse_written_exact hinv hd

/-- With sizes that are 32-bit integers and buffers of any lengths, each built-in kernel either
    refuses, with a device error, a negative size or a buffer shorter than the part of it the
    kernel touches, or writes one buffer, where its loops read and store only inside the buffers
    and leave what is written; no product of two sizes reaches `2 ^ 64`. The transpose kernel
    leaves `A[j * rows + i]` in `B[i * cols + j]`. -/
theorem launches_refuse_or_stay_inside :
    (∀ (name : String) (A B C : Array Float) (M N K : Int) (options : OptionMap) (range : NdRange),
      M ≤ int32Max → N ≤ int32Max → K ≤ int32Max →
      (M.toNat * K.toNat < Word.modulus ∧ K.toNat * N.toNat < Word.modulus ∧ M.toNat * N.toNat < Word.modulus) ∧
      RefusesOrWrites (matrixMultiply (productLaunch name A B C M N K options range))
        (M < 0 ∨ N < 0 ∨ K < 0 ∨ A.size < M.toNat * K.toNat ∨ B.size < K.toNat * N.toNat ∨
          C.size < M.toNat * N.toNat) 2
        (fun out => multiplyInPlace A B C M.toNat N.toNat K.toNat = some out)) ∧
    (∀ (name : String) (B A : Array Float) (rows cols : Int) (options : OptionMap) (range : NdRange),
      rows ≤ int32Max → cols ≤ int32Max →
      rows.toNat * cols.toNat < Word.modulus ∧
      RefusesOrWrites (transpose (transposeLaunch name B A rows cols options range))
        (rows < 0 ∨ cols < 0 ∨ A.size < rows.toNat * cols.toNat ∨ B.size < rows.toNat * cols.toNat) 0
        (fun out => transposeInPlace A B rows.toNat cols.toNat = some out ∧
          ∀ i < rows.toNat, ∀ j < cols.toNat,
            j * rows.toNat + i < A.size ∧ out[i * cols.toNat + j]? = A[j * rows.toNat + i]?)) ∧
    (∀ (name : String) (A inv : Array Float) (n : Int) (options : OptionMap) (range : NdRange),
      n ≤ int32Max →
      n.toNat * n.toNat < Word.modulus ∧
      RefusesOrWrites (lowerTriInverse (inverseLaunch name A inv n options range))
        (n < 0 ∨ A.size < n.toNat * n.toNat ∨ inv.size < n.toNat * n.toNat) 1
        (fun out => lowerInverseInPlace A inv n.toNat = some out)) := by
  refine ⟨?_, ?_, ?_⟩
  · intro name A B C M N K options range hM hN hK
    exact ⟨⟨mul_lt_modulus_of_le_int32Max hM hK, mul_lt_modulus_of_le_int32Max hK hN,
        mul_lt_modulus_of_le_int32Max hM hN⟩,
      matrixMultiply_staysInside name A B C M N K options range⟩
  · intro name B A rows cols options range hrows hcols
    exact ⟨mul_lt_modulus_of_le_int32Max hrows hcols, transpose_staysInside name B A rows cols options range⟩
  · intro name A inv n options range hn
    exact ⟨mul_lt_modulus_of_le_int32Max hn hn, lowerTriInverse_staysInside name A inv n options range⟩

end Builtin

end OffloadAlgebra
