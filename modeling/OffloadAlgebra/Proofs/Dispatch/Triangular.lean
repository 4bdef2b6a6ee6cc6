import Mathlib
import OffloadAlgebra.Proofs.Dispatch.Multiply
import OffloadAlgebra.Proofs.Exact.Triangular
/-!
  Triangular solves and inverses of host matrices, decided between the host and the device.

  Take a square matrix `a` of order `n ≥ 1` with no zero on its diagonal, a right-hand side `b`
  of `n` rows and `m ≥ 1` columns, and the lower or the upper triangle of `a`.  On a context made
  from a configuration (`TriangularContract`) exactly one dispatch is counted, to the device when
  `n` exceeds the context's triangular threshold, and both paths answer:

  * on the device, the triangle is inverted by the lower inverse kernel, the upper one as the
    transpose of the lower inverse of the transpose (`triInverseOnDevice_clean`), and a solve
    multiplies that inverse into `b` with the product kernel (`solveTriOnDevice_run`);
  * on the host, the host library solves against `b`, or against the identity for an inverse.

  The device reads only the chosen triangle of `a`, diagonal included, whatever the scalars
  (`triInverseData_sameTriangle`).  In exact arithmetic the device gives `T⁻¹ * b` and `T⁻¹` for
  the triangle `T` (`Proofs.Exact.Triangular`), and so does a lawful host library.  A right-hand
  side wider than the 32-bit range is refused on the device by the product it goes through
  (`solveTriOnDevice_wide`).
-/

namespace OffloadAlgebra

open ColumnMajor

/-! ## Storage sizes -/

section Sizes

variable {α : Type} [Scalar α]

@[simp] theorem Builtin.size_transposeData (a : Array α) (rows cols : Nat) :
    (Builtin.transposeData a rows cols).size = rows * cols := by
  simp [Builtin.transposeData]

@[simp] theorem Builtin.size_lowerInverseColumns (a : Array α) (n : Nat) :
    (Builtin.lowerInverseColumns a n).size = n * n := by
  unfold Builtin.lowerInverseColumns
  rw [foldl_append_columns n n _ (fun j hj => @Builtin.size_lowerInverseColumn α _ a n j hj), size_ofFn]

@[simp] theorem size_triInverseData (lower : Bool) (a : Array α) (n : Nat) :
    (triInverseData lower a n).size = n * n := by
  cases lower <;> simp [triInverseData]

end Sizes

/-! ## Only the chosen triangle is read -/

/-- The order-`n` matrices stored in `a` and `a'` agree on the triangle `lower` chooses (the lower
    one when `lower`, else the upper one), diagonal included. -/
def ColumnMajor.SameTriangle {α : Type} [Zero α] (lower : Bool) (a a' : Array α) (n : Nat) : Prop :=
  ∀ i < n, ∀ j < n, InTriangle lower i j → entry a n i j = entry a' n i j

theorem pushes_congr {α : Type} {v v' : Array α → Nat → α} (col₀ : Array α) {m : Nat}
    (h : ∀ col, ∀ t < m, v col t = v' col t) : pushes v col₀ m = pushes v' col₀ m := by
  unfold pushes
  exact List.foldl_ext _ _ _ fun col t ht => by rw [h col t (List.mem_range.mp ht)]

section OnlyTriangle

variable {α : Type} [Scalar α] {a a' : Array α} {n : Nat}

/-- An entry below the diagonal of the lower inverse reads only its own row of the lower
    triangle. -/
theorem Builtin.lowerInverseNext_sameTriangle (h : SameTriangle true a a' n) {j i : Nat} (hji : j ≤ i)
    (hi : i < n) (col : Array α) : Builtin.lowerInverseNext a n j col i = Builtin.lowerInverseNext a' n j col i := by
  unfold Builtin.lowerInverseNext
  rw [h i hi i hi (inTriangle_self true i)]
  congr 2
  refine List.foldl_ext _ _ _ fun acc s hs => ?_
  have hs' : s < i - j := List.mem_range.mp hs
  rw [h i hi (j + s) (by omega) (inTriangle_true.mpr (by omega))]

theorem Builtin.lowerInverseColumn_sameTriangle (h : SameTriangle true a a' n) {j : Nat} (hj : j < n) :
    Builtin.lowerInverseColumn a n j = Builtin.lowerInverseColumn a' n j := by
  rw [Builtin.lowerInverseColumn_eq_pushes, Builtin.lowerInverseColumn_eq_pushes, h j hj j hj (inTriangle_self true j)]
  exact pushes_congr _ fun col t ht => Builtin.lowerInverseNext_sameTriangle h (by omega) (by omega) col

/-- The lower inverse kernel reads only the lower triangle. -/
theorem Builtin.lowerInverseColumns_sameTriangle (h : SameTriangle true a a' n) :
    Builtin.lowerInverseColumns a n = Builtin.lowerInverseColumns a' n := by
  unfold Builtin.lowerInverseColumns
  exact List.foldl_ext _ _ _ fun acc j hj => by rw [Builtin.lowerInverseColumn_sameTriangle h (List.mem_range.mp hj)]

/-- Transposing turns agreement on the upper triangle into agreement on the lower one. -/
theorem ColumnMajor.SameTriangle.transposeData (h : SameTriangle false a a' n) :
    SameTriangle true (Builtin.transposeData a n n) (Builtin.transposeData a' n n) n := by
  intro i hi j hj hij
  rw [entry_transposeData a hi hj, entry_transposeData a' hi hj]
  exact h j hj i hi (inTriangle_false.mpr (inTriangle_true.mp hij))

/-- The device's inverse reads only the chosen triangle. -/
theorem triInverseData_sameTriangle {lower : Bool} (h : SameTriangle lower a a' n) :
    triInverseData lower a n = triInverseData lower a' n := by
  cases lower with
  | false =>
    -- the upper triangle, through the lower triangle of the transpose
    simp only [triInverseData, Bool.false_eq_true, if_false]
    rw [Builtin.lowerInverseColumns_sameTriangle h.transposeData]
  | true => exact Builtin.lowerInverseColumns_sameTriangle h

end OnlyTriangle

/-! ## The checks of a triangular operation -/

theorem Shape.checkMultiplicable_eq_ok {function name₁ name₂ : String} {s₁ s₂ : Shape} (h : s₁.cols = s₂.rows) :
    Shape.checkMultiplicable function name₁ s₁ name₂ s₂ = .ok () := if_pos h

/-- The diagonal check passes when no diagonal entry equals zero. -/
theorem Matrix.checkNonzeroDiagonal_eq_ok {m : Matrix} (h : ∀ i < min m.rows m.cols, (m.get i i == 0) = false)
    (function name : String) : m.checkNonzeroDiagonal function name = .ok () := by
  unfold Matrix.checkNonzeroDiagonal
  rw [List.find?_eq_none.mpr fun i hi => by simp [h i (List.mem_range.mp hi)]]

/-- A stored square matrix has the buffer of a square of its side. -/
theorem Matrix.Stored.reserve_square {a : Matrix} (ha : a.Stored) (hsq : a.rows = a.cols) :
    Word.reserve (a.rows * a.rows) = .ok () := by
  have h := ha.reservable
  rwa [← hsq] at h

namespace Context

/-! ## The transpose and lower inverse kernels -/

/-- The transpose's arguments fit the transpose kernel's signature. -/
theorem signatureFault_transpose (t x : Nat) (r k : Int) :
    signatureFault? Standard.transpose.name Standard.transpose.signature [.matrix t, .matrix x, .int r, .int k] =
      none := rfl

/-- The transpose's output is not its input. -/
theorem aliasFault_transpose {t x : Nat} (h : x ≠ t) (r k : Int) :
    aliasFault? Standard.transpose.name
      (bufferBindings Standard.transpose.signature [.matrix t, .matrix x, .int r, .int k]) = none := by
  simp [aliasFault?, bufferBindings, Standard.transpose, Ne.symm h, Direction.writes]

/-- The transpose kernel's launch, with buffers long enough for its sizes, writes the transpose
    over the front of the output. -/
theorem launchWork_transpose (K : CompiledKernel) (range : NdRange)
    {c : Context} {t x r k : Nat} {A B : Array Float}
    (hx : (c.matrix x).data = A) (ht : (c.matrix t).data = B) (hA : r * k ≤ A.size) (hB : r * k ≤ B.size) :
    launchWork K Standard.transpose range [.matrix t, .matrix x, .int r, .int k] c =
      .ok [(t, Builtin.transposeData A r k ++ B.extract (r * k) B.size)] := by
  have h0 : ∀ m : Nat, ¬ ((m : Int) < 0) := fun m => Int.not_lt.mpr (Int.natCast_nonneg m)
  unfold launchWork
  rw [KernelSpec.hostRun_of_host (rfl : Standard.transpose.host = some .transpose), HostFn.transpose_run]
  simp [h0, Builtin.transpose, Launch.size, Launch.int, Launch.arg, Launch.read, Launch.write,
    Launch.ensureLen, lower, Standard.transpose, hx, ht, Direction.writes, Nat.not_lt.mpr hA, Nat.not_lt.mpr hB]

/-- The inverse's arguments fit the lower inverse kernel's signature. -/
theorem signatureFault_lowerTriInverse (x z : Nat) (k : Int) :
    signatureFault? Standard.lowerTriInverse.name Standard.lowerTriInverse.signature [.matrix x, .matrix z, .int k] =
      none := rfl

/-- The inverse's output is not its input. -/
theorem aliasFault_lowerTriInverse {x z : Nat} (h : x ≠ z) (k : Int) :
    aliasFault? Standard.lowerTriInverse.name
      (bufferBindings Standard.lowerTriInverse.signature [.matrix x, .matrix z, .int k]) = none := by
  simp [aliasFault?, bufferBindings, Standard.lowerTriInverse, h, Direction.writes]

/-- The lower inverse kernel's launch, with buffers long enough for its order, writes the inverse
    over the front of the output. -/
theorem launchWork_lowerTriInverse (K : CompiledKernel) (range : NdRange)
    {c : Context} {x z n : Nat} {A C : Array Float}
    (hx : (c.matrix x).data = A) (hz : (c.matrix z).data = C) (hA : n * n ≤ A.size) (hC : n * n ≤ C.size) :
    launchWork K Standard.lowerTriInverse range [.matrix x, .matrix z, .int n] c =
      .ok [(z, Builtin.lowerInverseColumns A n ++ C.extract (n * n) C.size)] := by
  have h0 : ∀ m : Nat, ¬ ((m : Int) < 0) := fun m => Int.not_lt.mpr (Int.natCast_nonneg m)
  unfold launchWork
  rw [KernelSpec.hostRun_of_host (rfl : Standard.lowerTriInverse.host = some .lowerTriInverse), HostFn.lowerTriInverse_run]
  simp [h0, Builtin.lowerTriInverse, Launch.size, Launch.int, Launch.arg, Launch.read, Launch.write,
    Launch.ensureLen, lower, Standard.lowerTriInverse, hx, hz, Direction.writes, Nat.not_lt.mpr hA, Nat.not_lt.mpr hC]

/-- A range without a work-group size is valid when none of its extents is zero. -/
theorem validate_positive {extents : List Nat} (h : 0 ∉ extents) (name : String) :
    NdRange.validate ⟨⟨extents⟩, none⟩ name = .ok () := by
  simp [NdRange.validate, h]

/-! ## A new matrix filled by one launch -/

/-- A matrix of a side whose square can be reserved has a side within the 32-bit integers. -/
theorem le_int32Max_of_reserve {n : Nat} (h : Word.reserve (n * n) = .ok ()) : n ≤ int32Max := by
  have h63 : Nat.pow 2 63 = 9223372036854775808 := rfl
  have h31 : int32Max = 2147483647 := rfl
  unfold Word.reserve at h
  rw [h63] at h
  split at h
  · rename_i hle
    rw [h31]
    by_contra hgt
    have hsq : 2147483648 * 2147483648 ≤ n * n := Nat.mul_le_mul (by omega) (by omega)
    omega
  · cases h

/-- A new `rows × cols` matrix filled by one launch of a buildable kernel, on a clean context with
    sound base options and a well-kept kernel table: when the launch's checks pass and its work
    writes `d` into the new matrix, the launch completes, the context stays clean and extends the
    one before the allocation, and the new matrix holds `d`. -/
theorem invoke_into_new {c : Context} (hc : c.Clean) (hb : c.baseOptions.Sound) (hw : c.WellKept)
    {spec : KernelSpec} {f : HostFn} (hs : spec.Buildable) (hf : spec.host = some f)
    {range : NdRange} {args : List KernelArg} (hsig : signatureFault? spec.name spec.signature args = none)
    (hval : range.validate spec.name = .ok ()) (hal : aliasFault? spec.name (bufferBindings spec.signature args) = none)
    {rows cols : Nat} {d : Array Float}
    (hwork : launchWork (spec.builtOn f c.baseOptions) spec range args
      ((c.pushMatrix (zeroMatrix rows cols)).withKernel spec f) = .ok [(c.matrices.size, d)]) :
    ∃ e c', (invoke spec range args).run.run (c.pushMatrix (zeroMatrix rows cols)) = .ok (.ok e, c') ∧
      c'.Clean ∧ c.Extends c' ∧ c'.Holds c.matrices.size rows cols d := by
  have hext₁ := extends_pushMatrix c (zeroMatrix rows cols)
  have hc₁ : (c.pushMatrix (zeroMatrix rows cols)).Clean := hc.of_events rfl
  -- the kernel is built on first use, then the launch passes its checks
  have hprep := prepareLaunch_run_of_checks hsig hval
    (kernel_run_wellKept hs hf (hext₁.baseOptions ▸ hb) (hext₁.wellKept hw)) hal
  have hz : c.matrices.size < ((c.pushMatrix (zeroMatrix rows cols)).withKernel spec f).matrices.size := by simp
  obtain ⟨c', hinv, hc', hb', hd', hw', hold', hnew'⟩ := invoke_clean hprep (hc₁.of_events events_withKernel) hz hwork
  refine ⟨_, c', hinv, hc', ⟨?_, ?_, fun hh => ?_, fun hwk => ?_⟩, ?_⟩
  · rw [hb', baseOptions_withKernel]
    rfl
  · rw [hd', dispatches_withKernel]
    rfl
  · -- every matrix of `c` comes before the new one
    refine (hold' (Nat.ne_of_lt hh.1)).mpr ?_
    rw [holds_of_matrices matrices_withKernel]
    exact hext₁.holds hh
  · exact hw' ((hext₁.wellKept hwk).withKernel hf)
  · rwa [matrix_withKernel, matrix_pushMatrix_self] at hnew'

/-! ## Transposes and triangular inverses on the device -/

section OnDevice

variable {c : Context}

/-- The transpose of a non-empty device matrix with sides within the 32-bit integers and a
    reservable result: a new matrix after the others holds the transpose, and the context stays
    clean. -/
theorem transposeOnDevice_clean (hc : c.Clean) (hb : c.baseOptions.Sound) (hw : c.WellKept)
    {x r k : Nat} {A : Array Float} (hA : c.Holds x r k A) (hAsize : r * k ≤ A.size) (hr : 0 < r) (hk : 0 < k)
    (hr32 : r ≤ int32Max) (hk32 : k ≤ int32Max) (hres : Word.reserve (k * r) = .ok ()) :
    ∃ c', (transposeOnDevice x).run.run c = .ok (.ok c.matrices.size, c') ∧ c'.Clean ∧ c.Extends c' ∧
      c'.Holds c.matrices.size k r (Builtin.transposeData A r k) := by
  obtain ⟨hx, hxr, hxc, hxd⟩ := hA
  have hpos : 0 < k * r := Nat.mul_pos hk hr
  have hzero : (zeroMatrix k r).data.size = r * k := by
    rw [Nat.mul_comm r k]
    simp [zeroMatrix, Nat.max_eq_right hpos]
  -- the launch reads the operand and writes its transpose over the zeros of the result
  have hwork : launchWork (Standard.transpose.builtOn .transpose c.baseOptions) Standard.transpose ⟨⟨[r, k]⟩, none⟩
      [.matrix c.matrices.size, .matrix x, .int r, .int k]
      ((c.pushMatrix (zeroMatrix k r)).withKernel Standard.transpose .transpose) =
      .ok [(c.matrices.size, Builtin.transposeData A r k)] := by
    rw [launchWork_transpose _ _ (by rw [matrix_withKernel, matrix_pushMatrix_of_lt c _ hx]; exact hxd)
      (by rw [matrix_withKernel, matrix_pushMatrix_self]) hAsize (Nat.le_of_eq hzero.symm),
      Array.extract_empty_of_size_le_start (Nat.le_of_eq hzero), Array.append_empty]
  obtain ⟨e, c', hinv, hc', hext, hnew⟩ := invoke_into_new hc hb hw Standard.transpose_buildable rfl
    (signatureFault_transpose ..) (validate_positive (by simp; omega) _) (aliasFault_transpose (Nat.ne_of_lt hx) ..) hwork
  refine ⟨c', ?_, hc', hext, hnew⟩
  unfold transposeOnDevice
  rw [run_bind_ok (run_get c)]
  dsimp only
  rw [hxr, hxc, run_bind_ok (alloc_run_of_reserve hres c), if_neg (Nat.ne_of_gt (Nat.mul_pos hr hk)), intDim_ok hr32,
    intDim_ok hk32, run_bind_ok (run_check_ok _ _), run_bind_ok (run_check_ok _ _), run_bind_ok hinv]
  rfl

/-- The inverse of the lower triangle of a non-empty square device matrix with a reservable
    result: a new matrix after the others holds the lower inverse kernel's columns, and the context
    stays clean. -/
theorem lowerInverseOnDevice_clean (hc : c.Clean) (hb : c.baseOptions.Sound) (hw : c.WellKept)
    {x n : Nat} {A : Array Float} (hA : c.Holds x n n A) (hAsize : n * n ≤ A.size) (hn : 0 < n)
    (hres : Word.reserve (n * n) = .ok ()) :
    ∃ c', (lowerInverseOnDevice x).run.run c = .ok (.ok c.matrices.size, c') ∧ c'.Clean ∧ c.Extends c' ∧
      c'.Holds c.matrices.size n n (Builtin.lowerInverseColumns A n) := by
  obtain ⟨hx, hxr, hxc, hxd⟩ := hA
  have hpos : 0 < n * n := Nat.mul_pos hn hn
  have hzero : (zeroMatrix n n).data.size = n * n := by simp [zeroMatrix, Nat.max_eq_right hpos]
  -- the launch reads the operand and writes the inverse over the zeros of the result
  have hwork : launchWork (Standard.lowerTriInverse.builtOn .lowerTriInverse c.baseOptions) Standard.lowerTriInverse
      ⟨⟨[n]⟩, none⟩ [.matrix x, .matrix c.matrices.size, .int n]
      ((c.pushMatrix (zeroMatrix n n)).withKernel Standard.lowerTriInverse .lowerTriInverse) =
      .ok [(c.matrices.size, Builtin.lowerInverseColumns A n)] := by
    rw [launchWork_lowerTriInverse _ _ (by rw [matrix_withKernel, matrix_pushMatrix_of_lt c _ hx]; exact hxd)
      (by rw [matrix_withKernel, matrix_pushMatrix_self]) hAsize (Nat.le_of_eq hzero.symm),
      Array.extract_empty_of_size_le_start (Nat.le_of_eq hzero), Array.append_empty]
  obtain ⟨e, c', hinv, hc', hext, hnew⟩ := invoke_into_new hc hb hw Standard.lowerTriInverse_buildable rfl
    (signatureFault_lowerTriInverse ..) (validate_positive (by simp; omega) _)
    (aliasFault_lowerTriInverse (Nat.ne_of_lt hx) ..) hwork
  refine ⟨c', ?_, hc', hext, hnew⟩
  unfold lowerInverseOnDevice
  rw [run_bind_ok (run_get c)]
  dsimp only
  rw [hxr, hxc, run_bind_ok (alloc_run_of_reserve hres c), if_neg (Nat.ne_of_gt hpos), intDim_ok (le_int32Max_of_reserve hres),
    run_bind_ok (run_check_ok _ _), run_bind_ok hinv]
  rfl

/-- The inverse of the lower or upper triangle of a non-empty square device matrix with a
    reservable result: a new matrix holds the device's triangular inverse, and the context stays
    clean. -/
theorem triInverseOnDevice_clean (hc : c.Clean) (hb : c.baseOptions.Sound) (hw : c.WellKept)
    {x n : Nat} {A : Array Float} (hA : c.Holds x n n A) (hAsize : n * n ≤ A.size) (hn : 0 < n)
    (hres : Word.reserve (n * n) = .ok ()) {view : TriView} (hview : view ≠ .entire) :
    ∃ h c', (triInverseOnDevice x view).run.run c = .ok (.ok h, c') ∧ c'.Clean ∧ c.Extends c' ∧
      c'.Holds h n n (triInverseData (view == .lower) A n) := by
  have hsq : Shape.checkSquare "tri_inverse" "A" ⟨(c.matrix x).rows, (c.matrix x).cols⟩ = .ok () :=
    (Shape.checkSquare_ok_iff _ _ _).mpr (hA.2.1.trans hA.2.2.1.symm)
  -- the shape check passes, and the view picks the path
  unfold triInverseOnDevice
  rw [run_bind_ok (run_get c)]
  dsimp only
  rw [hsq, run_bind_ok (run_check_ok () c)]
  cases view with
  | entire => exact absurd rfl hview
  | lower =>
    obtain ⟨c', hrun, hc', hext, hnew⟩ := lowerInverseOnDevice_clean hc hb hw hA hAsize hn hres
    exact ⟨_, c', hrun, hc', hext, hnew⟩
  | upper =>
    -- transpose, invert the lower triangle of the transpose, and transpose back
    have hn32 := le_int32Max_of_reserve hres
    obtain ⟨c₁, h₁, hc₁, he₁, hT₁⟩ := transposeOnDevice_clean hc hb hw hA hAsize hn hn hn32 hn32 hres
    obtain ⟨c₂, h₂, hc₂, he₂, hL₂⟩ := lowerInverseOnDevice_clean hc₁ (he₁.baseOptions ▸ hb) (he₁.wellKept hw) hT₁
      (by simp) hn hres
    have he₁₂ := he₁.trans he₂
    obtain ⟨c₃, h₃, hc₃, he₃, hT₃⟩ := transposeOnDevice_clean hc₂ (he₁₂.baseOptions ▸ hb) (he₁₂.wellKept hw) hL₂
      (by simp) hn hn hn32 hn32 hres
    refine ⟨_, c₃, ?_, hc₃, he₁₂.trans he₃, hT₃⟩
    dsimp only
    rw [run_bind_ok h₁, run_bind_ok h₂, h₃]

end OnDevice

/-! ## Deciding where a triangular operation runs -/

theorem checkTriangular_eq_ok {view : TriView} (h : view ≠ .entire) (function : String) :
    checkTriangular function view = .ok () := by
  cases view with
  | entire => exact absurd rfl h
  | lower => rfl
  | upper => rfl

/-- Whether a triangular operation of order `n` goes to the device on `c`: `n` exceeds the
    triangular threshold the context holds. -/
def offloadsTri (c : Context) (n : Nat) : Bool := shouldOffload n c.tuning.triInverseWorth

theorem run_offloadTriangular (n : Nat) (c : Context) :
    (offloadTriangular n).run.run c =
      .ok (.ok (c.offloadsTri n), { c with metrics := c.metrics.recordDispatch (c.offloadsTri n) }) := rfl

/-- The device path of a triangular solve: `a` copied in and its triangle inverted there, `b`
    copied in, the product launched and copied back. -/
def solveTriOnDevice (a b : Matrix) (view : TriView) : DeviceM Matrix :=
  fromHost a >>= fun x => triInverseOnDevice x view >>= fun inv => fromHost b >>= fun y =>
    multiplyOnDevice inv y >>= toHost

/-- The device path of a triangular inverse: `a` copied in, its triangle inverted there and
    copied back. -/
def invertTriOnDevice (a : Matrix) (view : TriView) : DeviceM Matrix :=
  fromHost a >>= fun x => triInverseOnDevice x view >>= toHost

section Decided

variable {host : HostAlgebra} {a b : Matrix} {view : TriView}

theorem run_check {α : Type} (r : Except Error α) (c : Context) : (DeviceM.check r).run.run c = .ok (r, c) := by
  cases r <;> rfl

/-- A solve whose checks pass counts its decision and runs on the path it chose. -/
theorem solveTri_run_decided (hsq : a.rows = a.cols) (hab : a.cols = b.rows) (hn : 0 < a.rows) (hm : 0 < b.cols)
    (hview : view ≠ .entire) (hdiag : ∀ i < a.rows, (a.get i i == 0) = false) (c : Context) :
    (solveTri host a b view).run.run c =
      if c.offloadsTri a.rows then
        (solveTriOnDevice a b view).run.run { c with metrics := c.metrics.recordDispatch true }
      else .ok (hostSolve host "mdivide_left_tri" a b view, { c with metrics := c.metrics.recordDispatch false }) := by
  have hmin : min a.rows a.cols = a.rows := by rw [← hsq, Nat.min_self]
  unfold solveTri
  dsimp only
  rw [(Shape.checkSquare_ok_iff _ _ _).mpr hsq, run_bind_ok (run_check_ok () c), Shape.checkMultiplicable_eq_ok hab,
    run_bind_ok (run_check_ok () c), if_neg (by omega), checkTriangular_eq_ok hview, run_bind_ok (run_check_ok () c),
    Matrix.checkNonzeroDiagonal_eq_ok (fun i hi => hdiag i (hmin ▸ hi)), run_bind_ok (run_check_ok () c),
    run_bind_ok (run_offloadTriangular _ c)]
  cases c.offloadsTri a.rows
  · exact run_check _ _
  · rfl

/-- An inverse whose checks pass counts its decision and runs on the path it chose. -/
theorem invertTri_run_decided (hsq : a.rows = a.cols) (hn : 0 < a.rows) (hview : view ≠ .entire)
    (hdiag : ∀ i < a.rows, (a.get i i == 0) = false) (c : Context) :
    (invertTri host a view).run.run c =
      if c.offloadsTri a.rows then
        (invertTriOnDevice a view).run.run { c with metrics := c.metrics.recordDispatch true }
      else .ok (hostSolve host "mdivide_left_tri_inverse" a (Matrix.identity a.rows) view,
        { c with metrics := c.metrics.recordDispatch false }) := by
  have hmin : min a.rows a.cols = a.rows := by rw [← hsq, Nat.min_self]
  unfold invertTri
  dsimp only
  rw [(Shape.checkSquare_ok_iff _ _ _).mpr hsq, run_bind_ok (run_check_ok () c), if_neg (by omega), checkTriangular_eq_ok hview,
    run_bind_ok (run_check_ok () c), Matrix.checkNonzeroDiagonal_eq_ok (fun i hi => hdiag i (hmin ▸ hi)), run_bind_ok (run_check_ok () c),
    run_bind_ok (run_offloadTriangular _ c)]
  cases c.offloadsTri a.rows
  · exact run_check _ _
  · rfl

/-- A lawful host library solves against a triangle with no zero on its diagonal. -/
theorem hostSolve_eq (hh : host.Lawful) (hdiag : ∀ i < a.rows, (a.get i i == 0) = false) (f : String) (b : Matrix) :
    ∃ x, host.solve a.data a.rows b.data b.rows b.cols (view == .lower) = some x ∧
      hostSolve host f a b view = .ok ⟨b.rows, b.cols, x⟩ := by
  obtain ⟨x, hx⟩ := Option.isSome_iff_exists.mp
    (hh.solve_isSome a.data a.rows b.data b.rows b.cols (view == .lower) hdiag)
  refine ⟨x, hx, ?_⟩
  unfold hostSolve
  rw [hx]

end Decided

/-! ## The device paths -/

/-- The device path of a triangular inverse of a stored square matrix of order at least one, on a
    clean context with sound base options and a well-kept kernel table: it answers the device's
    triangular inverse and counts no dispatch. -/
theorem invertTriOnDevice_run {c : Context} (hc : c.Clean) (hs : c.baseOptions.Sound) (hw : c.WellKept)
    {a : Matrix} (ha : a.Stored) (hsq : a.rows = a.cols) (hn : 0 < a.rows) {view : TriView} (hview : view ≠ .entire) :
    ∃ c', (invertTriOnDevice a view).run.run c =
        .ok (.ok ⟨a.rows, a.rows, triInverseData (view == .lower) a.data a.rows⟩, c') ∧ c'.dispatches = c.dispatches := by
  have hres := ha.reserve_square hsq
  have hane : a.size ≠ 0 := Nat.ne_of_gt (Nat.mul_pos hn (hsq ▸ hn))
  -- the matrix is copied in, its triangle inverted on the device, and the inverse copied back
  obtain ⟨c₁, h₁, hc₁, he₁, -, -, hA₁⟩ := fromHost_clean hc ha hane
  rw [← hsq] at hA₁
  obtain ⟨h, c₂, h₂, hc₂, he₂, hI₂⟩ := triInverseOnDevice_clean hc₁ (he₁.baseOptions ▸ hs) (he₁.wellKept hw) hA₁
    (Nat.le_of_eq (by rw [ha.size, hsq])) hn hres hview
  obtain ⟨c₃, h₃, -, he₃⟩ := toHost_clean hc₂ hI₂
  have hall : (triInverseData (view == .lower) a.data a.rows).extract 0 (a.rows * a.rows) =
      triInverseData (view == .lower) a.data a.rows := by
    rw [← size_triInverseData (view == .lower) a.data a.rows, Array.extract_size]
  refine ⟨c₃, ?_, ((he₁.trans he₂).trans he₃).dispatches⟩
  unfold invertTriOnDevice
  rw [run_bind_ok h₁, run_bind_ok h₂, h₃, hall]

/-- The device path of a triangular solve against a stored square matrix of order at least one,
    with a stored right-hand side of as many rows and of one to `int32Max` columns, on a clean
    context with sound base options and a well-kept kernel table: it answers the product kernel's
    columns for the device's triangular inverse and the right-hand side, and counts no dispatch. -/
theorem solveTriOnDevice_run {c : Context} (hc : c.Clean) (hs : c.baseOptions.Sound) (hw : c.WellKept)
    {a b : Matrix} (ha : a.Stored) (hb : b.Stored) (hsq : a.rows = a.cols) (hab : a.cols = b.rows)
    (hn : 0 < a.rows) (hm : 0 < b.cols) (hm32 : b.cols ≤ int32Max) {view : TriView} (hview : view ≠ .entire) :
    ∃ c', (solveTriOnDevice a b view).run.run c =
        .ok (.ok ⟨a.rows, b.cols, Builtin.multiplyColumns (triInverseData (view == .lower) a.data a.rows) b.data
          a.rows b.cols a.rows⟩, c') ∧ c'.dispatches = c.dispatches := by
  have hba : b.rows = a.rows := hab.symm.trans hsq.symm
  have hres := ha.reserve_square hsq
  have hresb : Word.reserve (a.rows * b.cols) = .ok () := by
    have h := hb.reservable
    rwa [hba] at h
  have hn32 := le_int32Max_of_reserve hres
  have hane : a.size ≠ 0 := Nat.ne_of_gt (Nat.mul_pos hn (hsq ▸ hn))
  have hbne : b.size ≠ 0 := Nat.ne_of_gt (Nat.mul_pos (hba ▸ hn) hm)
  -- `a` is copied in and its triangle inverted on the device
  obtain ⟨c₁, h₁, hc₁, he₁, -, -, hA₁⟩ := fromHost_clean hc ha hane
  rw [← hsq] at hA₁
  obtain ⟨h, c₂, h₂, hc₂, he₂, hI₂⟩ := triInverseOnDevice_clean hc₁ (he₁.baseOptions ▸ hs) (he₁.wellKept hw) hA₁
    (Nat.le_of_eq (by rw [ha.size, hsq])) hn hres hview
  -- `b` is copied in after it, and the product of the two launched and copied back
  have he₁₂ := he₁.trans he₂
  obtain ⟨c₃, h₃, hc₃, he₃, -, -, hB₃⟩ := fromHost_clean hc₂ hb hbne
  rw [hba] at hB₃
  have he₁₃ := he₁₂.trans he₃
  obtain ⟨c₄, h₄, hc₄, he₄, hC₄⟩ := multiplyOnDevice_clean hc₃ (he₁₃.baseOptions ▸ hs) (he₁₃.wellKept hw)
    (he₃.holds hI₂) hB₃ (by rw [size_triInverseData]) (Nat.le_of_eq (by rw [hb.size, hba])) hn hn hm hn32 hn32 hm32
    hresb
  obtain ⟨c₅, h₅, -, he₅⟩ := toHost_clean hc₄ hC₄
  have hall : (Builtin.multiplyColumns (triInverseData (view == .lower) a.data a.rows) b.data a.rows b.cols
      a.rows).extract 0 (a.rows * b.cols) =
      Builtin.multiplyColumns (triInverseData (view == .lower) a.data a.rows) b.data a.rows b.cols a.rows := by
    rw [← Builtin.size_multiplyColumns (triInverseData (view == .lower) a.data a.rows) b.data a.rows b.cols a.rows,
      Array.extract_size]
  refine ⟨c₅, ?_, ((he₁₃.trans he₄).trans he₅).dispatches⟩
  unfold solveTriOnDevice
  rw [run_bind_ok h₁, run_bind_ok h₂, run_bind_ok h₃, run_bind_ok h₄, h₅, hall]

/-- The device path of a triangular solve with a right-hand side of more columns than a 32-bit
    integer holds: the inverse is made on the device and the right-hand side copied in, and then
    the product refuses the column count.  It counts no dispatch. -/
theorem solveTriOnDevice_wide {c : Context} (hc : c.Clean) (hs : c.baseOptions.Sound) (hw : c.WellKept)
    {a b : Matrix} (ha : a.Stored) (hb : b.Stored) (hsq : a.rows = a.cols) (hab : a.cols = b.rows)
    (hn : 0 < a.rows) (hm32 : int32Max < b.cols) {view : TriView} (hview : view ≠ .entire) :
    ∃ c', (solveTriOnDevice a b view).run.run c =
        .ok (.error (.invalidArgument "multiply" ("dimension " ++ toString b.cols ++ " exceeds the int range")), c') ∧
      c'.dispatches = c.dispatches := by
  have hba : b.rows = a.rows := hab.symm.trans hsq.symm
  have hres := ha.reserve_square hsq
  have hresb : Word.reserve (a.rows * b.cols) = .ok () := by
    have h := hb.reservable
    rwa [hba] at h
  have hn32 := le_int32Max_of_reserve hres
  have hane : a.size ≠ 0 := Nat.ne_of_gt (Nat.mul_pos hn (hsq ▸ hn))
  have hbne : b.size ≠ 0 := Nat.ne_of_gt (Nat.mul_pos (hba ▸ hn) (Nat.lt_of_le_of_lt (Nat.zero_le _) hm32))
  -- `a` is copied in and its triangle inverted, then `b` copied in, as on every device solve
  obtain ⟨c₁, h₁, hc₁, he₁, -, -, hA₁⟩ := fromHost_clean hc ha hane
  rw [← hsq] at hA₁
  obtain ⟨h, c₂, h₂, hc₂, he₂, hI₂⟩ := triInverseOnDevice_clean hc₁ (he₁.baseOptions ▸ hs) (he₁.wellKept hw) hA₁
    (Nat.le_of_eq (by rw [ha.size, hsq])) hn hres hview
  have he₁₂ := he₁.trans he₂
  obtain ⟨c₃, h₃, -, he₃, -, -, hB₃⟩ := fromHost_clean hc₂ hb hbne
  rw [hba] at hB₃
  have he₁₃ := he₁₂.trans he₃
  -- the product of the two is refused before anything is launched
  obtain ⟨c₄, h₄⟩ := multiplyOnDevice_wide (he₁₃.baseOptions ▸ hs) (he₁₃.wellKept hw) (he₃.holds hI₂) hB₃ hn hn hn32 hm32
    hresb
  refine ⟨c₄, ?_, ?_⟩
  · unfold solveTriOnDevice
    rw [run_bind_ok h₁, run_bind_ok h₂, run_bind_ok h₃]
    exact run_bind_error h₄
  · rw [keepsDispatches_multiplyOnDevice _ _ _ _ _ h₄]
    exact he₁₃.dispatches

/-! ## Contexts made from a configuration -/

section Fresh

variable {host : HostAlgebra} {c : Context} {a b : Matrix} {view : TriView}

theorem Fresh.solveTri_onHost (hh : host.Lawful) (hc : c.Fresh) (hsq : a.rows = a.cols) (hab : a.cols = b.rows)
    (hn : 0 < a.rows) (hm : 0 < b.cols) (hview : view ≠ .entire) (hdiag : ∀ i < a.rows, (a.get i i == 0) = false)
    (hoff : c.offloadsTri a.rows = false) :
    ∃ x c', host.solve a.data a.rows b.data b.rows b.cols (view == .lower) = some x ∧
      (solveTri host a b view).run.run c = .ok (.ok ⟨b.rows, b.cols, x⟩, c') ∧ c'.dispatches = (1, 0) := by
  obtain ⟨x, hx, hsolve⟩ := hostSolve_eq hh hdiag "mdivide_left_tri" b
  refine ⟨x, _, hx, ?_, hc.dispatches_recorded false⟩
  rw [solveTri_run_decided hsq hab hn hm hview hdiag, hoff, if_neg Bool.false_ne_true, hsolve]

theorem Fresh.invertTri_onHost (hh : host.Lawful) (hc : c.Fresh) (hsq : a.rows = a.cols) (hn : 0 < a.rows)
    (hview : view ≠ .entire) (hdiag : ∀ i < a.rows, (a.get i i == 0) = false) (hoff : c.offloadsTri a.rows = false) :
    ∃ x c', host.solve a.data a.rows (Matrix.identity a.rows).data a.rows a.rows (view == .lower) = some x ∧
      (invertTri host a view).run.run c = .ok (.ok ⟨a.rows, a.rows, x⟩, c') ∧ c'.dispatches = (1, 0) := by
  obtain ⟨x, hx, hsolve⟩ := hostSolve_eq hh hdiag "mdivide_left_tri_inverse" (Matrix.identity a.rows)
  refine ⟨x, _, hx, ?_, hc.dispatches_recorded false⟩
  rw [invertTri_run_decided hsq hn hview hdiag, hoff, if_neg Bool.false_ne_true, hsolve]
  rfl

theorem Fresh.solveTri_onDevice (hc : c.Fresh) (ha : a.Stored) (hb : b.Stored) (hsq : a.rows = a.cols)
    (hab : a.cols = b.rows) (hn : 0 < a.rows) (hm : 0 < b.cols) (hm32 : b.cols ≤ int32Max) (hview : view ≠ .entire)
    (hdiag : ∀ i < a.rows, (a.get i i == 0) = false) (hoff : c.offloadsTri a.rows = true) :
    ∃ c', (solveTri host a b view).run.run c =
        .ok (.ok ⟨a.rows, b.cols, Builtin.multiplyColumns (triInverseData (view == .lower) a.data a.rows) b.data
          a.rows b.cols a.rows⟩, c') ∧ c'.dispatches = (0, 1) := by
  -- the decision changes only the counters
  have hc₀ : ({ c with metrics := c.metrics.recordDispatch true } : Context).Clean := hc.clean.of_events rfl
  obtain ⟨c', hrun, hd⟩ :=
    solveTriOnDevice_run hc₀ hc.sound (hc.wellKept.of_eq rfl rfl) ha hb hsq hab hn hm hm32 hview
  refine ⟨c', ?_, ?_⟩
  · rw [solveTri_run_decided hsq hab hn hm hview hdiag, if_pos hoff, hrun]
  · rw [hd, hc.dispatches_recorded true]
    rfl

theorem Fresh.solveTri_onDeviceWide (hc : c.Fresh) (ha : a.Stored) (hb : b.Stored) (hsq : a.rows = a.cols)
    (hab : a.cols = b.rows) (hn : 0 < a.rows) (hm32 : int32Max < b.cols) (hview : view ≠ .entire)
    (hdiag : ∀ i < a.rows, (a.get i i == 0) = false) (hoff : c.offloadsTri a.rows = true) :
    ∃ c', (solveTri host a b view).run.run c =
        .ok (.error (.invalidArgument "multiply" ("dimension " ++ toString b.cols ++ " exceeds the int range")), c') ∧
      c'.dispatches = (0, 1) := by
  have hc₀ : ({ c with metrics := c.metrics.recordDispatch true } : Context).Clean := hc.clean.of_events rfl
  obtain ⟨c', hrun, hd⟩ :=
    solveTriOnDevice_wide hc₀ hc.sound (hc.wellKept.of_eq rfl rfl) ha hb hsq hab hn hm32 hview
  have hm : 0 < b.cols := Nat.lt_of_le_of_lt (Nat.zero_le _) hm32
  refine ⟨c', ?_, ?_⟩
  · rw [solveTri_run_decided hsq hab hn hm hview hdiag, if_pos hoff, hrun]
  · rw [hd, hc.dispatches_recorded true]
    rfl

theorem Fresh.invertTri_onDevice (hc : c.Fresh) (ha : a.Stored) (hsq : a.rows = a.cols) (hn : 0 < a.rows)
    (hview : view ≠ .entire) (hdiag : ∀ i < a.rows, (a.get i i == 0) = false) (hoff : c.offloadsTri a.rows = true) :
    ∃ c', (invertTri host a view).run.run c =
        .ok (.ok ⟨a.rows, a.rows, triInverseData (view == .lower) a.data a.rows⟩, c') ∧ c'.dispatches = (0, 1) := by
  have hc₀ : ({ c with metrics := c.metrics.recordDispatch true } : Context).Clean := hc.clean.of_events rfl
  obtain ⟨c', hrun, hd⟩ := invertTriOnDevice_run hc₀ hc.sound (hc.wellKept.of_eq rfl rfl) ha hsq hn hview
  refine ⟨c', ?_, ?_⟩
  · rw [invertTri_run_decided hsq hn hview hdiag, if_pos hoff, hrun]
  · rw [hd, hc.dispatches_recorded true]
    rfl

end Fresh

/-! ## The contract of a triangular solve and inverse -/

/-- The identity of order `n` in exact arithmetic, stored column by column. -/
def ratIdentity (n : Nat) : Array ℚ := ofFn n n fun i j => if i = j then 1 else 0

/-- What a triangular solve against `a` with right-hand side `b`, and a triangular inverse of `a`,
    do on the context `c`, whose counters start at zero, for the triangle `view` of `a` and the host
    library `host`.  When no diagonal entry of `a` is zero, exactly one dispatch is counted, to the
    device as `offloadsTri` decides.  On the host both answer the host library's solution.  On the
    device the inverse answers the triangular inverse the kernels make, and the solve answers the
    product kernel's columns for that inverse and `b`, except that the product kernel refuses a
    right-hand side of more than `int32Max` columns.  The device reads only the chosen triangle of
    `a`.  In exact arithmetic the device gives `T⁻¹ * b` and `T⁻¹` for that triangle `T`, and the
    host library answers the same. -/
structure TriangularContract (host : HostAlgebra) (c : Context) (a b : Matrix) (view : TriView) : Prop where
  solveOnHost : (∀ i < a.rows, (a.get i i == 0) = false) → c.offloadsTri a.rows = false →
    ∃ x c', host.solve a.data a.rows b.data b.rows b.cols (view == .lower) = some x ∧
      (solveTri host a b view).run.run c = .ok (.ok ⟨b.rows, b.cols, x⟩, c') ∧ c'.dispatches = (1, 0)
  solveOnDevice : (∀ i < a.rows, (a.get i i == 0) = false) → c.offloadsTri a.rows = true → b.cols ≤ int32Max →
    ∃ c', (solveTri host a b view).run.run c =
        .ok (.ok ⟨a.rows, b.cols, Builtin.multiplyColumns (triInverseData (view == .lower) a.data a.rows) b.data
          a.rows b.cols a.rows⟩, c') ∧ c'.dispatches = (0, 1)
  solveOnDeviceWide : (∀ i < a.rows, (a.get i i == 0) = false) → c.offloadsTri a.rows = true → int32Max < b.cols →
    ∃ c', (solveTri host a b view).run.run c =
        .ok (.error (.invalidArgument "multiply" ("dimension " ++ toString b.cols ++ " exceeds the int range")), c') ∧
      c'.dispatches = (0, 1)
  invertOnHost : (∀ i < a.rows, (a.get i i == 0) = false) → c.offloadsTri a.rows = false →
    ∃ x c', host.solve a.data a.rows (Matrix.identity a.rows).data a.rows a.rows (view == .lower) = some x ∧
      (invertTri host a view).run.run c = .ok (.ok ⟨a.rows, a.rows, x⟩, c') ∧ c'.dispatches = (1, 0)
  invertOnDevice : (∀ i < a.rows, (a.get i i == 0) = false) → c.offloadsTri a.rows = true →
    ∃ c', (invertTri host a view).run.run c =
        .ok (.ok ⟨a.rows, a.rows, triInverseData (view == .lower) a.data a.rows⟩, c') ∧ c'.dispatches = (0, 1)
  onlyTriangle : ∀ a' : Array Float, SameTriangle (view == .lower) a' a.data a.rows →
    triInverseData (view == .lower) a' a.rows = triInverseData (view == .lower) a.data a.rows
  exact : ∀ A B : Array ℚ, (∀ i < a.rows, entry A a.rows i i ≠ 0) →
    Builtin.multiplyColumns (triInverseData (view == .lower) A a.rows) B a.rows b.cols a.rows =
        ofMatrix ((triangle (view == .lower) A a.rows)⁻¹ * toMatrix B a.rows b.cols) ∧
      triInverseData (view == .lower) A a.rows = ofMatrix (triangle (view == .lower) A a.rows)⁻¹ ∧
      (∀ x, host.solve A a.rows B a.rows b.cols (view == .lower) = some x →
        x = Builtin.multiplyColumns (triInverseData (view == .lower) A a.rows) B a.rows b.cols a.rows) ∧
      (∀ x, host.solve A a.rows (ratIdentity a.rows) a.rows a.rows (view == .lower) = some x →
        x = triInverseData (view == .lower) A a.rows)

/-- The contract holds on every fresh context, for a stored square matrix of order at least one,
    a stored right-hand side of as many rows and at least one column, either triangle and every
    lawful host library. -/
theorem Fresh.triangularContract {host : HostAlgebra} (hh : host.Lawful) {c : Context} (hc : c.Fresh) {a b : Matrix}
    (ha : a.Stored) (hb : b.Stored) (hsq : a.rows = a.cols) (hab : a.cols = b.rows) (hn : 0 < a.rows)
    (hm : 0 < b.cols) {view : TriView} (hview : view ≠ .entire) : c.TriangularContract host a b view where
  solveOnHost hdiag hoff := hc.solveTri_onHost hh hsq hab hn hm hview hdiag hoff
  solveOnDevice hdiag hoff hm32 := hc.solveTri_onDevice ha hb hsq hab hn hm hm32 hview hdiag hoff
  solveOnDeviceWide hdiag hoff hm32 := hc.solveTri_onDeviceWide ha hb hsq hab hn hm32 hview hdiag hoff
  invertOnHost hdiag hoff := hc.invertTri_onHost hh hsq hn hview hdiag hoff
  invertOnDevice hdiag hoff := hc.invertTri_onDevice ha hsq hn hview hdiag hoff
  onlyTriangle _ h := triInverseData_sameTriangle h
  exact A B hd := by
    -- the device's columns are `T⁻¹ * B` and `T⁻¹`; a lawful library answers the same
    have hmul := multiplyColumns_triInverseData (view == .lower) hd B b.cols
    have hinv := triInverseData_exact (view == .lower) hd
    refine ⟨hmul, hinv, fun x hx => ?_, fun x hx => ?_⟩
    · rw [hmul]
      exact hh.solve_exact A B a.rows b.cols (view == .lower) x hd hx
    · rw [hinv, hh.solve_exact A (ratIdentity a.rows) a.rows a.rows (view == .lower) x hd hx, ratIdentity,
        identity_eq_ofMatrix, toMatrix_ofMatrix, Matrix.mul_one]

/-- On every context a configuration makes, whatever thresholds it is given, triangular solves and
    inverses keep the contract with every lawful host library, for a stored square matrix of order
    at least one, a stored right-hand side of as many rows and at least one column, and either
    triangle. -/
theorem triangular_contract_of_create {host : HostAlgebra} (hh : host.Lawful) {cfg : Config} {processors : Nat}
    {ctx : Context} (hctx : Context.create cfg processors = .ok (.ok ctx))
    (hvals : ∀ kv ∈ cfg.baseOptions.entries, kv.2 < Int.pow 2 63) (t : Tuning) {a b : Matrix}
    (ha : a.Stored) (hb : b.Stored) (hsq : a.rows = a.cols) (hab : a.cols = b.rows) (hn : 0 < a.rows)
    (hm : 0 < b.cols) {view : TriView} (hview : view ≠ .entire) :
    (ctx.setTuning t).TriangularContract host a b view :=
  ((fresh_of_create hctx hvals).setTuning t).triangularContract hh ha hb hsq hab hn hm hview

/-- The default configuration on two processors, its own thresholds, the blocked host algebra, the
    upper triangle of a stored `2 × 2` matrix and a stored column. -/
theorem default_triangular_contract : ∃ ctx, Context.create {} 2 = .ok (.ok ctx) ∧
    (∀ kv ∈ ({} : Config).baseOptions.entries, kv.2 < Int.pow 2 63) ∧ HostAlgebra.blocked.Lawful ∧
    Matrix.Stored ⟨2, 2, #[1, 0, 2, 4]⟩ ∧ Matrix.Stored ⟨2, 1, #[1, 1]⟩ ∧ TriView.upper ≠ .entire ∧
    (ctx.setTuning Tuning.defaults).TriangularContract HostAlgebra.blocked ⟨2, 2, #[1, 0, 2, 4]⟩ ⟨2, 1, #[1, 1]⟩
      .upper := by
  obtain ⟨ctx, hctx⟩ := create_ok_of_isSome (by decide +kernel : ((Context.create {} 2).toOption.bind
    Except.toOption).isSome = true)
  have hvals : ∀ kv ∈ ({} : Config).baseOptions.entries, kv.2 < Int.pow 2 63 := by decide +kernel
  have ha : Matrix.Stored ⟨2, 2, #[1, 0, 2, 4]⟩ := ⟨rfl, rfl⟩
  have hb : Matrix.Stored ⟨2, 1, #[1, 1]⟩ := ⟨rfl, rfl⟩
  have hview : TriView.upper ≠ .entire := by decide
  exact ⟨ctx, hctx, hvals, HostAlgebra.blocked_lawful, ha, hb, hview,
    triangular_contract_of_create HostAlgebra.blocked_lawful hctx hvals Tuning.defaults ha hb rfl rfl (by decide)
      (by decide) hview⟩

/-- A right-hand side wider than a 32-bit integer is refused on the device, because the product
    kernel takes its column count as one: on the default configuration with every triangular solve
    sent to the device, solving against a nonzero `1 × 1` triangle for a row of `2^31` zeros answers
    that refusal. -/
theorem wide_rhs_refused_on_device : ∃ ctx, Context.create {} 2 = .ok (.ok ctx) ∧
    ∀ d : Float, (d == 0) = false → ∃ c',
      (solveTri HostAlgebra.blocked ⟨1, 1, #[d]⟩ ⟨1, 2147483648, Array.replicate 2147483648 0⟩ .lower).run.run
          (ctx.setTuning ⟨2000000, 0⟩) =
        .ok (.error (.invalidArgument "multiply" "dimension 2147483648 exceeds the int range"), c') := by
  obtain ⟨ctx, hctx⟩ := create_ok_of_isSome (by decide +kernel : ((Context.create {} 2).toOption.bind
    Except.toOption).isSome = true)
  have hvals : ∀ kv ∈ ({} : Config).baseOptions.entries, kv.2 < Int.pow 2 63 := by decide +kernel
  refine ⟨ctx, hctx, fun d hd => ?_⟩
  have hb : Matrix.Stored ⟨1, 2147483648, Array.replicate 2147483648 0⟩ := ⟨Array.size_replicate, by decide⟩
  have hdiag : ∀ i < 1, ((⟨1, 1, #[d]⟩ : Matrix).get i i == 0) = false := by
    intro i hi
    rw [Nat.lt_one_iff.mp hi]
    exact hd
  have ha : Matrix.Stored ⟨1, 1, #[d]⟩ := ⟨rfl, rfl⟩
  obtain ⟨c', hrun, -⟩ := @Fresh.solveTri_onDeviceWide HostAlgebra.blocked _ ⟨1, 1, #[d]⟩
    ⟨1, 2147483648, Array.replicate 2147483648 0⟩ .lower ((fresh_of_create hctx hvals).setTuning ⟨2000000, 0⟩) ha hb
    rfl rfl Nat.one_pos (by decide) (by decide) hdiag rfl
  exact ⟨c', hrun⟩

end Context

end OffloadAlgebra
