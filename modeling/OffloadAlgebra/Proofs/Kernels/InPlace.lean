import Mathlib
import OffloadAlgebra.Proofs.Exact.Triangular
/-!
  The built-in kernels as their code runs them: in place, with checked indexing.

  The kernels' code writes its output buffer element by element, reads its inputs by index, and
  panics at an index past the end of a buffer.  Read with checked indexing, where a read or a
  store past the end gives nothing (`xs[i]?`, `store`), the code's loops are `multiplyInPlace`,
  `transposeInPlace` and `lowerInverseInPlace`.  Once a kernel's length checks have passed, its
  loops never index past the end of a buffer, and they leave the columns the kernel computes
  followed by the rest of the output as it was (`multiplyInPlace_eq`, `transposeInPlace_eq`,
  `lowerInverseInPlace_eq`).

  Every loop is read through one lemma, `foldlM_range_eq`: a loop over `0, …, n - 1` whose step
  `i` takes the state `g i` to `g (i + 1)` ends in `g n`.  The product and the inverse write
  column `j` over its own stretch of the output, which starts after the columns already written;
  a stretch is followed through `P ++ S ++ R`, with the columns before it in `P` and the rest of
  the buffer in `R` (`getElem?_segment`, `store_segment`, `foldlM_columns`).  The transpose
  scatters each column of its input with stride `cols` and is followed element by element
  (`transposedWhere`).
-/

namespace OffloadAlgebra.Builtin

/-! ## Checked indexing and loops -/

section Checked

variable {α : Type}

/-- The code's indexed store `xs[i] = v`: nothing when `i` is past the end, where the code
    panics. -/
def store (xs : Array α) (i : Nat) (v : α) : Option (Array α) :=
  if i < xs.size then some (xs.setIfInBounds i v) else none

theorem store_of_lt {xs : Array α} {i : Nat} (h : i < xs.size) (v : α) :
    store xs i v = some (xs.setIfInBounds i v) := if_pos h

theorem getElem?_eq_some_getD {xs : Array α} {i : Nat} (h : i < xs.size) (d : α) :
    xs[i]? = some (xs.getD i d) := by
  rw [Array.getD_eq_getD_getElem?, Array.getElem?_eq_getElem h, Option.getD_some]

/-- An index within the first `rows * cols` elements of a matrix stored column by column. -/
theorem colIndex_lt {rows cols i j : Nat} (hi : i < rows) (hj : j < cols) : j * rows + i < rows * cols := by
  rw [Nat.mul_comm j rows, Nat.mul_comm rows cols]
  exact Nat.mul_add_lt_mul_of_lt_of_lt hj hi

/-- A loop over `0, …, n - 1` that may stop: when step `i` takes `g i` to `g (i + 1)` for every
    `i < n`, the loop takes `g 0` to `g n`. -/
theorem foldlM_range_eq {β : Type} {f : β → Nat → Option β} (g : Nat → β) {n : Nat}
    (hstep : ∀ i < n, f (g i) i = some (g (i + 1))) : (List.range n).foldlM f (g 0) = some (g n) := by
  induction n with
  | zero => rfl
  | succ n ih =>
    rw [List.range_succ, List.foldlM_append, ih fun i hi => hstep i (Nat.lt_succ_of_lt hi)]
    simp [hstep n (Nat.lt_succ_self n)]

/-- The same loop over `s, …, s + n - 1`. -/
theorem foldlM_range'_eq {β : Type} {f : β → Nat → Option β} (g : Nat → β) {s n : Nat}
    (hstep : ∀ i < n, f (g i) (s + i) = some (g (i + 1))) : (List.range' s n).foldlM f (g 0) = some (g n) := by
  rw [List.range'_eq_map_range, List.foldlM_map]
  exact foldlM_range_eq g hstep

end Checked

/-! ## A stretch of a buffer -/

section Segment

variable {α : Type} {P S R : Array α} {base i : Nat}

theorem getElem?_segment (hP : P.size = base) (hi : i < S.size) : (P ++ S ++ R)[base + i]? = S[i]? := by
  subst hP
  rw [Array.getElem?_append_left (by simp; omega), Array.getElem?_append_right (by omega),
    Nat.add_sub_cancel_left]

theorem store_segment (hP : P.size = base) (hi : i < S.size) (v : α) :
    store (P ++ S ++ R) (base + i) v = some (P ++ S.setIfInBounds i v ++ R) := by
  subst hP
  rw [store_of_lt (by simp; omega), Array.setIfInBounds_append_left (by simp; omega),
    Array.setIfInBounds_append_right (by omega), Nat.add_sub_cancel_left]

/-- `S` with each of its first `i` elements `x`, at `t`, replaced by `f t x`. -/
def mapPrefix (f : Nat → α → α) (i : Nat) (S : Array α) : Array α :=
  S.mapIdx fun t x => if t < i then f t x else x

variable {f : Nat → α → α}

@[simp] theorem size_mapPrefix : (mapPrefix f i S).size = S.size := Array.size_mapIdx

theorem mapPrefix_zero : mapPrefix f 0 S = S := by
  refine Array.ext (by simp) fun t h₁ h₂ => ?_
  simp [mapPrefix]

theorem mapPrefix_size : mapPrefix f S.size S = S.mapIdx f := by
  refine Array.ext (by simp) fun t h₁ h₂ => ?_
  simp only [size_mapPrefix] at h₁
  simp [mapPrefix, h₁]

theorem getElem?_mapPrefix_self (hi : i < S.size) : (mapPrefix f i S)[i]? = S[i]? := by
  simp [mapPrefix, hi]

/-- Storing `f i x` over element `i` extends the prefix by one. -/
theorem setIfInBounds_mapPrefix {v : α} (hi : i < S.size) (hv : f i S[i] = v) :
    (mapPrefix f i S).setIfInBounds i v = mapPrefix f (i + 1) S := by
  refine Array.ext (by simp) fun t h₁ h₂ => ?_
  rw [Array.getElem_setIfInBounds (by simpa using h₂)]
  by_cases ht : i = t
  · subst ht
    simp [mapPrefix, hv]
  · have ht' : t ≠ i := Ne.symm ht
    have hts : t < S.size := by simpa using h₂
    simp only [mapPrefix, if_neg ht, Array.getElem_mapIdx]
    by_cases hlt : t < i
    · rw [if_pos hlt, if_pos (by omega)]
    · rw [if_neg hlt, if_neg (by omega)]

/-- A loop whose step `i` maps element `i` of the stretch, and nothing else. -/
theorem foldlM_mapPrefix {u : Array α → Nat → Option (Array α)} {I : Nat}
    (hu : ∀ i < I, u (P ++ mapPrefix f i S ++ R) i = some (P ++ mapPrefix f (i + 1) S ++ R)) :
    (List.range I).foldlM u (P ++ S ++ R) = some (P ++ mapPrefix f I S ++ R) := by
  simpa only [mapPrefix_zero] using foldlM_range_eq (fun i => P ++ mapPrefix f i S ++ R) hu

/-- `len` zeros stored from `base` on. -/
def fillZeros [Zero α] (c : Array α) (base len : Nat) : Option (Array α) :=
  (List.range len).foldlM (fun c i => store c (base + i) 0) c

theorem fillZeros_segment [Zero α] (hP : P.size = base) {I : Nat} (hI : I ≤ S.size) :
    fillZeros (P ++ S ++ R) base I = some (P ++ mapPrefix (fun _ _ => 0) I S ++ R) :=
  foldlM_mapPrefix fun i hi => by
    rw [store_segment hP (by simp; omega), setIfInBounds_mapPrefix (by omega) rfl]

theorem mapPrefix_zeros [Zero α] : mapPrefix (fun _ _ => (0 : α)) S.size S = Array.replicate S.size 0 := by
  refine Array.ext (by simp) fun t h₁ h₂ => ?_
  simp only [size_mapPrefix] at h₁
  simp [mapPrefix, h₁]

end Segment

/-! ## Columns laid one after another -/

section Columns

variable {α : Type}

/-- The columns `col 0, …, col (J - 1)`, laid one after another. -/
def columnsUpTo (col : Nat → Array α) (J : Nat) : Array α := (List.range J).foldl (fun acc j => acc ++ col j) #[]

variable {col : Nat → Array α} {m : Nat}

@[simp] theorem columnsUpTo_zero : columnsUpTo col 0 = #[] := rfl

theorem columnsUpTo_succ (J : Nat) : columnsUpTo col (J + 1) = columnsUpTo col J ++ col J := by
  rw [columnsUpTo, List.range_succ, List.foldl_append, List.foldl_cons, List.foldl_nil]
  rfl

theorem size_columnsUpTo {J : Nat} (hcol : ∀ j < J, (col j).size = m) : (columnsUpTo col J).size = m * J := by
  induction J with
  | zero => rfl
  | succ J ih =>
    rw [columnsUpTo_succ, Array.size_append, ih fun j hj => hcol j (Nat.lt_succ_of_lt hj),
      hcol J (Nat.lt_succ_self J), Nat.mul_succ]

/-- Writing the columns in place: when step `j` writes column `j` over the stretch of `m`
    elements that follows the columns before it, the loop over the columns leaves them all,
    followed by the rest of the buffer. -/
theorem foldlM_columns {N : Nat} {c : Array α} (hc : m * N ≤ c.size) {step : Array α → Nat → Option (Array α)}
    (hstep : ∀ j < N, ∀ S R : Array α, S.size = m →
      step (columnsUpTo col j ++ S ++ R) j = some (columnsUpTo col j ++ col j ++ R)) :
    (List.range N).foldlM step c = some (columnsUpTo col N ++ c.extract (m * N) c.size) := by
  have h := foldlM_range_eq (fun j => columnsUpTo col j ++ c.extract (m * j) c.size) (f := step) fun j hj => by
    have hm : m * j + m ≤ c.size := (Nat.mul_succ m j ▸ Nat.mul_le_mul_left m hj).trans hc
    -- the rest of the buffer starts with the stretch of column `j`
    have hsplit : c.extract (m * j) c.size = c.extract (m * j) (m * j + m) ++ c.extract (m * j + m) c.size := by
      rw [Array.extract_append_extract, Nat.min_eq_left (by omega), Nat.max_eq_right hm]
    rw [hsplit, ← Array.append_assoc, hstep j hj _ _ (by simp; omega), columnsUpTo_succ, Nat.mul_succ]
  simpa [Array.extract_size] using h

end Columns

/-! ## The product kernel -/

section Product

variable {α : Type} [Scalar α]

/-- One term of a product column: unless `b(p,j)` is zero, every element `i` gains
    `a(i,p) * b(p,j)`. -/
def multiplyStep (a b : Array α) (m k j : Nat) (col : Array α) (p : Nat) : Array α :=
  let bpj := b.getD (j * k + p) 0
  if Scalar.isZero bpj then col else col.zipIdx.map fun (x, i) => x + a.getD (p * m + i) 0 * bpj

theorem multiplyColumns_eq_columnsUpTo (a b : Array α) (m n k : Nat) :
    multiplyColumns a b m n k = columnsUpTo (multiplyColumn a b m k) n := rfl

theorem multiplyStep_eq_mapIdx (a b : Array α) (m k j : Nat) (col : Array α) (p : Nat) :
    multiplyStep a b m k j col p =
      if Scalar.isZero (b.getD (j * k + p) 0) then col
      else col.mapIdx fun i x => x + a.getD (p * m + i) 0 * b.getD (j * k + p) 0 := by
  rw [multiplyStep, Array.mapIdx_eq_zipIdx_map]

theorem size_foldl_multiplyStep (a b : Array α) (m k j : Nat) (l : List Nat) {col : Array α} (hcol : col.size = m) :
    (l.foldl (multiplyStep a b m k j) col).size = m := by
  induction l generalizing col with
  | nil => exact hcol
  | cons p l ih =>
    refine ih ?_
    rw [multiplyStep_eq_mapIdx]
    split
    · exact hcol
    · rw [Array.size_mapIdx, hcol]

/-- Term `p` of a product column, added in place: element `i` of the stretch from `base` gains
    `a[p * m + i] * bpj`. -/
def accumulate (a : Array α) (m p base : Nat) (bpj : α) (c : Array α) : Option (Array α) :=
  (List.range m).foldlM (fun buf i => do
      let aip ← a[p * m + i]?
      let cij ← buf[base + i]?
      store buf (base + i) (cij + aip * bpj)) c

/-- Column `j` of the product kernel's loops, in place in `c`: the column is zeroed, then for
    `p < k` in order it gains `a(:,p) * b(p,j)` unless `b(p,j)` is zero. -/
def multiplyColumnInPlace (a b : Array α) (m k j : Nat) (c : Array α) : Option (Array α) := do
  let c ← fillZeros c (j * m) m
  (List.range k).foldlM (fun c p => do
      let bpj ← b[j * k + p]?
      if Scalar.isZero bpj then pure c else accumulate a m p (j * m) bpj c) c

/-- The product kernel's loops on `c` in place, column after column. -/
def multiplyInPlace (a b c : Array α) (m n k : Nat) : Option (Array α) :=
  (List.range n).foldlM (fun c j => multiplyColumnInPlace a b m k j c) c

variable {a b P S R : Array α} {m k : Nat}

theorem accumulate_segment {base p : Nat} (bpj : α) (hP : P.size = base) (hS : S.size = m)
    (ha : ∀ i < m, p * m + i < a.size) :
    accumulate a m p base bpj (P ++ S ++ R) =
      some (P ++ S.mapIdx (fun i x => x + a.getD (p * m + i) 0 * bpj) ++ R) := by
  have h := foldlM_mapPrefix (P := P) (S := S) (R := R) (f := fun i x => x + a.getD (p * m + i) 0 * bpj)
    (u := fun buf i => do
      let aip ← a[p * m + i]?
      let cij ← buf[base + i]?
      store buf (base + i) (cij + aip * bpj)) (I := m) fun i hi => by
    have hiS : i < S.size := hS ▸ hi
    -- the element read is the original one: the prefix stops before it
    rw [getElem?_eq_some_getD (ha i hi) 0, getElem?_segment hP (by simpa using hiS), getElem?_mapPrefix_self hiS,
      Array.getElem?_eq_getElem hiS]
    simp only [Option.bind_eq_bind, Option.bind_some]
    rw [store_segment hP (by simpa using hiS), setIfInBounds_mapPrefix hiS rfl]
  rw [← hS] at h ⊢
  rw [accumulate, h, mapPrefix_size]

theorem multiplyColumnInPlace_segment {j : Nat} (hP : P.size = j * m) (hS : S.size = m)
    (ha : ∀ p < k, ∀ i < m, p * m + i < a.size) (hb : ∀ p < k, j * k + p < b.size) :
    multiplyColumnInPlace a b m k j (P ++ S ++ R) = some (P ++ multiplyColumn a b m k j ++ R) := by
  have hfill : fillZeros (P ++ S ++ R) (j * m) m = some (P ++ Array.replicate m 0 ++ R) := by
    rw [fillZeros_segment hP (Nat.le_of_eq hS.symm), ← hS, mapPrefix_zeros]
  -- the terms added so far, after each `p`
  let g : Nat → Array α := fun p => P ++ (List.range p).foldl (multiplyStep a b m k j) (Array.replicate m 0) ++ R
  have hloop := foldlM_range_eq g (n := k) (f := fun c p => do
      let bpj ← b[j * k + p]?
      if Scalar.isZero bpj then pure c else accumulate a m p (j * m) bpj c) fun p hp => by
    have hcol := size_foldl_multiplyStep a b m k j (List.range p) (Array.size_replicate (n := m) (v := 0))
    simp only [g, List.range_succ, List.foldl_append, List.foldl_cons, List.foldl_nil]
    rw [getElem?_eq_some_getD (hb p hp) 0, multiplyStep_eq_mapIdx]
    simp only [Option.bind_eq_bind, Option.bind_some]
    split
    · rfl
    · rw [accumulate_segment _ hP hcol (ha p hp)]
  rw [multiplyColumnInPlace, hfill]
  exact hloop

/-- Once the product kernel's length checks pass, its loops stay inside the buffers and leave
    the product's columns followed by the rest of `c`. -/
theorem multiplyInPlace_eq {c : Array α} {n : Nat} (ha : m * k ≤ a.size) (hb : k * n ≤ b.size)
    (hc : m * n ≤ c.size) :
    multiplyInPlace a b c m n k = some (multiplyColumns a b m n k ++ c.extract (m * n) c.size) := by
  rw [multiplyColumns_eq_columnsUpTo]
  refine foldlM_columns hc fun j hj S R hS => multiplyColumnInPlace_segment ?_ hS ?_ ?_
  · rw [@size_columnsUpTo _ (multiplyColumn a b m k) m _ fun j' _ =>
      size_foldl_multiplyStep a b m k j' _ Array.size_replicate, Nat.mul_comm]
  · exact fun p hp i hi => Nat.lt_of_lt_of_le (colIndex_lt hi hp) ha
  · exact fun p hp => Nat.lt_of_lt_of_le (colIndex_lt hp hj) hb

end Product

/-! ## The transpose kernel -/

section Transpose

variable {α : Type} [Scalar α]

/-- The transpose kernel's loops on `b` in place: for each column `j` of `a` and each row `i`,
    `b[i * cols + j] = a[j * rows + i]`. -/
def transposeInPlace (a b : Array α) (rows cols : Nat) : Option (Array α) :=
  (List.range cols).foldlM (fun b j =>
      (List.range rows).foldlM (fun b i => do
          let v ← a[j * rows + i]?
          store b (i * cols + j) v) b)
    b

/-- `b` with each element `t < rows * cols` that `done` accepts taken from the transpose of the
    `rows × cols` matrix `a`. -/
def transposedWhere (a b : Array α) (rows cols : Nat) (done : Nat → Bool) : Array α :=
  b.mapIdx fun t x => if t < rows * cols ∧ done t then a.getD (t % cols * rows + t / cols) 0 else x

/-- Position `i * cols + j` of a matrix stored row by row in rows of `cols` elements. -/
theorem eq_rowIndex_iff {cols i j t : Nat} (hj : j < cols) : t = i * cols + j ↔ t % cols = j ∧ t / cols = i := by
  constructor
  · rintro rfl
    rw [Nat.mul_comm, Nat.mul_add_mod, Nat.mod_eq_of_lt hj, Nat.mul_add_div (by omega), Nat.div_eq_of_lt hj,
      Nat.add_zero]
    exact ⟨rfl, rfl⟩
  · rintro ⟨hmod, hdiv⟩
    rw [← Nat.div_add_mod t cols, hmod, hdiv, Nat.mul_comm]

variable {a b : Array α} {rows cols : Nat}

theorem transposedWhere_congr {done done' : Nat → Bool} (h : ∀ t < rows * cols, done t = done' t) :
    transposedWhere a b rows cols done = transposedWhere a b rows cols done' := by
  refine Array.ext (by simp [transposedWhere]) fun t h₁ h₂ => ?_
  simp only [transposedWhere, Array.getElem_mapIdx]
  by_cases ht : t < rows * cols
  · rw [h t ht]
  · simp [ht]

theorem transposedWhere_none : transposedWhere a b rows cols (fun _ => false) = b := by
  refine Array.ext (by simp [transposedWhere]) fun t h₁ h₂ => ?_
  simp [transposedWhere]

/-- Storing `a(i,j)` at `i * cols + j` adds that position to those taken from the transpose. -/
theorem store_transposedWhere {done : Nat → Bool} {i j : Nat} (hi : i < rows) (hj : j < cols)
    (hb : rows * cols ≤ b.size) :
    store (transposedWhere a b rows cols done) (i * cols + j) (a.getD (j * rows + i) 0) =
      some (transposedWhere a b rows cols fun t => done t || t == i * cols + j) := by
  have hij : i * cols + j < rows * cols := by
    rw [Nat.mul_comm rows cols]
    exact colIndex_lt hj hi
  rw [store_of_lt (by simp [transposedWhere]; omega)]
  congr 1
  refine Array.ext (by simp [transposedWhere]) fun t h₁ h₂ => ?_
  rw [Array.getElem_setIfInBounds (by simpa [transposedWhere] using h₂)]
  simp only [transposedWhere, Array.getElem_mapIdx, Bool.or_eq_true, beq_iff_eq]
  by_cases ht : i * cols + j = t
  · -- the position stored: its row and column are `i` and `j`
    obtain ⟨hmod, hdiv⟩ := (eq_rowIndex_iff hj).mp ht.symm
    rw [if_pos ht, if_pos ⟨ht ▸ hij, Or.inr ht.symm⟩, hmod, hdiv]
  · rw [if_neg ht]
    simp only [Ne.symm ht, or_false]

/-- Once the transpose kernel's length checks pass, its loops stay inside the buffers and leave
    the transpose followed by the rest of `b`. -/
theorem transposeInPlace_eq (ha : rows * cols ≤ a.size) (hb : rows * cols ≤ b.size) :
    transposeInPlace a b rows cols = some (transposeData a rows cols ++ b.extract (rows * cols) b.size) := by
  -- after column `j`, every position whose column is before `j` holds the transpose
  let g : Nat → Array α := fun j => transposedWhere a b rows cols fun t => decide (t % cols < j)
  have hcol : ∀ j < cols, (List.range rows).foldlM (fun b i => do
      let v ← a[j * rows + i]?
      store b (i * cols + j) v) (g j) = some (g (j + 1)) := fun j hj => by
    -- within column `j`, the rows before `i`
    let g' : Nat → Array α := fun i =>
      transposedWhere a b rows cols fun t => decide (t % cols < j) || (t % cols == j && decide (t / cols < i))
    have h₀ : g' 0 = g j := transposedWhere_congr fun t _ => by simp
    have hrows : g' rows = g (j + 1) := transposedWhere_congr fun t ht => by
      have hq : t / cols < rows := Nat.div_lt_of_lt_mul (by rwa [Nat.mul_comm])
      rw [Bool.eq_iff_iff]
      simp only [Bool.or_eq_true, Bool.and_eq_true, decide_eq_true_eq, beq_iff_eq]
      omega
    rw [← h₀, ← hrows]
    refine foldlM_range_eq g' fun i hi => ?_
    rw [getElem?_eq_some_getD (Nat.lt_of_lt_of_le (colIndex_lt hi hj) ha) 0]
    simp only [Option.bind_eq_bind, Option.bind_some]
    rw [store_transposedWhere hi hj hb]
    congr 1
    refine transposedWhere_congr fun t ht => ?_
    rw [Bool.eq_iff_iff]
    simp only [Bool.or_eq_true, Bool.and_eq_true, decide_eq_true_eq, beq_iff_eq, eq_rowIndex_iff hj]
    omega
  have h := foldlM_range_eq (f := fun b j => (List.range rows).foldlM (fun b i => do
      let v ← a[j * rows + i]?
      store b (i * cols + j) v) b) g hcol
  have hg₀ : g 0 = b := (transposedWhere_congr fun t _ => by simp).trans transposedWhere_none
  rw [hg₀] at h
  rw [transposeInPlace, h]
  congr 1
  -- every column done: the transpose, then the rest of `b`
  refine Array.ext (by simp [g, transposedWhere, transposeData]; omega) fun t h₁ h₂ => ?_
  simp only [g, transposedWhere, Array.getElem_mapIdx, Array.getElem_append, transposeData, Array.size_map,
    Array.size_range, Array.getElem_map, Array.getElem_range, Array.getElem_extract]
  by_cases ht : t < rows * cols
  · have hcols : 0 < cols := Nat.pos_of_ne_zero fun h0 => by simp [h0] at ht
    rw [if_pos ⟨ht, decide_eq_true (Nat.mod_lt t hcols)⟩, dif_pos ht]
  · rw [if_neg fun h => ht h.1, dif_neg ht]
    congr 1
    omega

end Transpose

/-! ## The lower inverse kernel -/

section LowerInverse

open ColumnMajor

variable {α : Type} [Scalar α]

/-- Row `i` below the diagonal of column `j` of the inverse, in place in `inv`: the sum of
    `a[k * n + i] * inv[j * n + k]` for `k` from `j` up to `i - 1`, from the sum of no terms, then
    `inv[j * n + i] = -sum / a[i * n + i]`. -/
def substituteRow (a : Array α) (n j : Nat) (inv : Array α) (i : Nat) : Option (Array α) := do
  let sum ← (List.range' j (i - j)).foldlM (fun acc k => do
      let aik ← a[k * n + i]?
      let xk ← inv[j * n + k]?
      pure (acc + aik * xk)) Scalar.negZero
  let aii ← a[i * n + i]?
  store inv (j * n + i) (-sum / aii)

/-- Column `j` of the lower inverse kernel's loops, in place in `inv`: zeros above the diagonal,
    `1 / a[j * n + j]` on it, and the rows below it by substitution, in order. -/
def lowerInverseColumnInPlace (a : Array α) (n j : Nat) (inv : Array α) : Option (Array α) := do
  let inv ← fillZeros inv (j * n) j
  let ajj ← a[j * n + j]?
  let inv ← store inv (j * n + j) (1 / ajj)
  (List.range' (j + 1) (n - j - 1)).foldlM (substituteRow a n j) inv

/-- The lower inverse kernel's loops on `inv` in place, column after column. -/
def lowerInverseInPlace (a inv : Array α) (n : Nat) : Option (Array α) :=
  (List.range n).foldlM (fun inv j => lowerInverseColumnInPlace a n j inv) inv

theorem lowerInverseColumns_eq_columnsUpTo (a : Array α) (n : Nat) :
    lowerInverseColumns a n = columnsUpTo (lowerInverseColumn a n) n := rfl

variable {a P Q S R : Array α} {n j i : Nat}

omit [Scalar α] in
/-- Storing over the first element of what is left of a column. -/
theorem setIfInBounds_extract (hS : S.size = n) (hi : i < n) (v : α) :
    (S.extract i n).setIfInBounds 0 v = #[v] ++ S.extract (i + 1) n := by
  subst hS
  refine Array.ext (by simp; omega) fun t h₁ h₂ => ?_
  rw [Array.getElem_setIfInBounds (by simpa using h₁)]
  by_cases ht : t = 0
  · subst ht
    simp
  · rw [if_neg (Ne.symm ht), Array.getElem_append_right (by simp; omega)]
    simp only [Array.getElem_extract, List.size_toArray, List.length_singleton]
    congr 1
    omega

/-- A row of the substitution, with the entries above it in the column computed (`Q`) and the
    rest of the column as the buffer held it: the sum reads only those entries, and the row's
    entry is the one the kernel pushes. -/
theorem substituteRow_segment (hP : P.size = j * n) (hS : S.size = n) (hQ : Q.size = i) (hji : j ≤ i)
    (hin : i < n) (ha : n * n ≤ a.size) :
    substituteRow a n j (P ++ (Q ++ S.extract i n) ++ R) i =
      some (P ++ (Q.push (lowerInverseNext a n j Q i) ++ S.extract (i + 1) n) ++ R) := by
  have hcolumn : (Q ++ S.extract i n).size = n := by simp; omega
  -- the sum of the terms `s < i - j`, each read from `a` and from the entries above row `i`
  let g : Nat → α := fun s =>
    (List.range s).foldl (fun acc s => acc + entry a n i (j + s) * Q.getD (j + s) 0) Scalar.negZero
  have hsum : (List.range' j (i - j)).foldlM (fun acc k => do
      let aik ← a[k * n + i]?
      let xk ← (P ++ (Q ++ S.extract i n) ++ R)[j * n + k]?
      pure (acc + aik * xk)) Scalar.negZero = some (g (i - j)) := foldlM_range'_eq g fun s hs => by
    rw [getElem?_eq_some_getD (Nat.lt_of_lt_of_le (colIndex_lt hin (by omega : j + s < n)) ha) 0,
      getElem?_segment hP (by omega), Array.getElem?_append_left (by omega), getElem?_eq_some_getD (by omega) 0]
    simp only [Option.bind_eq_bind, Option.bind_some, g, List.range_succ, List.foldl_append, List.foldl_cons,
      List.foldl_nil]
    rfl
  rw [substituteRow, hsum]
  simp only [Option.bind_eq_bind, Option.bind_some]
  rw [getElem?_eq_some_getD (Nat.lt_of_lt_of_le (colIndex_lt hin hin) ha) 0]
  simp only [Option.bind_some]
  rw [store_segment hP (by omega), Array.setIfInBounds_append_right (by omega), hQ, Nat.sub_self,
    setIfInBounds_extract hS hin]
  simp only [Array.push_eq_append, Array.append_assoc]
  rfl

/-- Column `j` of the lower inverse, written in place over its stretch of the buffer. -/
theorem lowerInverseColumnInPlace_segment (hP : P.size = j * n) (hS : S.size = n) (hj : j < n)
    (ha : n * n ≤ a.size) :
    lowerInverseColumnInPlace a n j (P ++ S ++ R) = some (P ++ lowerInverseColumn a n j ++ R) := by
  -- zeros above the diagonal, then its entry: the start of the column
  have hstart : (mapPrefix (fun _ _ => (0 : α)) j S).setIfInBounds j (1 / entry a n j j) =
      (Array.replicate j 0).push (1 / entry a n j j) ++ S.extract (j + 1) n := by
    refine Array.ext (by simp; omega) fun t h₁ h₂ => ?_
    rw [Array.getElem_setIfInBounds (by simpa using h₁)]
    by_cases htj : j = t
    · subst htj
      rw [if_pos rfl, Array.getElem_append_left (by simp)]
      simp [Array.getElem_push]
    · rw [if_neg htj]
      by_cases hlt : t < j
      · rw [Array.getElem_append_left (by simp; omega), Array.getElem_push_lt (by simpa using hlt)]
        simp [mapPrefix, hlt]
      · rw [Array.getElem_append_right (by simp; omega)]
        simp only [mapPrefix, Array.getElem_mapIdx, if_neg hlt, Array.getElem_extract, Array.size_push,
          Array.size_replicate]
        congr 1
        omega
  -- after the rows `j + 1, …, j + t`, the column's first `j + 1 + t` entries are the kernel's
  let Qt : Nat → Array α := fun t =>
    pushes (fun col t => lowerInverseNext a n j col (j + 1 + t)) ((Array.replicate j 0).push (1 / entry a n j j)) t
  have hrows := foldlM_range'_eq (fun t => P ++ (Qt t ++ S.extract (j + 1 + t) n) ++ R) (s := j + 1) (n := n - j - 1)
    (f := substituteRow a n j) fun t ht => by
      have hsize : (Qt t).size = j + 1 + t := by simp [Qt, size_pushes]
      rw [substituteRow_segment hP hS hsize (by omega) (by omega) ha]
      simp only [Qt, pushes_succ, Nat.add_succ]
  rw [lowerInverseColumnInPlace, fillZeros_segment hP (by omega)]
  simp only [Option.bind_eq_bind, Option.bind_some]
  rw [getElem?_eq_some_getD (Nat.lt_of_lt_of_le (colIndex_lt hj hj) ha) 0]
  simp only [Option.bind_some]
  rw [store_segment hP (by simp; omega)]
  simp only [Option.bind_some]
  rw [show a.getD (j * n + j) 0 = entry a n j j from rfl, hstart]
  refine hrows.trans ?_
  have hempty : S.extract n n = #[] := by simp
  rw [show j + 1 + (n - j - 1) = n by omega, hempty, Array.append_empty]
  rfl

/-- Once the lower inverse kernel's length checks pass, its loops stay inside the buffers and
    leave the inverse's columns followed by the rest of `inv`. -/
theorem lowerInverseInPlace_eq {inv : Array α} (ha : n * n ≤ a.size) (hinv : n * n ≤ inv.size) :
    lowerInverseInPlace a inv n = some (lowerInverseColumns a n ++ inv.extract (n * n) inv.size) := by
  rw [lowerInverseColumns_eq_columnsUpTo]
  refine foldlM_columns hinv fun j hj S R hS => lowerInverseColumnInPlace_segment ?_ hS hj ha
  rw [@size_columnsUpTo _ (lowerInverseColumn a n) n _ fun j' hj' => size_lowerInverseColumn (Nat.lt_trans hj' hj),
    Nat.mul_comm]

end LowerInverse

end OffloadAlgebra.Builtin
