import Mathlib
import OffloadAlgebra.Kernel.Builtin
import OffloadAlgebra.Matrix.Dense
/-!
  Products in exact arithmetic.

  Read over the rationals, where the fused multiply-add is the exact `a * b + c` and the sum of
  no terms is zero, the product kernel and the host product both compute the matrix product:
  entry `(i, j)` of the product of the `m × k` matrix `a` and the `k × n` matrix `b` is
  `∑ p < k, a(i,p) * b(p,j)` (`ColumnMajor.exactProduct`).  The kernel builds each column from
  zero and skips the terms whose factor from `b` is zero, which add nothing
  (`multiplyColumns_exact`); the host product sums the inner dimension in blocks and adds the
  blocks up (`mulHostData_exact`).
-/

namespace OffloadAlgebra

/-- Exact rational arithmetic: the fused multiply-add is the exact `a * b + c`, and the sum of
    no terms is zero. -/
instance : Scalar ℚ where
  fma a b c := a * b + c
  negZero := 0
  isZero x := x == 0

theorem Scalar.eq_zero_of_isZero {x : ℚ} (h : Scalar.isZero x = true) : x = 0 := beq_iff_eq.mp h

namespace ColumnMajor

/-! ## Storage column by column -/

section Storage

variable {α : Type}

@[simp] theorem size_ofFn (m n : Nat) (f : Nat → Nat → α) : (ofFn m n f).size = m * n := by
  simp [ofFn]

theorem getElem_ofFn {m n : Nat} (f : Nat → Nat → α) {t : Nat} (ht : t < (ofFn m n f).size) :
    (ofFn m n f)[t] = f (t % m) (t / m) := by
  simp [ofFn]

/-- Entry `(i, j)` of the storage of `f` within its shape is `f i j`. -/
theorem entry_ofFn [Zero α] {m n i j : Nat} (f : Nat → Nat → α) (hi : i < m) (hj : j < n) :
    entry (ofFn m n f) m i j = f i j := by
  have ht : j * m + i < (ofFn m n f).size := by
    rw [size_ofFn]
    calc j * m + i < j * m + m := by omega
      _ = (j + 1) * m := by rw [Nat.succ_mul]
      _ ≤ n * m := Nat.mul_le_mul_right m hj
      _ = m * n := Nat.mul_comm n m
  rw [entry, Array.getD_eq_getD_getElem?, Array.getElem?_eq_getElem ht, Option.getD_some, getElem_ofFn,
    Nat.mul_comm j m, Nat.mul_add_mod, Nat.mod_eq_of_lt hi, Nat.mul_add_div (by omega), Nat.div_eq_of_lt hi,
    Nat.add_zero]

/-- Storage depends only on the entries within the shape. -/
theorem ofFn_congr {m n : Nat} {f g : Nat → Nat → α} (h : ∀ i < m, ∀ j < n, f i j = g i j) :
    ofFn m n f = ofFn m n g := by
  refine Array.ext (by simp) fun t h₁ h₂ => ?_
  simp only [size_ofFn] at h₁
  have hm : 0 < m := Nat.pos_of_ne_zero fun h0 => by simp [h0] at h₁
  rw [getElem_ofFn, getElem_ofFn]
  exact h _ (Nat.mod_lt t hm) _ (Nat.div_lt_of_lt_mul h₁)

/-- Columns of `m` entries laid one after another are the storage of the matrix they make. -/
theorem foldl_append_columns [Zero α] (m n : Nat) (col : Nat → Array α) (hcol : ∀ j < n, (col j).size = m) :
    (List.range n).foldl (fun acc j => acc ++ col j) #[] = ofFn m n fun i j => (col j).getD i 0 := by
  induction n with
  | zero => simp [ofFn]
  | succ n ih =>
    have hlast : (col n).size = m := hcol n (Nat.lt_succ_self n)
    rw [List.range_succ, List.foldl_append, List.foldl_cons, List.foldl_nil,
      ih fun j hj => hcol j (Nat.lt_succ_of_lt hj)]
    refine Array.ext (by simp [hlast, Nat.mul_succ]) fun t h₁ h₂ => ?_
    rw [Array.getElem_append, getElem_ofFn]
    split
    · rename_i hlt
      rw [getElem_ofFn]
    · -- past the first `n` columns: entry `t - m * n` of the last one
      rename_i hge
      simp only [size_ofFn, Nat.not_lt] at hge
      have hlt : t < m * n + m := by simpa [hlast, Nat.mul_succ] using h₁
      have hdiv : t / m = n := Nat.div_eq_of_lt_le (by rw [Nat.mul_comm]; exact hge)
        (by rw [Nat.succ_mul, Nat.mul_comm]; exact hlt)
      have hmod : t % m = t - m * n := by
        rw [Nat.mod_eq_sub_mul_div, hdiv]
      rw [hdiv, hmod, Array.getD_eq_getD_getElem?, Array.getElem?_eq_getElem (by rw [hlast]; omega),
        Option.getD_some]
      simp only [size_ofFn]

end Storage

/-! ## The product in exact arithmetic -/

/-- The storage of the product of the `m × k` matrix `a` and the `k × n` matrix `b` in exact
    arithmetic: entry `(i, j)` is `∑ p < k, a(i,p) * b(p,j)`. -/
def exactProduct (a b : Array ℚ) (m k n : Nat) : Array ℚ :=
  ofFn m n fun i j => ∑ p ∈ Finset.range k, entry a m i p * entry b k p j

end ColumnMajor

open ColumnMajor

/-- A sum folded from the left is its start plus the sum of its terms. -/
theorem foldl_range_add (g : Nat → ℚ) (n : Nat) (init : ℚ) :
    (List.range n).foldl (fun acc p => acc + g p) init = init + ∑ p ∈ Finset.range n, g p := by
  induction n generalizing init with
  | zero => simp
  | succ n ih => rw [List.range_succ, List.foldl_append, ih, List.foldl_cons, List.foldl_nil,
      Finset.sum_range_succ, add_assoc]

/-! ## The product kernel -/

/-- Column `j` of the product kernel, in exact arithmetic, after the terms `p < t`. -/
theorem foldl_multiplyColumn (a b : Array ℚ) (m k j t : Nat) :
    (List.range t).foldl (fun col p =>
        let bpj := b.getD (j * k + p) 0
        if Scalar.isZero bpj then col
        else col.zipIdx.map fun (x, i) => x + a.getD (p * m + i) 0 * bpj)
      (Array.replicate m 0) =
      (Array.range m).map fun i => ∑ p ∈ Finset.range t, entry a m i p * entry b k p j := by
  induction t with
  | zero =>
    refine Array.ext (by simp) fun i h₁ h₂ => ?_
    simp
  | succ t ih =>
    rw [List.range_succ, List.foldl_append, ih, List.foldl_cons, List.foldl_nil]
    simp only [Finset.sum_range_succ]
    split
    · -- a zero factor from `b` adds nothing
      rename_i hz
      have hzero : entry b k t j = 0 := Scalar.eq_zero_of_isZero hz
      simp [hzero]
    · -- every entry gains its term
      refine Array.ext (by simp) fun i h₁ h₂ => ?_
      simp [Array.getElem_zipIdx, entry]

/-- Column `j` of the product kernel, in exact arithmetic: entry `i` is `∑ p < k, a(i,p) * b(p,j)`. -/
theorem multiplyColumn_exact (a b : Array ℚ) (m k j : Nat) :
    Builtin.multiplyColumn a b m k j =
      (Array.range m).map fun i => ∑ p ∈ Finset.range k, entry a m i p * entry b k p j :=
  foldl_multiplyColumn a b m k j k

/-- The product kernel computes the matrix product in exact arithmetic. -/
theorem multiplyColumns_exact (a b : Array ℚ) (m n k : Nat) :
    Builtin.multiplyColumns a b m n k = exactProduct a b m k n := by
  unfold Builtin.multiplyColumns exactProduct
  rw [foldl_append_columns m n _ (fun j _ => by rw [multiplyColumn_exact]; simp)]
  refine ofFn_congr fun i hi j _ => ?_
  rw [multiplyColumn_exact, Array.getD_eq_getD_getElem?]
  simp [hi]

/-! ## The host product -/

/-- One block of the host product, in exact arithmetic: the sum of its terms. -/
theorem blockSum_exact (a b : Array ℚ) (m k k' i j s : Nat) :
    Matrix.blockSum a b m k k' i j s =
      ∑ p ∈ Finset.range (min Matrix.innerBlock (k - s)), entry a m i (s + p) * entry b k' (s + p) j := by
  unfold Matrix.blockSum
  -- a fused multiply-add puts the product before the sum so far
  have hstep : (fun acc p => Scalar.fma (entry a m i (s + p)) (entry b k' (s + p) j) acc) =
      fun acc p => acc + entry a m i (s + p) * entry b k' (s + p) j := by
    funext acc p
    exact add_comm _ _
  rw [hstep, foldl_range_add, zero_add]

/-- The first `N` blocks of the inner dimension, summed block by block, are the terms below
    `N` blocks (and below `k`). -/
theorem sum_blocks (f : Nat → ℚ) (k N : Nat) :
    ∑ t ∈ Finset.range N, ∑ p ∈ Finset.range (min Matrix.innerBlock (k - t * Matrix.innerBlock)),
        f (t * Matrix.innerBlock + p) =
      ∑ p ∈ Finset.range (min (N * Matrix.innerBlock) k), f p := by
  induction N with
  | zero => simp
  | succ N ih =>
    rw [Finset.sum_range_succ, ih]
    by_cases hN : N * Matrix.innerBlock ≤ k
    · -- a whole or last partial block follows the ones before
      have hmin : min ((N + 1) * Matrix.innerBlock) k =
          N * Matrix.innerBlock + min Matrix.innerBlock (k - N * Matrix.innerBlock) := by
        rw [Nat.succ_mul]
        omega
      rw [hmin, Finset.sum_range_add, Nat.min_eq_left hN]
    · -- past `k` a block has no terms
      have hempty : min Matrix.innerBlock (k - N * Matrix.innerBlock) = 0 := by omega
      have hmin : min ((N + 1) * Matrix.innerBlock) k = min (N * Matrix.innerBlock) k := by
        rw [Nat.succ_mul]
        omega
      rw [hempty, hmin, Finset.sum_range_zero, add_zero]

/-- The host product computes the matrix product in exact arithmetic, whenever each entry has a
    term. -/
theorem mulHostData_exact (a b : Array ℚ) (m k n : Nat) (hk : 0 < k) :
    Matrix.mulHostData a b m k k n = exactProduct a b m k n := by
  unfold Matrix.mulHostData exactProduct
  split
  · refine ofFn_congr fun i _ j _ => ?_
    -- the blocks, the first one and `N` more, cover the inner dimension
    obtain ⟨N, hN⟩ : ∃ N, (k + Matrix.innerBlock - 1) / Matrix.innerBlock = N + 1 :=
      ⟨(k + Matrix.innerBlock - 1) / Matrix.innerBlock - 1, by unfold Matrix.innerBlock; omega⟩
    have hcover : min ((N + 1) * Matrix.innerBlock) k = k := by
      rw [← hN]
      unfold Matrix.innerBlock
      omega
    have htotal := sum_blocks (fun p => entry a m i p * entry b k p j) k (N + 1)
    rw [hcover, Finset.sum_range_succ'] at htotal
    simp only [Nat.zero_mul, Nat.sub_zero, Nat.zero_add] at htotal
    dsimp only
    rw [hN, Nat.add_sub_cancel, foldl_range_add]
    simp only [blockSum_exact, Nat.sub_zero, Nat.zero_add]
    rw [← htotal, add_comm]
  · refine ofFn_congr fun i _ j _ => ?_
    -- the first term starts the sum
    obtain ⟨k', rfl⟩ : ∃ k', k = k' + 1 := ⟨k - 1, by omega⟩
    rw [Nat.add_sub_cancel, foldl_range_add, Finset.sum_range_succ', add_comm]

end OffloadAlgebra
