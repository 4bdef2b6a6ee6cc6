import Mathlib.Order.Bounds.Basic
import OffloadAlgebra.Proofs.Dispatch.DevicePath
/-!
  Rounding launch extents up to whole tiles.

  `roundUp n m` rounds `n` up to a multiple of `m ≥ 1`: it lies in `[n, n + m)`, and every
  multiple of `m` from `n` on is at least it, so it is the least such multiple
  (`isLeast_roundUp`).  On machine words the rounded-up quotient is always a word, but its
  product with `m` need not be: `roundUpWord` answers the least multiple exactly when that
  multiple is a word, and panics on the multiplication otherwise (`roundUpWord_eq`).  Nothing
  overflows while `n + m` is at most `2 ^ 64`, and `n = 2 ^ 64 - 1, m = 2`, whose least
  multiple is `2 ^ 64`, panics (`roundUpWord_top_panics`).

  The product kernel runs over the result's rows and columns rounded up to square tiles of a
  positive side; that range always passes validation (`roundUp_tiles_contract`).
-/

namespace OffloadAlgebra

section RoundUp

variable {n m : Nat}

theorem roundUp_of_pos (n : Nat) (hm : 0 < m) : roundUp n m = (n + m - 1) / m * m := by
  rw [roundUp, if_neg (Nat.ne_of_gt hm)]

theorem le_roundUp (n : Nat) (hm : 0 < m) : n ≤ roundUp n m := by
  have hlt := Nat.lt_div_mul_add (a := n + m - 1) hm
  rw [roundUp_of_pos n hm]
  omega

theorem roundUp_lt_add (n : Nat) (hm : 0 < m) : roundUp n m < n + m := by
  have hle := Nat.div_mul_le_self (n + m - 1) m
  rw [roundUp_of_pos n hm]
  omega

theorem dvd_roundUp (n : Nat) (hm : 0 < m) : m ∣ roundUp n m := by
  rw [roundUp_of_pos n hm]
  exact Nat.dvd_mul_left m _

/-- No multiple of `m` from `n` on lies below `roundUp n m`. -/
theorem roundUp_le_of_dvd {k : Nat} (hm : 0 < m) (hk : m ∣ k) (hnk : n ≤ k) : roundUp n m ≤ k := by
  obtain ⟨j, rfl⟩ := hk
  rw [Nat.mul_comm m j] at hnk ⊢
  rw [roundUp_of_pos n hm]
  -- the rounded-up quotient is at most `j`, since `n + m - 1 < (j + 1) * m`
  have hq : (n + m - 1) / m < j + 1 := by
    rw [Nat.div_lt_iff_lt_mul hm, Nat.succ_mul]
    omega
  exact Nat.mul_le_mul_right m (Nat.lt_succ_iff.mp hq)

/-- `roundUp n m` is the least multiple of `m` that is at least `n`. -/
theorem isLeast_roundUp (n : Nat) (hm : 0 < m) : IsLeast {k | m ∣ k ∧ n ≤ k} (roundUp n m) :=
  ⟨⟨dvd_roundUp n hm, le_roundUp n hm⟩, fun _ hk => roundUp_le_of_dvd hm hk.1 hk.2⟩

/-- On words, rounding up answers the least multiple when it is a word and panics on the
    multiplication when it is not. -/
theorem roundUpWord_eq (n : Nat) (hm : 0 < m) :
    roundUpWord n m =
      if roundUp n m < Word.modulus then .ok (roundUp n m) else .error Word.mulOverflow := by
  rw [roundUpWord, if_neg (Nat.ne_of_gt hm), roundUp_of_pos n hm, Word.mul]

theorem roundUpWord_of_le (hm : 0 < m) (h : n + m ≤ Word.modulus) :
    roundUpWord n m = .ok (roundUp n m) := by
  have hlt := roundUp_lt_add n hm
  rw [roundUpWord_eq n hm, if_pos (by omega)]

theorem roundUpWord_zero (n : Nat) : roundUpWord n 0 = .ok n := rfl

end RoundUp

/-- Rounding up on words and over the product's tiles.  Rounding up to multiples of `0` keeps
    `n`.  For `m ≥ 1`, `roundUp n m` is the least multiple of `m` that is at least `n`;
    `roundUpWord` answers it exactly when it is a word (below `2 ^ 64`) and panics on the
    multiplication otherwise, so it answers it whenever `n + m ≤ 2 ^ 64`.  Rows and columns of a
    non-empty product rounded up to square tiles of side `m` make a range that passes
    validation: both extents are positive multiples of `m`. -/
theorem roundUp_tiles_contract (n m : Nat) :
    (m = 0 → roundUpWord n m = .ok n) ∧
    (0 < m →
      IsLeast {k | m ∣ k ∧ n ≤ k} (roundUp n m) ∧
      roundUpWord n m =
        (if roundUp n m < Word.modulus then .ok (roundUp n m) else .error Word.mulOverflow) ∧
      (n + m ≤ Word.modulus → roundUpWord n m = .ok (roundUp n m)) ∧
      ∀ rows cols (function : String), 0 < rows → 0 < cols →
        NdRange.validate ⟨⟨[roundUp rows m, roundUp cols m]⟩, some ⟨[m, m]⟩⟩ function = .ok ()) := by
  refine ⟨fun hm => hm ▸ roundUpWord_zero n,
    fun hm => ⟨isLeast_roundUp n hm, roundUpWord_eq n hm, roundUpWord_of_le hm, ?_⟩⟩
  intro rows cols function hr hc
  exact Context.validate_tiles hr hc hm function

/-- The largest word rounded up to an even number: its least even multiple is `2 ^ 64`, and the
    multiplication panics, while tiles of side 2 over a 3 × 5 result still make a valid range. -/
theorem roundUp_top_word :
    roundUpWord (Word.modulus - 1) 2 = .error Word.mulOverflow ∧
    NdRange.validate ⟨⟨[roundUp 3 2, roundUp 5 2]⟩, some ⟨[2, 2]⟩⟩ "multiply" = .ok () := by
  obtain ⟨-, hpos⟩ := roundUp_tiles_contract (Word.modulus - 1) 2
  obtain ⟨-, hword, -, htiles⟩ := hpos (by decide)
  refine ⟨?_, htiles 3 5 "multiply" (by decide) (by decide)⟩
  rw [hword, if_neg (by decide)]

/-- The claim that rounding up always answers the least multiple fails at the largest word and
    `m = 2`: the multiplication panics. -/
theorem roundUpWord_top_panics : roundUpWord (Word.modulus - 1) 2 = .error Word.mulOverflow := by
  decide

end OffloadAlgebra
