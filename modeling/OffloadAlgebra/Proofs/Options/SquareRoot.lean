import Mathlib
import OffloadAlgebra.Device.Context
/-!
  The square root of a machine word.

  A context fits its thread block to the floor of the square root of the work-group limit.  The
  device code starts from a double estimate and corrects it with two loops whose squares are
  taken on machine words.  Stepping down from a start whose square is a word ends at the start or
  at the floor root, whichever is smaller (`isqrtDescend_eq`).  Stepping up from there ends at
  the floor root, unless the square that would stop it, `(⌊√n⌋ + 1) ^ 2`, is not a word
  (`isqrtAscend_eq`); it is a word exactly when `n < (2 ^ 32 - 1) ^ 2`.

  The estimate is never more than one past the floor root of the double nearest `n`
  (`Binary.truncSqrt_le`), and rounding to a double never passes a multiple of the spacing of
  doubles above it (`Binary.roundNat_le_of_dvd`).  So below `(2 ^ 32 - 1) ^ 2` the estimate is
  at most `2 ^ 32 - 1`, whose square is a word (`isqrtEstimate_mul_self_lt`).  The root is
  therefore the floor root below `(2 ^ 32 - 1) ^ 2`, and from there on a multiplication panics,
  wherever the estimate lands (`isqrtWord_eq`, `isqrtWord_exact`).  A configuration may set any
  positive work-group limit, and the largest make a context panic (`isqrtWord_top_word_panics`).
-/

namespace OffloadAlgebra

/-! ## The double estimate -/

namespace Binary

/-- Rounding to a double never passes a number above it that is a multiple of the spacing of
    doubles there. -/
theorem roundNat_le_of_dvd {n m : Nat} (hnm : n ≤ m) (hdvd : 2 ^ (n.log2 - 52) ∣ m) :
    roundNat n ≤ m := by
  unfold roundNat
  split
  · exact hnm
  · obtain ⟨c, rfl⟩ := hdvd
    simp only [Nat.pow_eq]
    set d := 2 ^ (n.log2 - 52)
    have hsplit : d * (n / d) + n % d = n := Nat.div_add_mod n d
    have hhalf : 0 < 2 ^ (n.log2 - 52 - 1) := Nat.two_pow_pos _
    rcases Nat.lt_or_ge (n / d) c with hlt | hge
    · -- fewer whole spacings than `m` has: rounded up or not, at most `m`
      rw [Nat.mul_comm d c]
      apply Nat.mul_le_mul_right
      split <;> omega
    · -- as many as `m` has: then `n = m`, no bit is dropped, and nothing rounds up
      have hle : d * c ≤ d * (n / d) := Nat.mul_le_mul_left d hge
      have hs : n % d = 0 := by omega
      rw [if_neg (by omega), Nat.mul_comm]
      omega

/-- The truncated root of a double is at most one past its floor root. -/
theorem truncSqrt_le (x : Nat) : truncSqrt x ≤ Nat.sqrt x + 1 := by
  unfold truncSqrt
  simp only [Nat.pow_eq]
  set s := 52 - x.log2 / 2
  -- the scaled root stays below the floor root's successor scaled alike
  have hroot : Nat.sqrt (x * 4 ^ s) < 2 ^ s * (Nat.sqrt x + 1) := by
    apply Nat.sqrt_lt.mpr
    calc x * 4 ^ s < (Nat.sqrt x + 1) * (Nat.sqrt x + 1) * 4 ^ s :=
          Nat.mul_lt_mul_of_pos_right (Nat.lt_succ_sqrt x) (Nat.pow_pos (by decide))
      _ = 2 ^ s * (Nat.sqrt x + 1) * (2 ^ s * (Nat.sqrt x + 1)) := by
          rw [show (4 : Nat) = 2 * 2 by rfl, Nat.mul_pow]
          ring
  apply Nat.div_le_of_le_mul
  split <;> omega

end Binary

/-- Below `(2 ^ 32 - 1) ^ 2` the double estimate is at most `2 ^ 32 - 1`, so its square is a
    word. -/
theorem isqrtEstimate_mul_self_lt {n : Nat} (hn : n < (2 ^ 32 - 1) ^ 2) :
    isqrtEstimate n * isqrtEstimate n < Word.modulus := by
  have hbound : (2 ^ 32 - 1) ^ 2 = 2 ^ 64 - 2 ^ 33 + 1 := by norm_num
  -- `n` rounds to at most `2 ^ 64 - 2 ^ 33`, a multiple of every spacing of doubles below `2 ^ 64`
  have hlog : n.log2 < 64 := by
    rcases Nat.eq_zero_or_pos n with rfl | hpos
    · simp
    · exact (Nat.log2_lt (Nat.ne_of_gt hpos)).mpr (by omega)
  have hdvd : 2 ^ (n.log2 - 52) ∣ 2 ^ 64 - 2 ^ 33 :=
    (Nat.pow_dvd_pow 2 (by omega : n.log2 - 52 ≤ 33)).trans ⟨2 ^ 31 - 1, by norm_num⟩
  have hx : Binary.roundNat n ≤ 2 ^ 64 - 2 ^ 33 := Binary.roundNat_le_of_dvd (by omega) hdvd
  have hroot : Nat.sqrt (Binary.roundNat n) < 2 ^ 32 - 1 := Nat.sqrt_lt.mpr (by norm_num; omega)
  have hest : isqrtEstimate n ≤ 2 ^ 32 - 1 := (Binary.truncSqrt_le _).trans (by omega)
  calc isqrtEstimate n * isqrtEstimate n ≤ (2 ^ 32 - 1) * (2 ^ 32 - 1) := Nat.mul_self_le_mul_self hest
    _ < Word.modulus := by decide

/-! ## The two corrections -/

theorem modulus_eq_mul_self : Word.modulus = 2 ^ 32 * 2 ^ 32 := by decide

/-- A number whose square is a word is below `2 ^ 32`. -/
theorem lt_of_mul_self_lt_modulus {r : Nat} (h : r * r < Word.modulus) : r < 2 ^ 32 := by
  rw [modulus_eq_mul_self] at h
  exact Nat.mul_self_lt_mul_self_iff.mp h

/-- Stepping down from `r` ends at `r` or at the floor root, whichever is smaller, and panics
    when the square of the start is not a word. -/
theorem isqrtDescend_eq (n r : Nat) :
    isqrtDescend n r =
      if r * r < Word.modulus then .ok (min r (Nat.sqrt n)) else .error Word.mulOverflow := by
  induction r with
  | zero =>
    rw [isqrtDescend, if_pos (by decide), Nat.zero_min]
    rfl
  | succ r ih =>
    by_cases hw : (r + 1) * (r + 1) < Word.modulus
    · have hr : r * r < Word.modulus := lt_of_le_of_lt (Nat.mul_self_le_mul_self (Nat.le_succ r)) hw
      rw [isqrtDescend, Word.mul_eq_ok hw, if_pos hw]
      by_cases hn : n < (r + 1) * (r + 1)
      · -- the root is below `r + 1`: stepping down reaches it
        have hroot : Nat.sqrt n ≤ r := Nat.lt_succ_iff.mp (Nat.sqrt_lt.mpr hn)
        simp only [bind, Except.bind, if_pos hn, ih, if_pos hr]
        rw [Nat.min_eq_right hroot, Nat.min_eq_right (Nat.le_succ_of_le hroot)]
      · -- the square is within `n`: the loop stops at `r + 1`, at most the root
        have hroot : r + 1 ≤ Nat.sqrt n := Nat.le_sqrt.mpr (Nat.le_of_not_lt hn)
        simp only [bind, Except.bind, if_neg hn]
        rw [Nat.min_eq_left hroot]
        rfl
    · rw [isqrtDescend, Word.mul_eq_error (Nat.le_of_not_lt hw), if_neg hw]
      rfl

/-- Stepping up from at most the floor root, from a start whose square is a word, ends at the
    floor root, and panics when the square that would stop it is not a word. -/
theorem isqrtAscend_eq {n r : Nat} (hr : r * r < Word.modulus) (hle : r ≤ Nat.sqrt n) :
    isqrtAscend n r =
      if (Nat.sqrt n + 1) * (Nat.sqrt n + 1) < Word.modulus then .ok (Nat.sqrt n)
      else .error Word.mulOverflow := by
  fun_induction isqrtAscend n r with
  | case1 r p hnext =>
    -- `r` is below `2 ^ 32`, so the increment is a word
    have hw : r + 1 < Word.modulus := by
      have := lt_of_mul_self_lt_modulus hr
      rw [modulus_eq_mul_self]
      omega
    rw [Word.add_eq_ok hw] at hnext
    cases hnext
  | case2 r next hnext p hsquare =>
    -- the square of `r + 1` is not a word, nor then is the larger `(⌊√n⌋ + 1) ^ 2`
    obtain ⟨-, rfl⟩ := Word.add_eq_ok_iff.mp hnext
    obtain ⟨hover, rfl⟩ := Word.mul_eq_error_iff.mp hsquare
    have hmono : (r + 1) * (r + 1) ≤ (Nat.sqrt n + 1) * (Nat.sqrt n + 1) :=
      Nat.mul_self_le_mul_self (Nat.succ_le_succ hle)
    rw [if_neg (by omega)]
  | case3 r next hnext square hsquare hsq ih =>
    -- the square of `r + 1` is within `n`: the loop goes on from `r + 1`, still below the root
    obtain ⟨-, rfl⟩ := Word.add_eq_ok_iff.mp hnext
    obtain ⟨hword, rfl⟩ := Word.mul_eq_ok_iff.mp hsquare
    exact ih hword (Nat.le_sqrt.mpr hsq)
  | case4 r next hnext square hsquare hsq =>
    -- the square of `r + 1` passes `n`: `r` is the root, and the square that stopped it a word
    obtain ⟨-, rfl⟩ := Word.add_eq_ok_iff.mp hnext
    obtain ⟨hword, rfl⟩ := Word.mul_eq_ok_iff.mp hsquare
    have hroot : Nat.sqrt n = r :=
      Nat.le_antisymm (Nat.lt_succ_iff.mp (Nat.sqrt_lt.mpr (Nat.lt_of_not_le hsq))) hle
    rw [hroot, if_pos hword]
    rfl

/-! ## The root -/

/-- The square of the floor root's successor is a word exactly below `(2 ^ 32 - 1) ^ 2`. -/
theorem succ_sqrt_mul_self_lt_modulus_iff (n : Nat) :
    (Nat.sqrt n + 1) * (Nat.sqrt n + 1) < Word.modulus ↔ n < (2 ^ 32 - 1) ^ 2 := by
  rw [modulus_eq_mul_self, Nat.mul_self_lt_mul_self_iff, sq, ← Nat.sqrt_lt]
  omega

/-- The machine-word root is the floor root below `(2 ^ 32 - 1) ^ 2` and a multiplication
    panic from there on. -/
theorem isqrtWord_eq (n : Nat) :
    isqrtWord n = if n < (2 ^ 32 - 1) ^ 2 then .ok (Nat.sqrt n) else .error Word.mulOverflow := by
  unfold isqrtWord
  rw [isqrtDescend_eq]
  by_cases he : isqrtEstimate n * isqrtEstimate n < Word.modulus
  · -- the first correction ends below the root with a square that is a word
    have hr : min (isqrtEstimate n) (Nat.sqrt n) * min (isqrtEstimate n) (Nat.sqrt n) < Word.modulus :=
      lt_of_le_of_lt (Nat.mul_self_le_mul_self (Nat.min_le_left _ _)) he
    simp only [if_pos he, bind, Except.bind]
    rw [isqrtAscend_eq hr (Nat.min_le_right _ _)]
    by_cases hn : n < (2 ^ 32 - 1) ^ 2
    · rw [if_pos ((succ_sqrt_mul_self_lt_modulus_iff n).mpr hn), if_pos hn]
    · rw [if_neg (mt (succ_sqrt_mul_self_lt_modulus_iff n).mp hn), if_neg hn]
  · -- an estimate whose square is not a word comes only from the top of the range
    have hn : ¬ n < (2 ^ 32 - 1) ^ 2 := fun hn => he (isqrtEstimate_mul_self_lt hn)
    rw [if_neg he, if_neg hn]
    rfl

/-- The square root of every natural number `n` below `(2 ^ 32 - 1) ^ 2` ends, with no square
    past a word, at the `r` with `r * r ≤ n < (r + 1) * (r + 1)`; from `(2 ^ 32 - 1) ^ 2` on it
    panics on a multiplication, and it does nothing else. -/
theorem isqrtWord_exact (n : Nat) :
    (∀ r, isqrtWord n = .ok r ↔ n < (2 ^ 32 - 1) ^ 2 ∧ r * r ≤ n ∧ n < (r + 1) * (r + 1)) ∧
    (∀ p, isqrtWord n = .error p ↔ (2 ^ 32 - 1) ^ 2 ≤ n ∧ p = Word.mulOverflow) := by
  rw [isqrtWord_eq]
  by_cases hn : n < (2 ^ 32 - 1) ^ 2
  · refine ⟨fun r => ?_, fun p => ?_⟩
    · rw [if_pos hn, ← Nat.eq_sqrt, Except.ok.injEq, eq_comm]
      exact ⟨fun h => ⟨hn, h⟩, fun h => h.2⟩
    · simp only [if_pos hn, reduceCtorEq, false_iff, not_and]
      omega
  · refine ⟨fun r => ?_, fun p => ?_⟩
    · simp only [if_neg hn, reduceCtorEq, false_iff, not_and]
      exact fun h => absurd h hn
    · rw [if_neg hn, Except.error.injEq, eq_comm]
      exact ⟨fun h => ⟨Nat.le_of_not_lt hn, h⟩, fun h => h.2⟩

/-- A configuration may set the largest word as its work-group limit: it passes its checks, but
    the square root of the limit panics on a multiplication, and so does making a context. -/
theorem isqrtWord_top_word_panics :
    Config.validate { maxWorkGroupSize := Word.modulus - 1 } = .ok () ∧
      isqrtWord (Word.modulus - 1) = .error Word.mulOverflow ∧
      Context.create { maxWorkGroupSize := Word.modulus - 1 } 2 = .error Word.mulOverflow := by
  -- a context has no decidable equality: compare the creation with its context forgotten
  have hcreate : (Context.create { maxWorkGroupSize := Word.modulus - 1 } 2).map (fun _ => ()) =
      .error Word.mulOverflow := by decide +kernel
  refine ⟨by decide +kernel, by decide +kernel, ?_⟩
  cases hc : Context.create { maxWorkGroupSize := Word.modulus - 1 } 2 with
  | error p =>
    rw [hc] at hcreate
    rw [Except.error.inj hcreate]
  | ok r =>
    rw [hc] at hcreate
    cases hcreate

end OffloadAlgebra
