import Mathlib
import OffloadAlgebra.Proofs.Exact.Triangular
/-!
  What the operations need of the host library.

  The host paths call a dense linear-algebra library, taken as a parameter `HostAlgebra`.  Their
  contracts assume of it only what such a library promises (`HostAlgebra.Lawful`): the product
  allocates its result first and answers exactly when that allocation succeeds; a solve refuses
  only a triangle with a zero on its diagonal; and in exact arithmetic whatever the product
  answers is the matrix product, and whatever a solve against a triangle with no zero on its
  diagonal answers is `T⁻¹ * b`.

  The algebra the operations are run with, `HostAlgebra.blocked`, has these laws
  (`HostAlgebra.blocked_lawful`): its blocked sums and its substitution are exact in exact
  arithmetic (`mulHostData_exact`, `solveTriangularData_exact`).
-/

namespace OffloadAlgebra

open ColumnMajor

/-- What the contracts of the host paths assume of the host library. -/
structure HostAlgebra.Lawful (host : HostAlgebra) : Prop where
  /-- A product of doubles allocates its `m × n` result first: it answers exactly when that
      buffer can be reserved. -/
  mul_ok_iff : ∀ (a b : Array Float) (m k k' n : Nat),
    (∃ d, host.mul a b m k k' n = .ok d) ↔ Word.reserve (m * n) = .ok ()
  /-- A solve refuses only a triangle with a zero on its diagonal. -/
  solve_isSome : ∀ {α : Type} [Scalar α] (a : Array α) (n : Nat) (b : Array α) (rows cols : Nat) (lower : Bool),
    (∀ i < n, Scalar.isZero (entry a n i i) = false) → (host.solve a n b rows cols lower).isSome
  /-- In exact arithmetic, a product with at least one term per entry answers the matrix
      product. -/
  mul_exact : ∀ (a b : Array ℚ) (m k n : Nat) (d : Array ℚ), 0 < k → host.mul a b m k k n = .ok d →
    d = exactProduct a b m k n
  /-- In exact arithmetic, a solve against a triangle with no zero on its diagonal answers
      `T⁻¹ * b`. -/
  solve_exact : ∀ (a b : Array ℚ) (n m : Nat) (lower : Bool) (x : Array ℚ), (∀ i < n, entry a n i i ≠ 0) →
    host.solve a n b n m lower = some x → x = ofMatrix ((triangle lower a n)⁻¹ * toMatrix b n m)

namespace HostAlgebra

variable {α : Type} [Scalar α]

/-! ## The algebra the operations are run with -/

theorem blocked_mul_of_reserve {m n : Nat} (h : Word.reserve (m * n) = .ok ()) (a b : Array α) (k k' : Nat) :
    blocked.mul a b m k k' n = .ok (Matrix.mulHostData a b m k k' n) := by
  show (Word.mul m n >>= fun c => Word.reserve c >>= fun _ => pure (Matrix.mulHostData a b m k k' n)) = _
  rw [Word.mul_eq_ok (Word.lt_of_reserve h)]
  show (Word.reserve (m * n) >>= fun _ => pure (Matrix.mulHostData a b m k k' n)) = _
  rw [h]
  rfl

/-- The blocked product answers only when its result can be reserved. -/
theorem reserve_of_blocked_mul {a b : Array α} {m k k' n : Nat} {d : Array α}
    (h : blocked.mul a b m k k' n = .ok d) : Word.reserve (m * n) = .ok () := by
  change (Word.mul m n >>= fun c => Word.reserve c >>= fun _ => pure (Matrix.mulHostData a b m k k' n)) = _ at h
  cases hm : Word.mul m n with
  | error p => rw [hm] at h; cases h
  | ok c =>
    obtain ⟨-, rfl⟩ := Word.mul_eq_ok_iff.mp hm
    rw [hm] at h
    change (Word.reserve (m * n) >>= fun _ => pure (Matrix.mulHostData a b m k k' n)) = _ at h
    cases hr : Word.reserve (m * n) with
    | error p => rw [hr] at h; cases h
    | ok u => rfl

theorem singularDiagonal_eq_false {a : Array α} {n : Nat} (hd : ∀ i < n, Scalar.isZero (entry a n i i) = false) :
    Matrix.singularDiagonal a n = false := by
  unfold Matrix.singularDiagonal
  rw [List.any_eq_false]
  intro i hi
  rw [hd i (List.mem_range.mp hi)]
  exact Bool.false_ne_true

theorem blocked_solve {a : Array α} {n : Nat} (hd : ∀ i < n, Scalar.isZero (entry a n i i) = false)
    (b : Array α) (rows cols : Nat) (lower : Bool) :
    blocked.solve a n b rows cols lower = some (Matrix.solveTriangularData a n b rows cols lower) := by
  show (if (cols != 0 && Matrix.singularDiagonal a n) = true then none else some _) = _
  rw [singularDiagonal_eq_false hd, Bool.and_false, if_neg Bool.false_ne_true]

/-- The blocked product and the substitution have the laws the contracts assume. -/
theorem blocked_lawful : blocked.Lawful where
  mul_ok_iff a b m k k' n :=
    ⟨fun hd => hd.elim fun _ h => reserve_of_blocked_mul h, fun h => ⟨_, blocked_mul_of_reserve h a b k k'⟩⟩
  solve_isSome a n b rows cols lower hd := by
    rw [blocked_solve hd]
    rfl
  mul_exact a b m k n d hk h := by
    rw [blocked_mul_of_reserve (reserve_of_blocked_mul h), Except.ok.injEq] at h
    rw [← h]
    exact mulHostData_exact a b m k n hk
  solve_exact a b n m lower x hd h := by
    -- in exact arithmetic a diagonal entry is zero exactly when it equals zero
    have hz : ∀ i < n, Scalar.isZero (entry a n i i) = false := fun i hi =>
      Bool.eq_false_iff.mpr fun h0 => hd i hi (Scalar.eq_zero_of_isZero h0)
    rw [blocked_solve hz, Option.some.injEq] at h
    rw [← h]
    exact solveTriangularData_exact lower hd b m

end HostAlgebra

end OffloadAlgebra
