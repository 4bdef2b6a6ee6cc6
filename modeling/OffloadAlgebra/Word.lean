/-!
  Machine words and panics.

  Sizes, extents and counters are 64-bit machine words.  Where the library adds or multiplies
  them with overflow checks, a result that leaves the word range does not wrap: the whole
  request stops with a panic that names the operation.  A panic is not an `Error`: nothing
  handles it, so an operation that may panic answers `Except Panic α` around whatever it would
  answer otherwise.

  `Word.add` and `Word.mul` compute on `Nat` and panic exactly when the exact result reaches
  `2 ^ 64` (`mul_eq_ok`, `mul_eq_error`), so an overflow fact is a plain inequality.  A buffer
  of doubles is limited by its byte count instead (`Word.reserve`).
-/

namespace OffloadAlgebra

/-- A request abandoned with a message. -/
structure Panic where
  message : String
  deriving DecidableEq, Repr, Inhabited

namespace Word

/-- The number of 64-bit machine words. -/
def modulus : Nat := Nat.pow 2 64

/-- The panic of a sum that leaves the word range. -/
def addOverflow : Panic := ⟨"attempt to add with overflow"⟩

/-- The panic of a product that leaves the word range. -/
def mulOverflow : Panic := ⟨"attempt to multiply with overflow"⟩

/-- The panic of a buffer whose size in bytes passes the largest signed word. -/
def capacityOverflow : Panic := ⟨"capacity overflow"⟩

/-- Reserving a buffer of `n` eight-byte elements: its bytes may not pass the largest signed
    word less the alignment slack of seven, so `n` must stay below `2 ^ 60`. -/
def reserve (n : Nat) : Except Panic Unit :=
  if 8 * n ≤ Nat.pow 2 63 - 8 then .ok () else .error capacityOverflow

/-- The sum of two words, or a panic when it is not a word. -/
def add (a b : Nat) : Except Panic Nat :=
  if a + b < modulus then .ok (a + b) else .error addOverflow

/-- The product of two words, or a panic when it is not a word. -/
def mul (a b : Nat) : Except Panic Nat :=
  if a * b < modulus then .ok (a * b) else .error mulOverflow

/-- The product of a list of words, multiplied from the left starting at 1; it panics at the
    first partial product that is not a word, even when a later factor is zero. -/
def product (xs : List Nat) : Except Panic Nat := xs.foldlM mul 1

/-- A buffer that can be reserved has fewer elements than a machine word counts. -/
theorem lt_of_reserve {n : Nat} (h : reserve n = .ok ()) : n < Nat.pow 2 64 := by
  unfold reserve at h
  split at h
  · rename_i hle
    have h63 : Nat.pow 2 63 = 9223372036854775808 := rfl
    have h64 : Nat.pow 2 64 = 18446744073709551616 := rfl
    omega
  · cases h

theorem mul_eq_ok {a b : Nat} (h : a * b < modulus) : mul a b = .ok (a * b) := by
  simp [mul, h]

theorem mul_eq_error {a b : Nat} (h : modulus ≤ a * b) : mul a b = .error mulOverflow := by
  simp [mul, Nat.not_lt.mpr h]

theorem add_eq_ok {a b : Nat} (h : a + b < modulus) : add a b = .ok (a + b) := by
  simp [add, h]

theorem add_eq_error {a b : Nat} (h : modulus ≤ a + b) : add a b = .error addOverflow := by
  simp [add, Nat.not_lt.mpr h]

theorem mul_eq_ok_iff {a b c : Nat} : mul a b = .ok c ↔ a * b < modulus ∧ a * b = c := by
  unfold mul
  split <;> simp [*]

theorem mul_eq_error_iff {a b : Nat} {p : Panic} : mul a b = .error p ↔ modulus ≤ a * b ∧ p = mulOverflow := by
  unfold mul
  split
  · rename_i hlt
    simp only [reduceCtorEq, false_iff, not_and]
    exact fun hle => absurd hlt (Nat.not_lt.mpr hle)
  · simp [Nat.le_of_not_lt ‹_›, eq_comm]

theorem add_eq_ok_iff {a b c : Nat} : add a b = .ok c ↔ a + b < modulus ∧ a + b = c := by
  unfold add
  split <;> simp [*]

end Word

end OffloadAlgebra
