import OffloadAlgebra.Error
/-!
  Shape checks on matrix operands.

  Each check names the operation (`function`) and the operands, so that a refused call says
  which operand was wrong.  Size mismatches are shape errors; a non-vector where a vector is
  needed is an invalid argument.
-/

namespace OffloadAlgebra

/-- Rows and columns of a matrix. -/
structure Shape where
  rows : Nat
  cols : Nat
  deriving DecidableEq, Repr, Inhabited

namespace Shape

/-- Two sizes must be equal. -/
def checkSizeMatch (function nameI : String) (i : Nat) (nameJ : String) (j : Nat) :
    Except Error Unit :=
  if i = j then .ok ()
  else .error (.shapeMismatch function (nameI ++ " (" ++ toString i ++ ") and " ++ nameJ ++
    " (" ++ toString j ++ ") must match in size"))

/-- The columns of the first operand must equal the rows of the second. -/
def checkMultiplicable (function name1 : String) (s1 : Shape) (name2 : String) (s2 : Shape) :
    Except Error Unit :=
  checkSizeMatch function ("Columns of " ++ name1) s1.cols ("Rows of " ++ name2) s2.rows

/-- The operand must be square. -/
def checkSquare (function name : String) (s : Shape) : Except Error Unit :=
  if s.rows = s.cols then .ok ()
  else .error (.shapeMismatch function ("Expecting a square matrix; rows of " ++ name ++ " (" ++
    toString s.rows ++ ") and columns of " ++ name ++ " (" ++ toString s.cols ++
    ") must match in size"))

/-- The operand must have one row or one column. -/
def checkVector (function name : String) (s : Shape) : Except Error Unit :=
  if s.rows = 1 ∨ s.cols = 1 then .ok ()
  else .error (.invalidArgument function (name ++ " has " ++ toString s.rows ++ " rows and " ++
    toString s.cols ++
    " columns but it should be a vector so it should either have 1 row or 1 column"))

theorem checkSquare_ok_iff (f n : String) (s : Shape) :
    checkSquare f n s = .ok () ↔ s.rows = s.cols := by
  unfold checkSquare; split <;> simp_all

end Shape

end OffloadAlgebra
