import OffloadAlgebra.Decimal.Shortest
/-!
  Writing a double with a fixed number of decimal places.

  The exact binary value is rounded to the nearest multiple of `10^-places`; a value exactly
  half-way goes to the even neighbour.  A negative value keeps its sign even when it rounds to
  zero, and so does negative zero.  Infinities and not-a-number are written `inf`, `-inf` and
  `NaN`.
-/

namespace OffloadAlgebra.Decimal

/-- The quotient `num / den` rounded to the nearest integer, a half going to the even one. -/
def roundHalfEven (num den : Nat) : Nat :=
  let q := num / den
  let r := num % den
  if 2 * r > den ∨ (2 * r = den ∧ q % 2 = 1) then q + 1 else q

/-- A natural number written with `places` decimals: `n / 10^places`. -/
def withPoint (n places : Nat) : String :=
  if places = 0 then toString n
  else
    let int := n / Nat.pow 10 places
    let frac := toString (n % Nat.pow 10 places)
    toString int ++ "." ++ String.ofList (List.replicate (places - frac.length) '0') ++ frac

/-- A double written with `places` decimals, rounded half to even. -/
def fixed (x : Float) (places : Nat) : String :=
  match decode x with
  | .nan => "NaN"
  | .infinite neg => if neg then "-inf" else "inf"
  | .finite neg mant exp =>
    let (bn, bd) := pow2Parts exp
    let n := roundHalfEven (mant * bn * Nat.pow 10 places) bd
    (if neg then "-" else "") ++ withPoint n places

end OffloadAlgebra.Decimal
