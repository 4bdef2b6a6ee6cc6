import OffloadAlgebra.Decimal.Fixed
/-!
  Reading a decimal number, or any ratio of naturals, as the nearest double.

  The decimal `m * 10^e` is the ratio `num / den` of two natural numbers.  Its double has the
  binary exponent `q` that leaves 53 significant bits in `num / (den * 2^q)`, or fewer when `q`
  would fall below the least exponent `-1074`.  That quotient is rounded to the nearest integer,
  a half going to the even one; a carry to `2^53` halves the integer and raises `q`.  The double
  is then the integer times `2^q`, exactly, or infinity past the largest double.
-/

namespace OffloadAlgebra.Decimal

/-- The least binary exponent of a double's last bit. -/
def leastExponent : Int := -1074

/-- The `e` with `2^e ≤ num / den < 2^(e+1)`, for positive `num` and `den`.  The ratio lies
    between `2^(b-1)` and `2^(b+1)` for `b` the difference of the binary lengths. -/
def binaryExp (num den : Nat) : Int :=
  let b : Int := (num.log2 : Int) - (den.log2 : Int)
  let (pn, pd) := pow2Parts b
  if pn * den ≤ num * pd then b else b - 1

/-- The significand and exponent of the double nearest to `num / den`: the significand is
    below `2^53`, and the value is `significand * 2^exponent`. -/
def nearestBinary (num den : Nat) : Nat × Int :=
  let q := max leastExponent (binaryExp num den - 52)
  let (sn, sd) := pow2Parts (-q)
  let t := roundHalfEven (num * sn) (den * sd)
  if t = Nat.pow 2 53 then (Nat.pow 2 52, q + 1) else (t, q)

/-- The double nearest to `num / den`, ties to even; infinity past the largest double. -/
def ofRatio (num den : Nat) : Float :=
  if num = 0 then 0
  else
    let (t, q) := nearestBinary num den
    if q > 971 then 1 / 0 else Float.scaleB t.toUInt64.toFloat q

/-- The double nearest to `m * 10^e`, ties to even; infinity past the largest double. -/
def ofScientific (m : Nat) (e : Int) : Float :=
  let (tn, td) := pow10Parts e
  ofRatio (m * tn) td

end OffloadAlgebra.Decimal
