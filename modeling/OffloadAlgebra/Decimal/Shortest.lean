/-!
  The shortest decimal that reads back as a given double.

  A finite double is `m * 2^e` with `m < 2^53`.  The reals that round to it form an interval
  around it, whose ends belong to it exactly when `m` is even.  `shortest` looks for the fewest
  significant digits: at a precision of `n` digits it takes the decimal grid of that precision
  and tests the two grid points next to the value, in exact natural-number arithmetic.  The
  least precision with a point inside the interval wins; of two points inside, the nearer one,
  and of two equally near, the one with an even last digit.
-/

namespace OffloadAlgebra.Decimal

/-- A decimal number `digits * 10^exp`. -/
structure Scientific where
  digits : Nat
  exp : Int
  deriving DecidableEq, Repr, Inhabited

/-- What a double is: a signed finite value `mant * 2^exp`, an infinity, or not a number. -/
inductive BinaryValue where
  | finite (negative : Bool) (mant : Nat) (exp : Int)
  | infinite (negative : Bool)
  | nan
  deriving DecidableEq, Repr, Inhabited

/-- Decode a double from its bit pattern. -/
def decode (x : Float) : BinaryValue :=
  let bits := x.toBits.toNat
  let negative := bits / Nat.pow 2 63 % 2 = 1
  let biased : Nat := bits / Nat.pow 2 52 % Nat.pow 2 11
  let frac : Nat := bits % Nat.pow 2 52
  if biased = Nat.pow 2 11 - 1 then
    if frac = 0 then .infinite negative else .nan
  else if biased = 0 then .finite negative frac (-1074)
  else .finite negative (frac + Nat.pow 2 52) ((biased : Int) - 1075)

/-- Number of decimal digits of a positive number. -/
def digitCount (n : Nat) : Nat := (Nat.toDigits 10 n).length

/-- `10^k` for an integer `k`, as a numerator and a denominator. -/
def pow10Parts (k : Int) : Nat × Nat :=
  if 0 ≤ k then (Nat.pow 10 k.toNat, 1) else (1, Nat.pow 10 (-k).toNat)

/-- `2^s` for an integer `s`, as a numerator and a denominator. -/
def pow2Parts (s : Int) : Nat × Nat :=
  if 0 ≤ s then (Nat.pow 2 s.toNat, 1) else (1, Nat.pow 2 (-s).toNat)

/-- Compare `c * 10^k` with `x * 2^s` exactly. -/
def compareScaled (c : Nat) (k : Int) (x : Nat) (s : Int) : Ordering :=
  let (tn, td) := pow10Parts k
  let (bn, bd) := pow2Parts s
  compare (c * tn * bd) (x * bn * td)

/-- Whether `10^k ≤ num / den`, exactly. -/
def pow10Le (k : Int) (num den : Nat) : Bool :=
  let (tn, td) := pow10Parts k
  tn * den ≤ num * td

/-- The exponent of the leading decimal digit of `num / den`, for positive `num` and `den`:
    the `e` with `10^e ≤ num / den < 10^(e+1)`.  The ratio lies between `2^(b-1)` and `2^(b+1)`
    for `b` the difference of the binary lengths, so the search starts just below
    `(b - 2) * log10 2` and climbs at most a few steps. -/
def leadingExp (num den : Nat) : Int :=
  let b : Int := (num.log2 : Int) - (den.log2 : Int)
  let rec climb (e : Int) : Nat → Int
    | 0 => e
    | fuel + 1 => if pow10Le (e + 1) num den then climb (e + 1) fuel else e
  climb ((b - 2) * 30103 / 100000 - 1) 8

/-- Drop trailing zero digits, raising the exponent to match. -/
def Scientific.trim (d : Scientific) : Scientific :=
  let rec go (digits : Nat) (exp : Int) (fuel : Nat) : Scientific :=
    match fuel with
    | 0 => ⟨digits, exp⟩
    | fuel + 1 =>
      if digits ≠ 0 ∧ digits % 10 = 0 then go (digits / 10) (exp + 1) fuel else ⟨digits, exp⟩
  go d.digits d.exp (digitCount d.digits)

/-- The interval of reals that round to `mant * 2^exp`, scaled by `2^(exp - 2)`: its low end,
    the value and its high end, and whether the ends belong to it. -/
def roundingInterval (mant : Nat) (exp : Int) : Nat × Nat × Nat × Bool :=
  let lowerCloser := mant = Nat.pow 2 52 ∧ exp > -1074
  let lo := if lowerCloser then 4 * mant - 1 else 4 * mant - 2
  (lo, 4 * mant, 4 * mant + 2, mant % 2 = 0)

/-- Whether `c * 10^k` lies in the rounding interval of `mant * 2^exp`. -/
def inInterval (mant : Nat) (exp : Int) (c : Nat) (k : Int) : Bool :=
  let (lo, _, hi, closed) := roundingInterval mant exp
  let s := exp - 2
  let aboveLo := match compareScaled c k lo s with
    | .gt => true
    | .eq => closed
    | .lt => false
  let belowHi := match compareScaled c k hi s with
    | .lt => true
    | .eq => closed
    | .gt => false
  aboveLo && belowHi

/-- The grid point chosen at precision `n` (significant digits), if one lies in the interval;
    `e` is the exponent of the value's leading digit. -/
def atPrecision (mant : Nat) (exp : Int) (e : Int) (n : Nat) : Option Scientific :=
  let s := exp - 2
  let (vn, vd) := pow2Parts s
  let v := 4 * mant * vn
  let k := e - n + 1
  let (tn, td) := pow10Parts k
  -- c * 10^k ≤ value < (c + 1) * 10^k
  let c := v * td / (vd * tn)
  let loIn := inInterval mant exp c k
  let hiIn := inInterval mant exp (c + 1) k
  if loIn && hiIn then
    -- compare twice the value with (2c + 1) * 10^k
    match compareScaled (2 * c + 1) k (8 * mant) s with
    | .gt => some ⟨c, k⟩
    | .lt => some ⟨c + 1, k⟩
    | .eq => if c % 2 = 0 then some ⟨c, k⟩ else some ⟨c + 1, k⟩
  else if loIn then some ⟨c, k⟩
  else if hiIn then some ⟨c + 1, k⟩
  else none

/-- The least `n` from `lo` to `hi` with `ok n`, for a test `ok` that holds at `hi` and, once it
    holds, at every greater `n`; each step halves the range. -/
def leastWith (ok : Nat → Bool) (lo hi : Nat) : Nat :=
  if lo < hi then
    let mid := (lo + hi) / 2
    if ok mid then leastWith ok lo mid else leastWith ok (mid + 1) hi
  else hi
termination_by hi - lo

/-- The shortest decimal that rounds to the positive value `mant * 2^exp`, nearest of the
    shortest, ties to even, with no trailing zero digit.  Seventeen digits always suffice, and a
    grid point in the interval stays a grid point at every finer precision, so the fewest digits
    are found by halving. -/
def shortest (mant : Nat) (exp : Int) : Scientific :=
  let (vn, vd) := pow2Parts exp
  let e := leadingExp (mant * vn) vd
  let n := leastWith (fun n => (atPrecision mant exp e n).isSome) 1 17
  ((atPrecision mant exp e n).getD ⟨mant, 0⟩).trim

end OffloadAlgebra.Decimal
