/-!
  Doubles as exact binary numbers, and the fused multiply-add.

  A finite double is `± m * 2^e` with `m` below `2^53` and `e` at least `-1074`; its bits give
  both at once (`Binary.parts`).  The fused multiply-add of three finite doubles takes the exact
  value of `a * b + c`, an integer times a power of two, and rounds it once to the nearest
  double (`roundScaled`, by shifting off the bits below the last kept one), where the plain
  `a * b + c` rounds twice.  When the product is an exact zero the sum is the plain one, which
  then rounds only once; when the addend is zero the result is the rounded product.  An exact
  cancellation gives `+0`.  With an infinite or NaN operand there is nothing to round, and the
  fused and the plain forms agree.

  A word converted to a double and back is a natural number again, and so is the truncated
  square root of such a double: both are computed here on natural numbers (`roundNat`,
  `truncSqrt`), rounding to nearest, ties to even.
-/

namespace OffloadAlgebra.Binary

/-- A finite double as its sign (`true` for negative), significand and exponent: the value is
    `± significand * 2^exponent`. -/
def parts (x : Float) : Bool × Nat × Int :=
  let bits : Nat := x.toBits.toNat
  let field : Nat := bits / Nat.pow 2 52 % Nat.pow 2 11
  let fraction : Nat := bits % Nat.pow 2 52
  let negative := decide (Nat.pow 2 63 ≤ bits)
  if field = 0 then (negative, fraction, -1074) else (negative, fraction + Nat.pow 2 52, (field : Int) - 1075)

/-- The double nearest to `m * 2^e` for a positive `m`, ties to even; infinity past the
    largest double.  The last kept bit has the exponent `q`, 53 bits below the top of `m` but
    not below `-1074`; the bits of `m` under it are dropped and decide the rounding. -/
def roundScaled (m : Nat) (e : Int) : Float :=
  let q := max (e + ((m.log2 + 1 : Nat) : Int) - 53) (-1074)
  let (t, q) :=
    if q ≤ e then (m <<< (e - q).toNat, q)
    else
      let drop := (q - e).toNat
      let kept := m >>> drop
      let rest := m &&& ((1 <<< drop) - 1)
      let half := 1 <<< (drop - 1)
      let t := if half < rest ∨ (rest = half ∧ kept % 2 = 1) then kept + 1 else kept
      if t = Nat.pow 2 53 then (Nat.pow 2 52, q + 1) else (t, q)
  if q > 971 then 1 / 0 else Float.scaleB t.toUInt64.toFloat q

/-- The rounding error of a sum: `a + b` is exactly `(a + b) + sumError a b` whenever the
    rounded sum is finite. -/
def sumError (a b : Float) : Float :=
  let s := a + b
  let bb := s - a
  (a - (s - bb)) + (b - bb)

/-- A double as the sum of two halves of at most 26 significant bits each, for a magnitude
    below `2 ^ 995`. -/
def split (x : Float) : Float × Float :=
  let c := 134217729.0 * x
  let hi := c - (c - x)
  (hi, x - hi)

/-- The rounding error of a product: `a * b` is exactly `(a * b) + productError a b` when the
    halves of `a` and `b` exist and the product stays in the normal range. -/
def productError (a b : Float) : Float :=
  let (ah, al) := split a
  let (bh, bl) := split b
  (((ah * bh - a * b) + ah * bl) + al * bh) + al * bl

/-- The unit in the last place of a normal double. -/
def ulp (x : Float) : Float := Float.scaleB 1 (parts x).2.2

/-- The fused multiply-add from error-free steps in double arithmetic, where they are exact.
    With `p = a * b` and `s = p + c`, the exact value is `s + t + e` for the errors `t` of the
    sum and `e` of the product; `u = t + e` with error `w`, and `r = s + u` with error `err`,
    so the value is `r + err + w`.  While `u` stays within one unit of `s`, `err` is a
    multiple of the last unit of `u` and `w` at most half of it, so `r` is the rounded value
    unless `err` lies exactly half way to a neighbour of `r` and `w` points the same way; then
    that neighbour, `r + 2 * err`, is.  Nothing when an operand or a partial result is out of
    the range where these steps are exact, or when cancellation lets `u` outgrow `s`. -/
def fusedFast? (a b c : Float) : Option Float :=
  let p := a * b
  let s := p + c
  let inside (x lo hi : Float) := lo ≤ x.abs ∧ x.abs ≤ hi
  if inside a 0 (Float.scaleB 1 995) ∧ inside b 0 (Float.scaleB 1 995) ∧
      inside p (Float.scaleB 1 (-960)) (Float.scaleB 1 1000) ∧ inside c 0 (Float.scaleB 1 1000) ∧
      inside s (Float.scaleB 1 (-960)) (Float.scaleB 1 1000) then
    let e := productError a b
    let t := sumError p c
    let u := t + e
    let w := sumError t e
    if (ulp s) < u.abs then none
    else
      let r := s + u
      let err := sumError s u
      if err == 0 ∨ w == 0 then some r
      else
        let up := (0 < err) == (0 < r)
        let gap := if !up ∧ (parts r).2.1 = Nat.pow 2 52 then ulp r / 2 else ulp r
        if err.abs * 2 == gap ∧ (0 < w) == (0 < err) then some (r + 2 * err) else some r
  else none

/-- `a * b + c` rounded once to the nearest double, ties to even, by exact integer
    arithmetic. -/
def fusedMulAddExact (a b c : Float) : Float :=
  if a.isFinite && b.isFinite && c.isFinite then
    let (na, ma, ea) := parts a
    let (nb, mb, eb) := parts b
    let (nc, mc, ec) := parts c
    let mp := ma * mb
    -- an exact zero product leaves `c`, and a zero addend leaves the product rounded once
    if mp = 0 then a * b + c
    else if mc = 0 then a * b
    else
      let np := na != nb
      let ep := ea + eb
      let base := min ep ec
      let xp := mp <<< (ep - base).toNat
      let xc := mc <<< (ec - base).toNat
      let (negative, m) :=
        if np == nc then (np, xp + xc)
        else if xc ≤ xp then (np, xp - xc) else (nc, xc - xp)
      if m = 0 then 0.0
      else
        let v := roundScaled m base
        if negative then -v else v
  -- the exact product of two finite factors is finite, so an infinite or undefined addend wins
  else if a.isFinite && b.isFinite then c
  else a * b + c

/-- `a * b + c` rounded once to the nearest double, ties to even: by double arithmetic where
    that is exact, and by integer arithmetic otherwise. -/
def fusedMulAdd (a b c : Float) : Float :=
  match fusedFast? a b c with
  | some r => r
  | none => fusedMulAddExact a b c

/-- A natural number converted to the nearest double, ties to even, read back as the natural
    number that double stands for.  A number below `2 ^ 53` is kept whole; a longer one keeps
    its top 53 bits, rounded on the `drop` bits below them. -/
def roundNat (n : Nat) : Nat :=
  if n < Nat.pow 2 53 then n
  else
    let drop := n.log2 - 52
    let kept := n / Nat.pow 2 drop
    let rest := n % Nat.pow 2 drop
    let half := Nat.pow 2 (drop - 1)
    (if half < rest ∨ (rest = half ∧ kept % 2 = 1) then kept + 1 else kept) * Nat.pow 2 drop

/-- The square root of a double that holds a natural number `x` below `2 ^ 106`, rounded to
    the nearest double and truncated toward zero.  The root lies in `[2 ^ e, 2 ^ (e + 1))` for
    `e = log2 x / 2`, where doubles are `2 ^ (e - 52)` apart: scaled by `2 ^ (52 - e)` they are
    the integers, and the scaled root is the root of the integer `x * 4 ^ (52 - e)`, which is
    never halfway between two integers. -/
def truncSqrt (x : Nat) : Nat :=
  let shift := 52 - x.log2 / 2
  let scaled := x * Nat.pow 4 shift
  let r := Nat.sqrt scaled
  (if r * r + r < scaled then r + 1 else r) / Nat.pow 2 shift

end OffloadAlgebra.Binary
