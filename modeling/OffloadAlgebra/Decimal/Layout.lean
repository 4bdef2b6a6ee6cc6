import OffloadAlgebra.Decimal.Shortest
/-!
  Writing a shortest decimal positionally or in scientific notation.

  A `Layout` says where positional writing ends and how an exponent looks.  Writing a double
  takes its shortest decimal (`shortest`), whose first digit has weight `10^(point - 1)`:
  between the layout's bounds the digits are written positionally, with `.0` after an integral
  value; outside them as one digit, a point and the other digits (if any), `e`, and the
  exponent `point - 1`.
-/

namespace OffloadAlgebra.Decimal

/-- Where positional writing is used and how exponents are signed. -/
structure Layout where
  /-- Positional writing needs `lowPoint < point`. -/
  lowPoint : Int
  /-- Positional writing needs `point ≤ highPoint`. -/
  highPoint : Int
  /-- Whether a positive exponent carries a `+`. -/
  plusSign : Bool
  deriving DecidableEq, Repr, Inhabited

/-- Digits of a natural number as characters. -/
def digitChars (n : Nat) : List Char := Nat.toDigits 10 n

/-- The text of a positive shortest decimal under a layout. -/
def Layout.writePositive (l : Layout) (d : Scientific) : String :=
  let ds := digitChars d.digits
  let len : Int := ds.length
  let point := d.exp + len
  if l.lowPoint < point ∧ point ≤ l.highPoint then
    if 0 ≤ d.exp then
      String.ofList ds ++ String.ofList (List.replicate d.exp.toNat '0') ++ ".0"
    else if 0 < point then
      String.ofList (ds.take point.toNat) ++ "." ++ String.ofList (ds.drop point.toNat)
    else
      "0." ++ String.ofList (List.replicate (-point).toNat '0') ++ String.ofList ds
  else
    let e := point - 1
    let expText := if e < 0 then "-" ++ toString (-e) else
      (if l.plusSign then "+" else "") ++ toString e
    let mantText := match ds with
      | [c] => c.toString
      | c :: rest => c.toString ++ "." ++ String.ofList rest
      | [] => "0"
    mantText ++ "e" ++ expText

/-- The text of a finite double under a layout; zero is `0.0` or `-0.0`.  Infinities and
    not-a-number have no text here. -/
def Layout.write? (l : Layout) (x : Float) : Option String :=
  match decode x with
  | .finite neg mant exp =>
    let sign := if neg then "-" else ""
    if mant = 0 then some (sign ++ "0.0")
    else some (sign ++ l.writePositive (shortest mant exp))
  | _ => none

/-- The layout of numbers in JSON text: positional for `-5 < point ≤ 16`, `+` on positive
    exponents. -/
def Layout.json : Layout := ⟨-5, 16, true⟩

end OffloadAlgebra.Decimal
