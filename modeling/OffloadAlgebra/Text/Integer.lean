/-!
  Reading a signed 64-bit integer from text.

  The accepted texts are an optional `+` or `-` followed by one or more ASCII digits whose
  value lies in the signed 64-bit range; anything else is refused.
-/

namespace OffloadAlgebra.Text

/-- The value of a non-empty list of ASCII digits, or nothing if some character is not one. -/
def digitsValue? : List Char → Option Nat
  | [] => none
  | cs => if cs.all Char.isDigit then
      some (cs.foldl (fun acc c => acc * 10 + (c.toNat - '0'.toNat)) 0)
    else none

/-- The signed 64-bit integer a text spells, if it spells one. -/
def readInt64? (s : String) : Option Int :=
  let inRange (v : Int) : Option Int :=
    if -Int.pow 2 63 ≤ v ∧ v < Int.pow 2 63 then some v else none
  match s.toList with
  | '-' :: ds => (digitsValue? ds).bind fun n => inRange (-(n : Int))
  | '+' :: ds => (digitsValue? ds).bind fun n => inRange n
  | ds => (digitsValue? ds).bind fun n => inRange n

end OffloadAlgebra.Text
