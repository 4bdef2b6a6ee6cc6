/-!
  Kernel parameters: how a kernel uses each argument.

  A parameter is a buffer read (`In`), written (`Out`) or both (`InOut`), or a plain value.
  The descriptions (`ArgSpec.describe`) are those diagnostics print, e.g. `Buffer(In)`.
-/

namespace OffloadAlgebra

/-- How a kernel accesses a buffer argument. -/
inductive Direction where
  | input
  | output
  | inputOutput
  deriving DecidableEq, Repr, Inhabited

namespace Direction

/-- Every direction but `output` reads the buffer. -/
def reads : Direction → Bool
  | output => false
  | _ => true

/-- Every direction but `input` writes the buffer. -/
def writes : Direction → Bool
  | input => false
  | _ => true

/-- The name diagnostics use: `In`, `Out` or `InOut`. -/
def describe : Direction → String
  | input => "In"
  | output => "Out"
  | inputOutput => "InOut"

end Direction

/-- One parameter of a kernel's signature. -/
inductive ArgSpec where
  | buffer (dir : Direction)
  | value
  deriving DecidableEq, Repr, Inhabited

/-- The description diagnostics use: `Buffer(In)`, ..., `Value`. -/
def ArgSpec.describe : ArgSpec → String
  | .buffer d => "Buffer(" ++ d.describe ++ ")"
  | .value => "Value"

end OffloadAlgebra
