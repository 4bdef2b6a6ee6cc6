/-!
  Tokens of kernel text and the kernels a token stream defines.

  Outside comments and literals, kernel text is a stream of identifiers (maximal runs of ASCII
  letters, digits and underscores not starting with a digit) and single punctuation
  characters.  A kernel definition is the keyword `kernel` or `__kernel`, then tokens up to the
  first `void` with no `;` or `{` before it, then the kernel's name and `(`.
-/

namespace OffloadAlgebra.Source

/-- A token of kernel text. -/
inductive Token where
  | ident (name : String)
  | punct (c : Char)
  deriving DecidableEq, Repr, Inhabited

namespace Token

/-- Whether the token is one of the two kernel keywords. -/
def isKernelKeyword : Token → Bool
  | ident "kernel" | ident "__kernel" => true
  | _ => false

/-- Whether the token ends the search for `void`: a `;` or a `{`. -/
def endsQualifiers : Token → Bool
  | punct ';' | punct '{' => true
  | _ => false

end Token

/-- The name defined by the tokens that follow a kernel keyword, if they define one. -/
def nameAfterKeyword (rest : List Token) : Option String :=
  match (rest.takeWhile (fun t => !t.endsQualifiers)).findIdx? (· == .ident "void") with
  | none => none
  | some v =>
    match rest[v + 1]?, rest[v + 2]? with
    | some (.ident n), some (.punct '(') => some n
    | _, _ => none

/-- The names of the kernels a token stream defines, in order of their keywords. -/
def kernelNames : List Token → List String
  | [] => []
  | t :: rest =>
    let found := if t.isKernelKeyword then (nameAfterKeyword rest).toList else []
    found ++ kernelNames rest

end OffloadAlgebra.Source
