import OffloadAlgebra.Text.Blank
import OffloadAlgebra.Text.Identifier
import OffloadAlgebra.Text.Integer
/-!
  Checking build flags.

  The flag string is split into words at Unicode blanks.  A word `-DNAME` or `-DNAME=VALUE`
  defines a macro: its name must be a macro name and its value, if given, a signed 64-bit
  integer (both faults are reported).  Any other word must start with `-cl-` or `-I`.
-/

namespace OffloadAlgebra.Source

/-- The body of a `-D` flag split at its first `=`: the macro name, and the value when an `=`
    is there. -/
def splitDefine (body : List Char) : List Char × Option (List Char) :=
  (body.takeWhile (· ≠ '='),
    match body.dropWhile (· ≠ '=') with
    | [] => none
    | _ :: value => some value)

/-- What is wrong with one flag word, as log messages. -/
def flagFaults (word : String) : List String :=
  match word.toList with
  | '-' :: 'D' :: body =>
    let (name, value) := splitDefine body
    let nameFault := if Text.isMacroNameChars name then [] else
      ["invalid macro name in `" ++ word ++ "`"]
    let valueFault := match value with
      | some v => if (Text.readInt64? (String.ofList v)).isSome then [] else
          ["macro value in `" ++ word ++ "` is not an integer"]
      | none => []
    nameFault ++ valueFault
  | cs =>
    if "-cl-".toList.isPrefixOf cs || "-I".toList.isPrefixOf cs then []
    else ["unrecognized build option `" ++ word ++ "`"]

/-- The log lines for every fault of every flag, in order. -/
def flagLog (flags : String) : List String :=
  (Text.words flags).flatMap fun w => (flagFaults w).map fun m => "<command line>: error: " ++ m ++ "\n"

end OffloadAlgebra.Source
