/-!
  Errors of the library, one constructor per cause.

  Every failing operation of the library returns an `Error`; its text for a reader is
  `Error.message`, the only place where the wording of an error lives.  A kernel build failure
  also carries the build log, which `Error.buildLog?` hands back on its own.
-/

namespace OffloadAlgebra

/-- What went wrong.  `function` names the operation that refused its input. -/
inductive Error where
  /-- The kernel text or its flags were rejected; `log` lists every complaint, one per line. -/
  | kernelBuild (kernel log : String)
  /-- The program built, but defines no kernel of this name. -/
  | kernelNotFound (kernel : String)
  /-- A device command failed, or waited on one that failed. -/
  | device (message : String)
  /-- Operand shapes do not fit together. -/
  | shapeMismatch (function message : String)
  /-- An argument is outside what the operation accepts. -/
  | invalidArgument (function message : String)
  /-- A configuration was rejected before any device was made. -/
  | config (message : String)
  /-- The process-wide context was asked for before it was set up. -/
  | notInitialized
  /-- The process-wide context was set up twice. -/
  | alreadyInitialized
  /-- An exporter could not deliver a snapshot. -/
  | telemetry (message : String)
  deriving DecidableEq, Repr, Inhabited

namespace Error

/-- The text of an error, as a reader sees it. -/
def message : Error → String
  | kernelBuild kernel log => "kernel build failed for `" ++ kernel ++ "`:\n" ++ log
  | kernelNotFound kernel => "kernel `" ++ kernel ++ "` not found in compiled program"
  | device m => "device error: " ++ m
  | shapeMismatch function m => function ++ ": " ++ m
  | invalidArgument function m => function ++ ": " ++ m
  | config m => "config error: " ++ m
  | notInitialized => "device context not initialized"
  | alreadyInitialized => "already initialized"
  | telemetry m => "telemetry error: " ++ m

/-- The build log of a kernel build failure, and nothing for any other error. -/
def buildLog? : Error → Option String
  | kernelBuild _ log => some log
  | _ => none

/-- The text a device command stores when it fails with this error: a device error gives its
    bare message, any other error its full text. -/
def commandText : Error → String
  | device m => m
  | e => e.message

@[simp] theorem buildLog?_kernelBuild (k l : String) : (kernelBuild k l).buildLog? = some l := rfl

@[simp] theorem commandText_device (m : String) : (device m).commandText = m := rfl

end Error

end OffloadAlgebra
