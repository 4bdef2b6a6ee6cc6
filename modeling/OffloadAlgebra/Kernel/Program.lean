import OffloadAlgebra.Kernel.Builtin
import OffloadAlgebra.Kernel.Sample
import OffloadAlgebra.Source.Build
import OffloadAlgebra.Text.Quoted
/-!
  Kernel programs: host implementations, kernel descriptions and builds.

  A host implementation is any function of a launch that writes only the buffers passed to it
  for writing (`HostFn`), known by its address.  A `KernelSpec` describes a kernel: its name,
  its source text in fragments, the options it requests, its signature and the host
  implementation bound to it (if any).  Building runs the front end over the text with the
  merged options as flags; it fails with the build log, then if the program defines no kernel
  of that name, then if no host implementation is bound.
-/

namespace OffloadAlgebra

/-- A host implementation a kernel can be bound to: any function from a launch to the new
    contents of the buffers it writes, or a fault, that writes only argument slots holding a
    buffer passed for writing (what the launch's accessors hand out for writing).  Its address
    is its identity: the kernel table keys on it, and a built program records it. -/
structure HostFn where
  addr : Nat
  run : Launch → Except Fault Writes
  writes_writable : ∀ l ws, run l = .ok ws → l.WritesWritable ws

namespace HostFn

/-! The host implementations of the built-in kernels and of the sample fixtures, each at an
    address of its own. -/

def matrixMultiply : HostFn := ⟨0, Builtin.matrixMultiply, Builtin.matrixMultiply_writes⟩
def transpose : HostFn := ⟨1, Builtin.transpose, Builtin.transpose_writes⟩
def lowerTriInverse : HostFn := ⟨2, Builtin.lowerTriInverse, Builtin.lowerTriInverse_writes⟩
def fill : HostFn := ⟨3, Sample.fill, Sample.fill_writes⟩
def copyAdd : HostFn := ⟨4, Sample.copyAdd, Sample.copyAdd_writes⟩
def increment : HostFn := ⟨5, Sample.increment, Sample.increment_writes⟩
def fault : HostFn := ⟨6, Sample.fault, Sample.writesWritable_of_error fun _ => ⟨_, rfl⟩⟩
def setOption : HostFn := ⟨7, Sample.setOption, Sample.setOption_writes⟩
def add : HostFn := ⟨8, Sample.add, Sample.add_writes⟩
def panicText : HostFn := ⟨9, Sample.panicText, Sample.writesWritable_of_error fun _ => ⟨_, rfl⟩⟩
def panicCount : HostFn := ⟨10, Sample.panicCount, Sample.writesWritable_of_error fun _ => ⟨_, rfl⟩⟩
def panicOpaque : HostFn := ⟨11, Sample.panicOpaque, Sample.writesWritable_of_error fun _ => ⟨_, rfl⟩⟩
def invalid : HostFn := ⟨12, Sample.invalid, Sample.writesWritable_of_error fun _ => ⟨_, rfl⟩⟩
def describe : HostFn := ⟨13, Sample.describe, Sample.describe_writes⟩

@[simp] theorem matrixMultiply_run : matrixMultiply.run = Builtin.matrixMultiply := rfl
@[simp] theorem transpose_run : transpose.run = Builtin.transpose := rfl
@[simp] theorem lowerTriInverse_run : lowerTriInverse.run = Builtin.lowerTriInverse := rfl

end HostFn

/-- A built program: the kernels its text defines and the address of the host implementation
    it runs. -/
structure Program where
  kernelNames : List String
  host : Nat
  deriving DecidableEq, Repr, Inhabited

/-- A kernel built for a device: its name, the options it was built with, its program. -/
structure CompiledKernel where
  name : String
  options : OptionMap
  program : Program
  deriving DecidableEq, Repr, Inhabited

/-- A kernel as a program describes it. -/
structure KernelSpec where
  name : String
  fragments : List String
  options : List (String × Int) := []
  signature : List ArgSpec
  host : Option HostFn
  deriving Inhabited

namespace KernelSpec

/-- The whole source text: the fragments joined with nothing between them. -/
def text (k : KernelSpec) : String := String.join k.fragments

/-- The requested options as a map. -/
def requested (k : KernelSpec) : OptionMap := OptionMap.ofList k.options

/-- What a launch of the kernel runs: the host implementation bound to it.  The program it was
    built into records that implementation's address, and an address is one function, so this
    is the function the program runs.  A kernel with no implementation never builds, so it is
    never launched. -/
def hostRun (k : KernelSpec) (l : Launch) : Except Fault Writes :=
  match k.host with
  | some f => f.run l
  | none => .ok []

theorem hostRun_of_host {k : KernelSpec} {f : HostFn} (h : k.host = some f) : k.hostRun = f.run := by
  funext l
  simp only [hostRun, h]

end KernelSpec

/-- Build a program for kernel `kernel` from source text, flags and a host implementation. -/
def buildProgram (kernel source flags : String) (host : Option HostFn) : Except Error Program :=
  match Source.frontEnd source flags with
  | .error log => .error (.kernelBuild kernel log)
  | .ok names =>
    if !names.contains kernel then .error (.kernelNotFound kernel)
    else match host with
      | none => .error (.kernelBuild kernel
          ("<link>: error: no host implementation bound for kernel `" ++ kernel ++ "`\n"))
      | some f => .ok ⟨names, f.addr⟩

/-! Diagnostic descriptions. -/

/-- An option map as a diagnostic shows it: `{"A": 1, "B": 2}`. -/
def OptionMap.describe (m : OptionMap) : String :=
  "\x7b" ++ ", ".intercalate (m.toList.map fun kv => Text.quoted kv.1 ++ ": " ++ toString kv.2) ++ "\x7d"

/-- A list of texts as a diagnostic shows it: `["a", "b"]`. -/
def describeTexts (xs : List String) : String := "[" ++ ", ".intercalate (xs.map Text.quoted) ++ "]"

def CompiledKernel.describe (c : CompiledKernel) : String :=
  "CompiledKernel \x7b name: " ++ Text.quoted c.name ++ ", options: " ++ c.options.describe ++
    ", program: Host(HostProgram \x7b kernel_names: " ++ describeTexts c.program.kernelNames ++
    " \x7d) \x7d"

def KernelSpec.describe (k : KernelSpec) : String :=
  "KernelCl \x7b name: " ++ Text.quoted k.name ++ ", options: [" ++
    ", ".intercalate (k.options.map fun kv => "(" ++ Text.quoted kv.1 ++ ", " ++ toString kv.2 ++ ")") ++
    "], signature: [" ++ ", ".intercalate (k.signature.map ArgSpec.describe) ++ "] \x7d"

def KernelSpec.describeSource (k : KernelSpec) : String :=
  "KernelSource \x7b name: " ++ Text.quoted k.name ++ ", fragments: " ++ toString k.fragments.length ++
    ", host: " ++ (if k.host.isSome then "true" else "false") ++ " \x7d"

end OffloadAlgebra
