import OffloadAlgebra.Device.Buffer
/-!
  Building kernels on a context and launching them.

  A context keeps every kernel it built under its name, source text, host implementation's
  address and requested options, and builds a kernel again only for a new key.

  A launch checks, in this order: each argument against the kernel's signature, the range, the
  build of the kernel, and that no buffer is bound twice where one of the bindings writes.  It
  then waits on the writers of each input buffer and on every event of each output buffer, in
  argument order, and records its own event on each buffer by direction.
-/

namespace OffloadAlgebra

/-- An argument of a launch: a device matrix by handle, or a value. -/
inductive KernelArg where
  | matrix (h : Nat)
  | int (v : Int)
  | double (v : Float)
  deriving Repr, Inhabited

/-- The kind of an argument, as messages name it. -/
def KernelArg.kind : KernelArg → String
  | .matrix _ => "matrix"
  | .int _ => "int"
  | .double _ => "double"

/-- Whether an argument fits its place in a signature. -/
def KernelArg.fits : KernelArg → ArgSpec → Bool
  | .matrix _, .buffer _ => true
  | .int _, .value => true
  | .double _, .value => true
  | _, _ => false

/-- The first argument that does not fit the signature, with the message for it. -/
def signatureFault? (name : String) (sig : List ArgSpec) (args : List KernelArg) : Option Error :=
  ((args.zip sig).zipIdx.find? fun ((a, s), _) => !a.fits s).map fun ((a, s), i) =>
    .invalidArgument name ("argument " ++ toString i ++ " expects " ++ s.describe ++ ", got " ++ a.kind)

/-- The buffers of a launch with their direction and position. -/
def bufferBindings (sig : List ArgSpec) (args : List KernelArg) : List (Nat × Nat × Direction) :=
  ((args.zip sig).zipIdx).filterMap fun ((a, s), i) =>
    match a, s with
    | .matrix h, .buffer d => some (i, h, d)
    | _, _ => none

/-- The first pair of bindings of one buffer where one of them writes: the later position
    with the earliest earlier one. -/
def aliasFault? (name : String) (binds : List (Nat × Nat × Direction)) : Option Error :=
  binds.findSome? fun (i, h, d) =>
    (binds.find? fun (j, h', d') => j < i ∧ h' = h ∧ (d.writes || d'.writes)).map fun (j, _, _) =>
      .invalidArgument name ("arguments " ++ toString j ++ " and " ++ toString i ++ " alias the same buffer")

namespace Context

/-- Build a kernel with its requested options merged into the context's base options. -/
def compile (spec : KernelSpec) : DeviceM CompiledKernel := do
  let options := (← get).baseOptions.merge spec.requested
  match buildProgram spec.name spec.text options.render spec.host with
  | .error e => throw e
  | .ok p =>
    modify fun ctx => { ctx with metrics := ctx.metrics.recordKernelCompiled }
    pure ⟨spec.name, options, p⟩

/-- The key of a kernel in the table. -/
def keyOf (spec : KernelSpec) : KernelKey :=
  (spec.name, spec.text, spec.host.map (·.addr), spec.requested.toList)

/-- The kernel as built on this context, building and keeping it on first use. -/
def kernel (spec : KernelSpec) : DeviceM CompiledKernel := do
  match (← get).kernels.lookup (keyOf spec) with
  | some k => pure k
  | none =>
    let k ← compile spec
    modify fun ctx => { ctx with kernels := ctx.kernels ++ [(keyOf spec, k)] }
    pure k

/-- The value a launch sees for an argument. -/
def lower (ctx : Context) : KernelArg × ArgSpec → LaunchArg
  | (.matrix h, .buffer d) => .buffer (ctx.matrix h).data d
  | (.matrix h, .value) => .buffer (ctx.matrix h).data .input
  | (.int v, _) => .int v
  | (.double v, _) => .double v

/-- The checks of a launch, in order, with the build of its kernel: each argument against the
    signature, the range, the kernel, and that no buffer is bound twice where one binding
    writes.  The answer is the kernel as built. -/
def prepareLaunch (spec : KernelSpec) (range : NdRange) (args : List KernelArg) : DeviceM CompiledKernel := do
  if let some e := signatureFault? spec.name spec.signature args then throw e
  match range.validate spec.name with
  | .error e => throw e
  | .ok () => pure ()
  let k ← kernel spec
  if let some e := aliasFault? spec.name (bufferBindings spec.signature args) then throw e
  pure k

/-- The events a launch waits on: the writers of each input buffer and every event of each
    buffer it writes, in argument order. -/
def launchWaits (ctx : Context) (binds : List (Nat × Nat × Direction)) : List Nat :=
  binds.flatMap fun (_, h, d) =>
    match d with
    | .input => (ctx.matrix h).writes
    | _ => (ctx.matrix h).readWrites

/-- The work of a launch: the kernel's host implementation run on the arguments as the memory
    holds them, its writes stored into the matrices of the slots it wrote. -/
def launchWork (k : CompiledKernel) (spec : KernelSpec) (range : NdRange) (args : List KernelArg)
    (ctx : Context) : Except Fault (List (Nat × Array Float)) := do
  let slots := args.zip spec.signature
  let ws ← spec.hostRun ⟨spec.name, (slots.map ctx.lower).toArray, k.options, range⟩
  pure (ws.filterMap fun (slot, data) =>
    match args[slot]? with
    | some (.matrix h) => some (h, data)
    | _ => none)

/-- Launch a kernel over a range; the answer is the launch's event. -/
def invoke (spec : KernelSpec) (range : NdRange) (args : List KernelArg) : DeviceM Nat := do
  let k ← prepareLaunch spec range args
  let binds := bufferBindings spec.signature args
  let e ← submit spec.name ((← get).launchWaits binds) (launchWork k spec range args)
  for (_, h, d) in binds do
    publish h d e
  modify fun ctx => { ctx with metrics := ctx.metrics.recordKernelLaunch }
  pure e

end Context

end OffloadAlgebra
