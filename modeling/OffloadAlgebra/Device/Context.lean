import OffloadAlgebra.Config
import OffloadAlgebra.Kernel.Program
import OffloadAlgebra.Telemetry.Metrics
/-!
  A device context: the host device with its queue, memory, kernel table and metrics.

  Commands run in the order they are submitted, each as soon as it is submitted: the queue's
  event discipline orders every two commands that touch a buffer in a conflicting way, so
  running them one at a time in program order gives the same contents and the same outcomes.
  Every event is therefore complete or failed once its command is submitted.

  A context is made from a configuration that passes `Config.validate`: its queue workers are
  started in order, each with its name, and its base options are the configured ones fitted to
  the work-group limit (`fitThreadBlock`).  Either step may panic: a worker name the system
  cannot take, or a work-group limit whose square root overflows.
-/

namespace OffloadAlgebra

/-- How a command ended. -/
inductive Status where
  | complete
  | failed (message : String)
  deriving DecidableEq, Repr, Inhabited

/-- A submitted command's event: its label and how it ended. -/
structure Event where
  label : String
  status : Status
  deriving DecidableEq, Repr, Inhabited

/-- What a device reports about itself. -/
structure DeviceInfo where
  name : String
  maxWorkGroupSize : Nat
  computeUnits : Nat
  deriving DecidableEq, Repr, Inhabited

/-- A matrix in device memory: its shape, its buffer of `max 1 (rows * cols)` elements, and
    the events recorded on it for reading, for writing and for either. -/
structure DeviceMatrix where
  rows : Nat
  cols : Nat
  data : Array Float
  reads : List Nat := []
  writes : List Nat := []
  readWrites : List Nat := []
  deriving Inhabited

namespace DeviceMatrix

/-- Number of elements of the matrix. -/
def size (m : DeviceMatrix) : Nat := m.rows * m.cols

/-- Number of elements its buffer holds. -/
def memoryLen (m : DeviceMatrix) : Nat := m.data.size

/-- A diagnostic description of the matrix's buffer. -/
def describeMemory (m : DeviceMatrix) : String :=
  "Host(HostMemory \x7b len: " ++ toString m.memoryLen ++ " \x7d)"

end DeviceMatrix

/-- What identifies a built kernel in a context's table: name, source text, the address of the
    host implementation and requested options. -/
abbrev KernelKey := String × String × Option Nat × List (String × Int)

/-- A device context. -/
structure Context where
  info : DeviceInfo
  baseOptions : OptionMap
  tuning : Tuning
  kernels : List (KernelKey × CompiledKernel) := []
  metrics : Telemetry.Metrics := {}
  matrices : Array DeviceMatrix := #[]
  /-- Every submitted command's event, in submission order. -/
  events : Array Event := #[]
  deriving Inhabited

/-- Changes to a context that may panic; a panic abandons the whole request. -/
abbrev ContextM := StateT Context (Except Panic)

/-- Operations on a context that may fail; a failure keeps the changes made before it. -/
abbrev DeviceM := ExceptT Error ContextM

/-- A check that may fail, as a context operation that changes nothing. -/
def DeviceM.check {α : Type} (r : Except Error α) : DeviceM α :=
  match r with
  | .ok a => pure a
  | .error e => throw e

/-- A step that may panic, as a context operation that changes nothing. -/
def DeviceM.unwind {α : Type} (r : Except Panic α) : DeviceM α :=
  match r with
  | .ok a => pure a
  | .error p => throwThe Panic p

namespace Context

/-- Start a thread with a name.  The system takes the name as a C string, so a name with a NUL
    byte panics, reporting the byte position of the first NUL and the bytes of the name. -/
def spawnNamed (name : String) : Except Panic Unit :=
  let bytes := name.toUTF8.toList
  match bytes.findIdx? (· == 0) with
  | some i =>
    .error ⟨"thread name may not contain interior null bytes: NulError(" ++ toString i ++ ", [" ++
      ", ".intercalate (bytes.map fun b => toString b.toNat) ++ "])"⟩
  | none => .ok ()

/-- A context for a configuration, on a host with `processors` processors: the configuration's
    error when it is refused, and otherwise the new context, unless starting a worker or
    fitting the thread block panics. -/
def create (cfg : Config) (processors : Nat) : Except Panic (Except Error Context) :=
  match cfg.validate with
  | .error e => .ok (.error e)
  | .ok () => do
    let threads := cfg.workerThreads processors
    (List.range threads).forM fun i => spawnNamed (cfg.threadNamePrefix ++ "-" ++ toString i)
    let opts ← fitThreadBlock cfg.baseOptions cfg.maxWorkGroupSize
    pure (.ok { info := ⟨"host (" ++ toString threads ++ " queue threads)", cfg.maxWorkGroupSize, threads⟩,
                baseOptions := opts, tuning := cfg.tuning })

/-- Number of kernels built and kept. -/
def compiledKernels (ctx : Context) : Nat := ctx.kernels.length

/-- The event with id `e`. -/
def event? (ctx : Context) (e : Nat) : Option Event := ctx.events[e]?

/-- Whether event `e` completed. -/
def isComplete (ctx : Context) (e : Nat) : Bool :=
  match ctx.event? e with
  | some ⟨_, .complete⟩ => true
  | _ => false

/-- The label and message of event `e` if it failed. -/
def failure? (ctx : Context) (e : Nat) : Option (String × String) :=
  match ctx.event? e with
  | some ⟨label, .failed m⟩ => some (label, m)
  | _ => none

/-- The device matrix with handle `h`. -/
def matrix (ctx : Context) (h : Nat) : DeviceMatrix := ctx.matrices[h]?.getD default

/-- Replace the dispatch thresholds. -/
def setTuning (ctx : Context) (t : Tuning) : Context := { ctx with tuning := t }

/-- Zero every counter and forget every recorded latency. -/
def resetMetrics (ctx : Context) : Context := { ctx with metrics := ctx.metrics.reset }

/-- A diagnostic description of the context. -/
def describe (ctx : Context) : String :=
  "DeviceContext \x7b info: DeviceInfo \x7b name: " ++ Text.quoted ctx.info.name ++
    ", backend: Host, max_work_group_size: " ++ toString ctx.info.maxWorkGroupSize ++
    ", compute_units: " ++ toString ctx.info.computeUnits ++
    " \x7d, tuning: TuningOpts \x7b multiply_dim_prod_worth_transfer: " ++
    toString ctx.tuning.multiplyWorth ++ ", tri_inverse_size_worth_transfer: " ++
    toString ctx.tuning.triInverseWorth ++ " \x7d, compiled_kernels: " ++
    toString ctx.compiledKernels ++ " \x7d"

end Context

/-- A diagnostic description of an event whose id is shown as `shownId`. -/
def Event.describe (e : Event) (shownId : Nat) : String :=
  let status := match e.status with
    | .complete => "Complete"
    | .failed m => "Failed(" ++ Text.quoted m ++ ")"
  "Host(HostEvent \x7b id: " ++ toString shownId ++ ", label: " ++ Text.quoted e.label ++
    ", status: " ++ status ++ " \x7d)"

end OffloadAlgebra
