import OffloadAlgebra.Device.Context
/-!
  Submitting commands, and the two transfers.

  A command waits on a list of events.  If one of them failed, the command fails with
  ``prerequisite `L` failed (M)`` for the first such event in list order (label `L`, message
  `M`) and its work does not run.  Otherwise its work runs on the current memory; a fault fails
  the command with the fault's text.  A failed command's event keeps `label: text`.  Each
  command counts as executed or failed in the metrics.

  A write to the device counts its bytes when it is submitted; a read counts them only when it
  succeeds, and a failed read is the device error of its event.
-/

namespace OffloadAlgebra.Context

/-- The first failed event of a wait list, as label and message. -/
def firstFailure? (ctx : Context) (waits : List Nat) : Option (String × String) :=
  waits.findSome? ctx.failure?

/-- Store new contents into device matrices. -/
def applyWrites (ctx : Context) (ws : List (Nat × Array Float)) : Context :=
  { ctx with matrices := ws.foldl (fun ms w => ms.modify w.1 fun m => { m with data := w.2 }) ctx.matrices }

/-- How a command with a wait list and its work (the new contents of the matrices it writes)
    ends on a context: the first failed event of the wait list fails it, and otherwise its work
    runs. -/
def outcome (ctx : Context) (waits : List Nat) (work : Context → Except Fault (List (Nat × Array Float))) :
    Except String (List (Nat × Array Float)) :=
  match ctx.firstFailure? waits with
  | some (l, m) => .error ("prerequisite `" ++ l ++ "` failed (" ++ m ++ ")")
  | none => (work ctx).mapError Fault.text

/-- The context after a command with a label ran: its writes land unless it failed, and its
    event is appended. -/
def runCommand (ctx : Context) (label : String) (waits : List Nat)
    (work : Context → Except Fault (List (Nat × Array Float))) : Context :=
  match ctx.outcome waits work with
  | .ok ws =>
    let ctx := ctx.applyWrites ws
    { ctx with events := ctx.events.push ⟨label, .complete⟩, metrics := ctx.metrics.countCommand }
  | .error m =>
    { ctx with events := ctx.events.push ⟨label, .failed (label ++ ": " ++ m)⟩,
               metrics := ctx.metrics.recordCommandFailed }

/-- Submit a command, which runs at once; the answer is the id of its event. -/
def submit (label : String) (waits : List Nat) (work : Context → Except Fault (List (Nat × Array Float))) :
    ContextM Nat := modifyGet fun ctx => (ctx.events.size, ctx.runCommand label waits work)

/-- The work of a write of host data: the data over the front of the matrix's buffer. -/
def writeWork (h : Nat) (data : Array Float) (ctx : Context) : Except Fault (List (Nat × Array Float)) :=
  let buf := (ctx.matrix h).data
  .ok [(h, data ++ buf.extract data.size buf.size)]

/-- Copy host data into the front of a matrix's buffer; the answer is the write's event. -/
def writeBuffer (h : Nat) (data : Array Float) : ContextM Nat := do
  let e ← submit "write_buffer" [] (writeWork h data)
  modify fun ctx => { ctx with metrics := ctx.metrics.recordTransferToDevice (8 * data.size) }
  pure e

/-- Read the first `len` elements of a matrix's buffer after the events `waits`. -/
def readBuffer (h len : Nat) (waits : List Nat) : DeviceM (Array Float) := do
  let e ← submit "read_buffer" waits fun _ => .ok []
  match (← get).failure? e with
  | some (_, m) => throw (.device m)
  | none =>
    modify fun ctx => { ctx with metrics := ctx.metrics.recordTransferFromDevice (8 * len) }
    pure (((← get).matrix h).data.extract 0 len)

end OffloadAlgebra.Context
