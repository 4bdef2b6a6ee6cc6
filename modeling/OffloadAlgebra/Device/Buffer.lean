import OffloadAlgebra.Device.Queue
import OffloadAlgebra.Kernel.Arg
import OffloadAlgebra.Matrix
/-!
  Matrices in device memory and the events recorded on them.

  Each device matrix keeps three lists of events: those that read it, those that wrote it,
  and the union of both.  A command that only reads a matrix waits on its writers; a command
  that writes it waits on everything recorded.  Recording an event first drops the events of
  the list that completed, so only pending or failed events stay listed; a failed event is
  never dropped, and every later wait on the list reports it.
-/

namespace OffloadAlgebra.Context

/-- The events of a list that did not complete. -/
def pending (ctx : Context) (es : List Nat) : List Nat := es.filter fun e => !ctx.isComplete e

/-- A list with its completed events dropped and event `e` appended. -/
def record (ctx : Context) (es : List Nat) (e : Nat) : List Nat := ctx.pending es ++ [e]

/-- Change the device matrix with handle `h`. -/
def modifyMatrix (h : Nat) (f : Context → DeviceMatrix → DeviceMatrix) : ContextM Unit :=
  modify fun ctx => { ctx with matrices := ctx.matrices.modify h (f ctx) }

/-- Record event `e` on matrix `h` as an access in direction `dir`. -/
def publish (h : Nat) (dir : Direction) (e : Nat) : ContextM Unit :=
  modifyMatrix h fun ctx m =>
    { m with reads := if dir.reads then ctx.record m.reads e else m.reads,
             writes := if dir.writes then ctx.record m.writes e else m.writes,
             readWrites := ctx.record m.readWrites e }

/-- Fail with the device error of the first failed event of a list. -/
def waitAll (es : List Nat) : DeviceM Unit := do
  match (← get).firstFailure? es with
  | some (_, m) => throw (.device m)
  | none => pure ()

/-- Allocate a zero-filled `rows × cols` matrix; its buffer holds at least one element.
    The element count must fit a machine word, and a buffer too large to reserve panics. -/
def alloc (rows cols : Nat) : DeviceM Nat := do
  if rows * cols ≥ Nat.pow 2 64 then
    throw (.invalidArgument "MatrixCl" (toString rows ++ " x " ++ toString cols ++ " elements overflow usize"))
  DeviceM.unwind (Word.reserve (max 1 (rows * cols)))
  let ctx ← get
  let fresh : DeviceMatrix := { rows := rows, cols := cols, data := Array.replicate (max 1 (rows * cols)) 0 }
  set { ctx with matrices := ctx.matrices.push fresh }
  pure ctx.matrices.size

/-- Copy a host matrix into a new device matrix; a non-empty copy is recorded as a write. -/
def fromHost (m : Matrix) : DeviceM Nat := do
  let h ← alloc m.rows m.cols
  if m.size ≠ 0 then
    let e ← writeBuffer h m.data
    publish h .output e
  pure h

/-- Wait on every event recorded on matrix `h`, then drop the completed ones. -/
def waitReadWrite (h : Nat) : DeviceM Unit := do
  waitAll ((← get).matrix h).readWrites
  modifyMatrix h fun ctx m =>
    { m with reads := ctx.pending m.reads, writes := ctx.pending m.writes,
             readWrites := ctx.pending m.readWrites }

/-- Wait on the writers of matrix `h`. -/
def waitWrites (h : Nat) : DeviceM Unit := do
  waitAll ((← get).matrix h).writes

/-- Copy device matrix `h` back to the host: read after its writers, then wait on all its
    events. -/
def toHost (h : Nat) : DeviceM Matrix := do
  let m := (← get).matrix h
  let data ← readBuffer h (m.rows * m.cols) m.writes
  waitReadWrite h
  pure ⟨m.rows, m.cols, data⟩

/-- The number of events in the read, write and combined lists of matrix `h` that did not
    complete. -/
def unfinished (ctx : Context) (h : Nat) : Nat × Nat × Nat :=
  let m := ctx.matrix h
  ((ctx.pending m.reads).length, (ctx.pending m.writes).length, (ctx.pending m.readWrites).length)

end OffloadAlgebra.Context
