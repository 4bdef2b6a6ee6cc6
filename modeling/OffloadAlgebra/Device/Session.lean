import OffloadAlgebra.Device.Invoke
/-!
  A program on one device context: a sequence of calls, run one at a time in program order.

  A program allocates device matrices (`zeros`), copies host matrices to the device
  (`fromHost`), launches kernels (`invoke`) and copies device matrices back to the host
  (`toHost`).  It names a device matrix by the handle its allocation answered with.  Run one
  call at a time, each call answers with its reply or with the error it failed with; a panic
  ends the program and is its last answer (`runCalls`).
-/

namespace OffloadAlgebra

/-- A call of a program on a device context. -/
inductive Call where
  | zeros (rows cols : Nat)
  | fromHost (m : Matrix)
  | invoke (spec : KernelSpec) (range : NdRange) (args : List KernelArg)
  | toHost (h : Nat)

/-- What a call answers when it succeeds: a new matrix's handle, a launch's event, or a matrix
    copied back to the host. -/
inductive Reply where
  | handle (h : Nat)
  | event (e : Nat)
  | host (m : Matrix)

/-- How a call ended: a panic, or its reply or error. -/
abbrev Answer := Except Panic (Except Error Reply)

namespace Call

/-- A call on a context, run on its own. -/
def run : Call → DeviceM Reply
  | .zeros rows cols => Reply.handle <$> Context.alloc rows cols
  | .fromHost m => Reply.handle <$> Context.fromHost m
  | .invoke spec range args => Reply.event <$> Context.invoke spec range args
  | .toHost h => Reply.host <$> Context.toHost h

/-- The device matrices a call names. -/
def handles : Call → List Nat
  | .invoke _ _ args => args.filterMap fun
    | .matrix h => some h
    | _ => none
  | .toHost h => [h]
  | _ => []

end Call

/-- Run calls one at a time in program order: their answers, and the context after them.  A
    panic ends the run, and the context is the one the panicking call started from. -/
def runCalls (ctx : Context) : List Call → List Answer × Context
  | [] => ([], ctx)
  | c :: cs =>
    match c.run.run.run ctx with
    | .error p => ([.error p], ctx)
    | .ok (r, ctx') =>
      let rest := runCalls ctx' cs
      (.ok r :: rest.1, rest.2)

end OffloadAlgebra
