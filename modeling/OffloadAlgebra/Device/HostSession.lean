import OffloadAlgebra.Device.HostQueue
import OffloadAlgebra.Device.Session
/-!
  A program running on the host queue.

  `runCalls` runs each command the moment it is submitted.  On the host device a call only
  hands its command to the queue; the workers run the commands later, in any interleaving, each
  after the events on its wait list.  Here the program's thread and the workers take turns, one
  atomic action at a time (`Session.Step`):

  * the allocation of `zeros` and `fromHost`, and the checks and build of `invoke`, run on the
    program's thread as they do in the sequential run;
  * `fromHost` submits the write of the host data and records it on the new matrix as a write;
  * `invoke` submits the launch, waiting on the writers of its input buffers and on every event
    of the buffers it writes, and records it on each buffer by direction;
  * `toHost` submits the read of the matrix after its writers and blocks until the read ends;
    then it waits on the events of the matrix in list order and drops the completed ones.

  Appending an event to a list drops the list's completed events first.  Events complete on
  other threads meanwhile, so a list that is kept may drop any of its completed events and keeps
  every other one (`HostQueue.Pruned`).  The program holds the matrices it names, so a call names
  only matrices that exist.
-/

namespace OffloadAlgebra

namespace HostQueue

/-- The command that writes host data into the front of matrix `h`. -/
def writeCommand (h : Nat) (data : Array Float) : Command :=
  { label := "write_buffer", waits := [], work := Context.writeWork h data, buffers := [(h, .output)] }

/-- The command that reads the first `len` elements of matrix `h` after the events `waits`. -/
def readCommand (h len : Nat) (waits : List Nat) : Command :=
  { label := "read_buffer", waits, work := fun _ => .ok [], buffers := [(h, .input)], copies := some (h, len) }

/-- The command of a launch of kernel `k`, built from `spec`, after the events `waits`. -/
def launchCommand (k : CompiledKernel) (spec : KernelSpec) (range : NdRange) (args : List KernelArg)
    (waits : List Nat) : Command :=
  { label := spec.name, waits, work := Context.launchWork k spec range args,
    buffers := (bufferBindings spec.signature args).map fun (_, h, d) => (h, d) }

/-- Change the queue's metrics. -/
def modifyMetrics (q : HostQueue) (f : Telemetry.Metrics → Telemetry.Metrics) : HostQueue :=
  { q with ctx := { q.ctx with metrics := f q.ctx.metrics } }

/-- Replace device matrix `h`. -/
def setMatrix (q : HostQueue) (h : Nat) (m : DeviceMatrix) : HostQueue :=
  { q with ctx := { q.ctx with matrices := q.ctx.matrices.modify h fun _ => m } }

/-- `l'` is `l` with some completed events dropped and event `e` appended. -/
def Appended (q : HostQueue) (l : List Nat) (e : Nat) (l' : List Nat) : Prop :=
  ∃ kept, q.Pruned l kept ∧ l' = kept ++ [e]

/-- Matrix `m'` is `m` with event `e` recorded as an access in direction `dir`: on the read
    list if it reads, on the write list if it writes, and on the list of both in any case. -/
structure Recorded (q : HostQueue) (dir : Direction) (e : Nat) (m m' : DeviceMatrix) : Prop where
  rows : m'.rows = m.rows
  cols : m'.cols = m.cols
  data : m'.data = m.data
  reads : if dir.reads then q.Appended m.reads e m'.reads else m'.reads = m.reads
  writes : if dir.writes then q.Appended m.writes e m'.writes else m'.writes = m.writes
  readWrites : q.Appended m.readWrites e m'.readWrites

/-- Record event `e` on matrix `h` as an access in direction `dir`. -/
def Publishes (q : HostQueue) (h : Nat) (dir : Direction) (e : Nat) (q' : HostQueue) : Prop :=
  ∃ m', q.Recorded dir e (q.ctx.matrix h) m' ∧ q' = q.setMatrix h m'

/-- Record event `e` on each buffer of a launch in turn, by its direction. -/
inductive PublishesAll (e : Nat) : HostQueue → List (Nat × Nat × Direction) → HostQueue → Prop
  | nil {q : HostQueue} : PublishesAll e q [] q
  | cons {q q₁ q' : HostQueue} {i h : Nat} {d : Direction} {rest : List (Nat × Nat × Direction)}
      (hd : q.Publishes h d e q₁) (htl : PublishesAll e q₁ rest q') : PublishesAll e q ((i, h, d) :: rest) q'

/-- Matrix `m'` is `m` with some completed events dropped from each of its lists. -/
structure Cleared (q : HostQueue) (m m' : DeviceMatrix) : Prop where
  rows : m'.rows = m.rows
  cols : m'.cols = m.cols
  data : m'.data = m.data
  reads : q.Pruned m.reads m'.reads
  writes : q.Pruned m.writes m'.writes
  readWrites : q.Pruned m.readWrites m'.readWrites

/-- The elements job `e` copied out when it ran. -/
def copied (q : HostQueue) (e : Nat) : Array Float := (q.jobs[e]?.map (·.copied)).getD #[]

end HostQueue

/-- Where the program is: about to make its next calls, blocked in a copy of matrix `h` back to
    the host whose read is event `e`, or stopped by a panic. -/
inductive Client where
  | ready (calls : List Call)
  | reading (h e : Nat) (rest : List Call)
  | stopped

/-- A program running on a host queue: the queue, where the program is, and its answers so far. -/
structure Session where
  queue : HostQueue
  client : Client
  answers : List Answer

namespace Session

/-- A program about to make `calls` on a queue with `threads` idle workers on `ctx`. -/
def start (ctx : Context) (threads : Nat) (calls : List Call) : Session :=
  ⟨HostQueue.start ctx threads, .ready calls, []⟩

open HostQueue in
/-- One atomic action of a program on the host queue: a worker's step, or the next part of the
    program's current call. -/
inductive Step : Session → Session → Prop
  | worker {q q' : HostQueue} {c : Client} {as : List Answer} (w : Nat) (h : q.workerStep w = some q') :
      Step ⟨q, c, as⟩ ⟨q', c, as⟩
  /-- `zeros` allocates on the program's thread. -/
  | zeros {q : HostQueue} {rows cols : Nat} {cs : List Call} {as : List Answer} {r : Except Error Nat}
      {ctx' : Context} (h : (Context.alloc rows cols).run.run q.ctx = .ok (r, ctx')) :
      Step ⟨q, .ready (.zeros rows cols :: cs), as⟩
        ⟨{ q with ctx := ctx' }, .ready cs, as ++ [.ok (r.map .handle)]⟩
  /-- `fromHost` fails to allocate. -/
  | fromHostFailed {q : HostQueue} {m : Matrix} {cs : List Call} {as : List Answer} {e : Error}
      {ctx' : Context} (h : (Context.alloc m.rows m.cols).run.run q.ctx = .ok (.error e, ctx')) :
      Step ⟨q, .ready (.fromHost m :: cs), as⟩ ⟨{ q with ctx := ctx' }, .ready cs, as ++ [.ok (.error e)]⟩
  /-- `fromHost` of an empty matrix only allocates. -/
  | fromHostEmpty {q : HostQueue} {m : Matrix} {cs : List Call} {as : List Answer} {hd : Nat}
      {ctx' : Context} (h : (Context.alloc m.rows m.cols).run.run q.ctx = .ok (.ok hd, ctx'))
      (hm : m.size = 0) :
      Step ⟨q, .ready (.fromHost m :: cs), as⟩ ⟨{ q with ctx := ctx' }, .ready cs, as ++ [.ok (.ok (.handle hd))]⟩
  /-- `fromHost` allocates, submits the write of the data and records it on the new matrix. -/
  | fromHost {q q' : HostQueue} {m : Matrix} {cs : List Call} {as : List Answer} {hd : Nat}
      {ctx' : Context} (h : (Context.alloc m.rows m.cols).run.run q.ctx = .ok (.ok hd, ctx'))
      (hm : m.size ≠ 0)
      (hp : (({ q with ctx := ctx' }.submit (writeCommand hd m.data)).modifyMetrics
        (·.recordTransferToDevice (8 * m.data.size))).Publishes hd .output q.jobs.size q') :
      Step ⟨q, .ready (.fromHost m :: cs), as⟩ ⟨q', .ready cs, as ++ [.ok (.ok (.handle hd))]⟩
  /-- `zeros` or `fromHost` panics in its allocation. -/
  | allocPanic {q : HostQueue} {rows cols : Nat} {c : Call} {cs : List Call} {as : List Answer} {p : Panic}
      (hc : c = .zeros rows cols ∨ ∃ m : Matrix, c = .fromHost m ∧ m.rows = rows ∧ m.cols = cols)
      (h : (Context.alloc rows cols).run.run q.ctx = .error p) :
      Step ⟨q, .ready (c :: cs), as⟩ ⟨q, .stopped, as ++ [.error p]⟩
  /-- `invoke` fails its checks or its build. -/
  | launchFailed {q : HostQueue} {spec : KernelSpec} {range : NdRange} {args : List KernelArg}
      {cs : List Call} {as : List Answer} {e : Error} {ctx' : Context}
      (hv : ∀ h ∈ (Call.invoke spec range args).handles, h < q.ctx.matrices.size)
      (h : (Context.prepareLaunch spec range args).run.run q.ctx = .ok (.error e, ctx')) :
      Step ⟨q, .ready (.invoke spec range args :: cs), as⟩ ⟨{ q with ctx := ctx' }, .ready cs, as ++ [.ok (.error e)]⟩
  /-- `invoke` panics in its checks or its build. -/
  | launchPanic {q : HostQueue} {spec : KernelSpec} {range : NdRange} {args : List KernelArg}
      {cs : List Call} {as : List Answer} {p : Panic}
      (hv : ∀ h ∈ (Call.invoke spec range args).handles, h < q.ctx.matrices.size)
      (h : (Context.prepareLaunch spec range args).run.run q.ctx = .error p) :
      Step ⟨q, .ready (.invoke spec range args :: cs), as⟩ ⟨q, .stopped, as ++ [.error p]⟩
  /-- `invoke` submits the launch after the events its buffers wait on, records it on each
      buffer and counts it. -/
  | launch {q q' : HostQueue} {spec : KernelSpec} {range : NdRange} {args : List KernelArg}
      {cs : List Call} {as : List Answer} {k : CompiledKernel} {ctx' : Context}
      (hv : ∀ h ∈ (Call.invoke spec range args).handles, h < q.ctx.matrices.size)
      (h : (Context.prepareLaunch spec range args).run.run q.ctx = .ok (.ok k, ctx'))
      (hp : PublishesAll q.jobs.size
        ({ q with ctx := ctx' }.submit
          (launchCommand k spec range args (ctx'.launchWaits (bufferBindings spec.signature args))))
        (bufferBindings spec.signature args) q') :
      Step ⟨q, .ready (.invoke spec range args :: cs), as⟩
        ⟨q'.modifyMetrics (·.recordKernelLaunch), .ready cs, as ++ [.ok (.ok (.event q.jobs.size))]⟩
  /-- `toHost` submits the read of the matrix after its writers, and blocks. -/
  | read {q : HostQueue} {h : Nat} {cs : List Call} {as : List Answer} (hv : h < q.ctx.matrices.size) :
      Step ⟨q, .ready (.toHost h :: cs), as⟩
        ⟨q.submit (readCommand h ((q.ctx.matrix h).rows * (q.ctx.matrix h).cols) (q.ctx.matrix h).writes),
          .reading h q.jobs.size cs, as⟩
  /-- The read failed: the copy fails with its message. -/
  | readFailed {q : HostQueue} {h e : Nat} {cs : List Call} {as : List Answer} {m : String}
      (hs : q.status? e = some (.failed m)) :
      Step ⟨q, .reading h e cs, as⟩ ⟨q, .ready cs, as ++ [.ok (.error (.device m))]⟩
  /-- The read completed, and an event of the matrix failed: the copy fails with its message. -/
  | waitFailed {q : HostQueue} {h e : Nat} {cs : List Call} {as : List Answer} {l m : String}
      (hs : q.status? e = some .complete) (hw : q.settle? (q.ctx.matrix h).readWrites = some (some (l, m))) :
      Step ⟨q, .reading h e cs, as⟩
        ⟨q.modifyMetrics (·.recordTransferFromDevice (8 * ((q.ctx.matrix h).rows * (q.ctx.matrix h).cols))),
          .ready cs, as ++ [.ok (.error (.device m))]⟩
  /-- The read and every event of the matrix completed: the copy answers with what the read
      copied out, and the matrix drops completed events. -/
  | copied {q : HostQueue} {h e : Nat} {cs : List Call} {as : List Answer} {m' : DeviceMatrix}
      (hs : q.status? e = some .complete) (hw : q.settle? (q.ctx.matrix h).readWrites = some none)
      (hc : q.Cleared (q.ctx.matrix h) m') :
      Step ⟨q, .reading h e cs, as⟩
        ⟨(q.modifyMetrics (·.recordTransferFromDevice (8 * ((q.ctx.matrix h).rows * (q.ctx.matrix h).cols)))).setMatrix h m',
          .ready cs, as ++ [.ok (.ok (.host ⟨(q.ctx.matrix h).rows, (q.ctx.matrix h).cols, q.copied e⟩))]⟩

/-- The states a program running `calls` on a queue with `threads` workers on `ctx` reaches. -/
inductive Reachable (ctx : Context) (threads : Nat) (calls : List Call) : Session → Prop
  | start : Reachable ctx threads calls (Session.start ctx threads calls)
  | step {s s' : Session} : Reachable ctx threads calls s → Step s s' → Reachable ctx threads calls s'

end Session

end OffloadAlgebra
