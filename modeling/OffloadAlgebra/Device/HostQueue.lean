import OffloadAlgebra.Device.Queue
/-!
  The host queue with its worker threads, one atomic action at a time.

  `Context.submit` runs a command the moment it is submitted.  Behind it the host device keeps
  a queue served by a pool of workers: a submission counts the command in flight and pushes it
  on a first-in-first-out injector; a worker steals the oldest command, waits on the events of
  its wait list one by one in list order, runs its work unless a prerequisite failed, records
  the outcome on the command's event and takes it off the in-flight count.  An idle worker
  that finds the injector empty reads the shutdown flag and leaves when it is set.

  Every step below is one action of that code that other threads see at once: a steal, a look
  at one event, a run of the work, the signal of an event, the decrement of the in-flight
  count, a read of the shutdown flag.  A submission is one step (its count comes before its
  push, and nothing observes the count between the two but a drained-notification that has no
  waiter then).  A command's work is one step too: commands that run at the same time touch
  no buffer one of them writes, so their accesses commute.

  `Job.result` is the outcome the worker holding the job computed (what the event is about to
  become); `Job.status` is the event's status as every other thread sees it.  An event moves
  from pending to one terminal status, and a later signal leaves it as it is (`finish`).
-/

namespace OffloadAlgebra

/-- A command on the host queue: its label, the events it waits on, its work, the device
    buffers it holds with how it uses each, and for a read, the matrix and the number of
    elements it copies out when it runs. -/
structure Command where
  label : String
  waits : List Nat
  work : Context → Except Fault (List (Nat × Array Float))
  buffers : List (Nat × Direction) := []
  copies : Option (Nat × Nat) := none
  deriving Inhabited

/-- A submitted command with its event. -/
structure Job where
  command : Command
  result : Option Status := none
  status : Option Status := none
  copied : Array Float := #[]
  deriving Inhabited

/-- Where a worker is in its loop.  A worker holding a job is `waiting` on its wait list (having
    passed the first `passed` events), has `ran` it, or has `signalled` its event. -/
inductive Worker where
  | idle
  | sawEmpty
  | waiting (job passed : Nat)
  | ran (job : Nat)
  | signalled (job : Nat)
  | exited
  deriving DecidableEq, Repr, Inhabited

/-- The event status a signal leaves: the first terminal status an event gets stays. -/
def Status.finish (current : Option Status) (s : Status) : Option Status :=
  match current with
  | none => some s
  | some c => some c

/-- What a failed prerequisite makes its dependant's work say. -/
def prerequisiteText (label message : String) : String :=
  "prerequisite `" ++ label ++ "` failed (" ++ message ++ ")"

/-- The host queue: the device's memory (in its context), the submitted jobs by event id, the
    injector, the workers, the in-flight count and the shutdown flag. -/
structure HostQueue where
  ctx : Context
  jobs : Array Job := #[]
  injector : List Nat := []
  workers : List Worker
  inFlight : Nat := 0
  shutdown : Bool := false

namespace HostQueue

/-- A queue on a context with `threads` idle workers. -/
def start (ctx : Context) (threads : Nat) : HostQueue :=
  { ctx, workers := List.replicate threads .idle }

/-- The status of event `e` as every thread sees it; `none` while it is pending. -/
def status? (q : HostQueue) (e : Nat) : Option Status := q.jobs[e]?.bind (·.status)

/-- The outcome the worker running job `e` found; `none` until it ran. -/
def result? (q : HostQueue) (e : Nat) : Option Status := q.jobs[e]?.bind (·.result)

/-- The label of event `e`. -/
def label (q : HostQueue) (e : Nat) : String := (q.jobs[e]?.map (·.command.label)).getD ""

/-- Count a command and push it on the injector; its event id is the number of earlier jobs. -/
def submit (q : HostQueue) (cmd : Command) : HostQueue :=
  { q with jobs := q.jobs.push { command := cmd }, injector := q.injector ++ [q.jobs.size],
           inFlight := q.inFlight + 1 }

def setWorker (q : HostQueue) (w : Nat) (s : Worker) : HostQueue :=
  { q with workers := q.workers.set w s }

def modifyJob (q : HostQueue) (j : Nat) (f : Job → Job) : HostQueue :=
  { q with jobs := q.jobs.modify j f }

/-- Run job `j`'s work on the device memory: on success its writes land, a read copies its
    elements out, and the command is counted; on a fault the job fails with the fault's text. -/
def run (q : HostQueue) (j : Nat) (cmd : Command) : HostQueue :=
  match cmd.work q.ctx with
  | .ok ws =>
    let copied := match cmd.copies with
      | some (h, len) => (q.ctx.matrix h).data.extract 0 len
      | none => #[]
    { q with ctx := { q.ctx.applyWrites ws with metrics := q.ctx.metrics.countCommand },
             jobs := q.jobs.modify j fun job => { job with result := some .complete, copied } }
  | .error f => q.modifyJob j fun job => { job with result := some (.failed (cmd.label ++ ": " ++ f.text)) }

/-- Fail job `j` because its prerequisite `d` failed with message `m`. -/
def blame (q : HostQueue) (j d : Nat) (m : String) : HostQueue :=
  q.modifyJob j fun job =>
    { job with result := some (.failed (job.command.label ++ ": " ++ prerequisiteText (q.label d) m)) }

/-- Signal job `j`'s event with the outcome its worker found; a failure is counted first. -/
def signal (q : HostQueue) (j : Nat) (s : Status) : HostQueue :=
  let q := match s with
    | .complete => q
    | .failed _ => { q with ctx := { q.ctx with metrics := q.ctx.metrics.recordCommandFailed } }
  q.modifyJob j fun job => { job with status := Status.finish job.status s }

/-- One step of worker `w`: `none` when it is blocked on a pending prerequisite, or gone. -/
def workerStep (q : HostQueue) (w : Nat) : Option HostQueue :=
  match q.workers[w]? with
  | some .idle =>
    match q.injector with
    | j :: rest => some { q.setWorker w (.waiting j 0) with injector := rest }
    | [] => some (q.setWorker w .sawEmpty)
  | some .sawEmpty => some (q.setWorker w (if q.shutdown then .exited else .idle))
  | some (.waiting j k) =>
    match q.jobs[j]? with
    | none => none
    | some job =>
      match job.command.waits[k]? with
      | none => some ((q.run j job.command).setWorker w (.ran j))
      | some d =>
        match q.status? d with
        | none => none
        | some .complete => some (q.setWorker w (.waiting j (k + 1)))
        | some (.failed m) => some ((q.blame j d m).setWorker w (.ran j))
  | some (.ran j) =>
    match q.result? j with
    | some s => some ((q.signal j s).setWorker w (.signalled j))
    | none => none
  | some (.signalled _) => some ({ q with inFlight := q.inFlight - 1 }.setWorker w .idle)
  | some .exited | none => none

/-- The first failed event of a list once every event before it completed, `none` inside
    when all of them completed; `none` outside while an event it must look at is pending.
    This is what waiting on the events of a list in order finds. -/
def settle? (q : HostQueue) : List Nat → Option (Option (String × String))
  | [] => some none
  | e :: rest =>
    match q.status? e with
    | none => none
    | some .complete => q.settle? rest
    | some (.failed m) => some (some (q.label e, m))

/-- `l'` is `l` with some completed events dropped.  The code walks a list once and drops each
    event it finds complete, while other threads may complete events meanwhile: any occurrence
    of a completed event may go, and every occurrence of any other event stays, in order. -/
def Pruned (q : HostQueue) (l l' : List Nat) : Prop :=
  l'.Sublist l ∧
    l'.filter (fun e => q.status? e != some .complete) = l.filter (fun e => q.status? e != some .complete)

end HostQueue

/-- What the threads around a host queue may do: a worker takes a step, the program submits a
    command whose wait list names earlier events (until the queue is dropped), or the queue is
    dropped, which raises the shutdown flag. -/
inductive HostQueue.Step : HostQueue → HostQueue → Prop
  | worker {q q' : HostQueue} (w : Nat) (h : q.workerStep w = some q') : Step q q'
  | submit {q : HostQueue} (cmd : Command) (hw : ∀ d ∈ cmd.waits, d < q.jobs.size)
      (hs : q.shutdown = false) : Step q (q.submit cmd)
  | drop {q : HostQueue} : Step q { q with shutdown := true }

/-- The states a queue started with `threads` workers on `ctx` can reach. -/
inductive HostQueue.Reachable (ctx : Context) (threads : Nat) : HostQueue → Prop
  | start : Reachable ctx threads (HostQueue.start ctx threads)
  | step {q q' : HostQueue} : Reachable ctx threads q → HostQueue.Step q q' → Reachable ctx threads q'

/-- One action of a schedule: a worker's step, a submission, or the drop. -/
inductive HostQueue.Action where
  | worker (w : Nat)
  | submit (cmd : Command)
  | drop

/-- Take one action, when the code can take it: a worker that is not blocked, a submission whose
    wait list names earlier events on a live queue. -/
def HostQueue.Action.apply (q : HostQueue) : HostQueue.Action → Option HostQueue
  | .worker w => q.workerStep w
  | .submit cmd => if cmd.waits.all (· < q.jobs.size) && !q.shutdown then some (q.submit cmd) else none
  | .drop => some { q with shutdown := true }

/-- Run a schedule of actions, `none` at the first one that cannot be taken. -/
def HostQueue.runSchedule (q : HostQueue) : List HostQueue.Action → Option HostQueue
  | [] => some q
  | a :: rest => (a.apply q).bind fun q' => runSchedule q' rest

end OffloadAlgebra
