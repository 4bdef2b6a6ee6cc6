import OffloadAlgebra.Device.HostQueue
/-!
  The host queue's operations, field by field, and what one worker step can do.

  Every operation of `HostQueue` changes few fields, and the lemmas below say which, so that
  later proofs never unfold an operation: `submit` appends a job, `run` and `blame` set one
  job's `result`, `signal` sets one job's `status`, `setWorker` moves one worker.  The status
  of an event changes only at a signal and only from pending (`status?_signal`): the first
  terminal status an event gets is the one it keeps.

  `WorkerMove` lists the eight things a worker step can be, each with the guard the code
  checks, and `workerStep_eq_some` says that a step is one of them.  Invariants of the queue
  are proved by a case split over these moves, never over the step function itself.
-/

namespace OffloadAlgebra.HostQueue

/-! ## Fields of the queue operations -/

section Fields

variable (q : HostQueue)

@[simp] theorem setWorker_jobs (w : Nat) (s : Worker) : (q.setWorker w s).jobs = q.jobs := rfl
@[simp] theorem setWorker_injector (w : Nat) (s : Worker) : (q.setWorker w s).injector = q.injector := rfl
@[simp] theorem setWorker_workers (w : Nat) (s : Worker) : (q.setWorker w s).workers = q.workers.set w s := rfl
@[simp] theorem setWorker_inFlight (w : Nat) (s : Worker) : (q.setWorker w s).inFlight = q.inFlight := rfl
@[simp] theorem setWorker_shutdown (w : Nat) (s : Worker) : (q.setWorker w s).shutdown = q.shutdown := rfl
@[simp] theorem setWorker_ctx (w : Nat) (s : Worker) : (q.setWorker w s).ctx = q.ctx := rfl

@[simp] theorem modifyJob_jobs (j : Nat) (f : Job → Job) : (q.modifyJob j f).jobs = q.jobs.modify j f := rfl
@[simp] theorem modifyJob_injector (j : Nat) (f : Job → Job) : (q.modifyJob j f).injector = q.injector := rfl
@[simp] theorem modifyJob_workers (j : Nat) (f : Job → Job) : (q.modifyJob j f).workers = q.workers := rfl
@[simp] theorem modifyJob_inFlight (j : Nat) (f : Job → Job) : (q.modifyJob j f).inFlight = q.inFlight := rfl
@[simp] theorem modifyJob_shutdown (j : Nat) (f : Job → Job) : (q.modifyJob j f).shutdown = q.shutdown := rfl
@[simp] theorem modifyJob_ctx (j : Nat) (f : Job → Job) : (q.modifyJob j f).ctx = q.ctx := rfl

@[simp] theorem submit_jobs (cmd : Command) : (q.submit cmd).jobs = q.jobs.push { command := cmd } := rfl
@[simp] theorem submit_injector (cmd : Command) : (q.submit cmd).injector = q.injector ++ [q.jobs.size] := rfl
@[simp] theorem submit_workers (cmd : Command) : (q.submit cmd).workers = q.workers := rfl
@[simp] theorem submit_inFlight (cmd : Command) : (q.submit cmd).inFlight = q.inFlight + 1 := rfl
@[simp] theorem submit_shutdown (cmd : Command) : (q.submit cmd).shutdown = q.shutdown := rfl
@[simp] theorem submit_ctx (cmd : Command) : (q.submit cmd).ctx = q.ctx := rfl

/-- Running a job changes the memory and that one job, giving it a result and keeping its
    command and status. -/
theorem run_eq (j : Nat) (cmd : Command) :
    ∃ ctx' f, (∀ job, (f job).command = job.command ∧ (f job).status = job.status ∧ (f job).result ≠ none) ∧
      q.run j cmd = { q with ctx := ctx', jobs := q.jobs.modify j f } := by
  unfold run
  split
  all_goals
    refine ⟨_, _, ?_, rfl⟩
    intro job
    exact ⟨rfl, rfl, by simp⟩

@[simp] theorem run_injector (j : Nat) (cmd : Command) : (q.run j cmd).injector = q.injector := by
  obtain ⟨_, _, _, h⟩ := q.run_eq j cmd; rw [h]
@[simp] theorem run_workers (j : Nat) (cmd : Command) : (q.run j cmd).workers = q.workers := by
  obtain ⟨_, _, _, h⟩ := q.run_eq j cmd; rw [h]
@[simp] theorem run_inFlight (j : Nat) (cmd : Command) : (q.run j cmd).inFlight = q.inFlight := by
  obtain ⟨_, _, _, h⟩ := q.run_eq j cmd; rw [h]
@[simp] theorem run_shutdown (j : Nat) (cmd : Command) : (q.run j cmd).shutdown = q.shutdown := by
  obtain ⟨_, _, _, h⟩ := q.run_eq j cmd; rw [h]
@[simp] theorem run_size (j : Nat) (cmd : Command) : (q.run j cmd).jobs.size = q.jobs.size := by
  obtain ⟨_, _, _, h⟩ := q.run_eq j cmd; rw [h]; simp

theorem blame_jobs (j d : Nat) (m : String) :
    (q.blame j d m).jobs = q.jobs.modify j fun job =>
      { job with result := some (.failed (job.command.label ++ ": " ++ prerequisiteText (q.label d) m)) } := rfl
@[simp] theorem blame_injector (j d : Nat) (m : String) : (q.blame j d m).injector = q.injector := rfl
@[simp] theorem blame_workers (j d : Nat) (m : String) : (q.blame j d m).workers = q.workers := rfl
@[simp] theorem blame_inFlight (j d : Nat) (m : String) : (q.blame j d m).inFlight = q.inFlight := rfl
@[simp] theorem blame_shutdown (j d : Nat) (m : String) : (q.blame j d m).shutdown = q.shutdown := rfl
@[simp] theorem blame_ctx (j d : Nat) (m : String) : (q.blame j d m).ctx = q.ctx := rfl
@[simp] theorem blame_size (j d : Nat) (m : String) : (q.blame j d m).jobs.size = q.jobs.size := by
  simp [blame]

/-- A signal changes that job's `status` and, for a failure, the failed-command counter. -/
theorem signal_eq (j : Nat) (s : Status) :
    ∃ ctx', q.signal j s =
      { q with ctx := ctx', jobs := q.jobs.modify j fun job => { job with status := Status.finish job.status s } } := by
  unfold signal
  cases s <;> exact ⟨_, rfl⟩

@[simp] theorem signal_injector (j : Nat) (s : Status) : (q.signal j s).injector = q.injector := by
  obtain ⟨_, h⟩ := q.signal_eq j s; rw [h]
@[simp] theorem signal_workers (j : Nat) (s : Status) : (q.signal j s).workers = q.workers := by
  obtain ⟨_, h⟩ := q.signal_eq j s; rw [h]
@[simp] theorem signal_inFlight (j : Nat) (s : Status) : (q.signal j s).inFlight = q.inFlight := by
  obtain ⟨_, h⟩ := q.signal_eq j s; rw [h]
@[simp] theorem signal_shutdown (j : Nat) (s : Status) : (q.signal j s).shutdown = q.shutdown := by
  obtain ⟨_, h⟩ := q.signal_eq j s; rw [h]
@[simp] theorem signal_size (j : Nat) (s : Status) : (q.signal j s).jobs.size = q.jobs.size := by
  obtain ⟨_, h⟩ := q.signal_eq j s; rw [h]; simp

end Fields

/-! ## Events: status, result and label -/

section Events

variable (q : HostQueue)

@[simp] theorem status?_setWorker (w : Nat) (s : Worker) (e : Nat) :
    (q.setWorker w s).status? e = q.status? e := rfl
@[simp] theorem result?_setWorker (w : Nat) (s : Worker) (e : Nat) :
    (q.setWorker w s).result? e = q.result? e := rfl
@[simp] theorem label_setWorker (w : Nat) (s : Worker) (e : Nat) :
    (q.setWorker w s).label e = q.label e := rfl

theorem status?_submit (cmd : Command) (e : Nat) :
    (q.submit cmd).status? e = if e = q.jobs.size then none else q.status? e := by
  simp only [status?, submit_jobs, Array.getElem?_push]
  split <;> rfl

theorem result?_submit (cmd : Command) (e : Nat) :
    (q.submit cmd).result? e = if e = q.jobs.size then none else q.result? e := by
  simp only [result?, submit_jobs, Array.getElem?_push]
  split <;> rfl

theorem label_submit (cmd : Command) (e : Nat) :
    (q.submit cmd).label e = if e = q.jobs.size then cmd.label else q.label e := by
  simp only [label, submit_jobs, Array.getElem?_push]
  split <;> rfl

/-- A change of one job that keeps its status keeps every event's status. -/
theorem status?_of_modify {q' : HostQueue} {j : Nat} {f : Job → Job} (hq : q'.jobs = q.jobs.modify j f)
    (hf : ∀ job, (f job).status = job.status) (e : Nat) : q'.status? e = q.status? e := by
  simp only [status?, hq, Array.getElem?_modify]
  split
  · cases q.jobs[e]? <;> simp [hf]
  · rfl

/-- A change of one job that keeps its command keeps every event's label. -/
theorem label_of_modify {q' : HostQueue} {j : Nat} {f : Job → Job} (hq : q'.jobs = q.jobs.modify j f)
    (hf : ∀ job, (f job).command = job.command) (e : Nat) : q'.label e = q.label e := by
  simp only [label, hq, Array.getElem?_modify]
  split
  · cases q.jobs[e]? <;> simp [hf]
  · rfl

/-- A change of one job that keeps its result keeps every job's result. -/
theorem result?_of_modify {q' : HostQueue} {j : Nat} {f : Job → Job} (hq : q'.jobs = q.jobs.modify j f)
    (hf : ∀ job, (f job).result = job.result) (e : Nat) : q'.result? e = q.result? e := by
  simp only [result?, hq, Array.getElem?_modify]
  split
  · cases q.jobs[e]? <;> simp [hf]
  · rfl

theorem result?_of_modify_ne {q' : HostQueue} {j : Nat} {f : Job → Job} (hq : q'.jobs = q.jobs.modify j f)
    {e : Nat} (he : j ≠ e) : q'.result? e = q.result? e := by
  simp [result?, hq, Array.getElem?_modify, he]

@[simp] theorem status?_run (j : Nat) (cmd : Command) (e : Nat) : (q.run j cmd).status? e = q.status? e := by
  obtain ⟨_, _, hf, h⟩ := q.run_eq j cmd
  exact status?_of_modify q (by rw [h]) (fun job => (hf job).2.1) e

@[simp] theorem label_run (j : Nat) (cmd : Command) (e : Nat) : (q.run j cmd).label e = q.label e := by
  obtain ⟨_, _, hf, h⟩ := q.run_eq j cmd
  exact label_of_modify q (by rw [h]) (fun job => (hf job).1) e

theorem result?_run_ne (j : Nat) (cmd : Command) {e : Nat} (he : j ≠ e) :
    (q.run j cmd).result? e = q.result? e := by
  obtain ⟨_, _, _, h⟩ := q.run_eq j cmd
  exact result?_of_modify_ne q (by rw [h]) he

/-- A run gives its job the work's outcome: complete on success, the fault's text otherwise. -/
theorem result?_run (j : Nat) (cmd : Command) (hj : j < q.jobs.size) :
    (q.run j cmd).result? j = some (match cmd.work q.ctx with
      | .ok _ => .complete
      | .error f => .failed (cmd.label ++ ": " ++ f.text)) := by
  unfold run
  split <;> simp [result?, modifyJob, Array.getElem_modify, *]

/-- After its run, a job has a result. -/
theorem result?_run_self (j : Nat) (cmd : Command) (hj : j < q.jobs.size) :
    (q.run j cmd).result? j ≠ none := by
  rw [q.result?_run j cmd hj]
  exact Option.some_ne_none _

@[simp] theorem status?_blame (j d : Nat) (m : String) (e : Nat) :
    (q.blame j d m).status? e = q.status? e :=
  status?_of_modify q (q.blame_jobs j d m) (by intro; rfl) e

@[simp] theorem label_blame (j d : Nat) (m : String) (e : Nat) : (q.blame j d m).label e = q.label e :=
  label_of_modify q (q.blame_jobs j d m) (by intro; rfl) e

/-- Blaming job `j` gives it the failure that names the prerequisite and its message. -/
theorem result?_blame (j d : Nat) (m : String) (e : Nat) :
    (q.blame j d m).result? e =
      if j = e then (q.jobs[e]?).map fun job =>
        Status.failed (job.command.label ++ ": " ++ prerequisiteText (q.label d) m)
      else q.result? e := by
  simp only [result?, blame, modifyJob_jobs, Array.getElem?_modify]
  split
  · cases q.jobs[e]? <;> rfl
  · rfl

/-- A signal finishes its own event, if that event exists, and no other. -/
theorem status?_signal (j : Nat) (s : Status) (e : Nat) :
    (q.signal j s).status? e =
      if j = e ∧ e < q.jobs.size then Status.finish (q.status? e) s else q.status? e := by
  obtain ⟨_, h⟩ := q.signal_eq j s
  rw [h]
  simp only [status?, Array.getElem?_modify]
  by_cases hj : j = e
  · subst hj
    by_cases he : j < q.jobs.size
    · simp [he]
    · simp [he]
  · simp [hj]

@[simp] theorem result?_signal (j : Nat) (s : Status) (e : Nat) : (q.signal j s).result? e = q.result? e := by
  obtain ⟨_, h⟩ := q.signal_eq j s
  exact result?_of_modify q (by rw [h]) (by intro; rfl) e

@[simp] theorem label_signal (j : Nat) (s : Status) (e : Nat) : (q.signal j s).label e = q.label e := by
  obtain ⟨_, h⟩ := q.signal_eq j s
  exact label_of_modify q (by rw [h]) (by intro; rfl) e

/-- A signal on an event that already ended leaves it as it is. -/
@[simp] theorem finish_some (c s : Status) : Status.finish (some c) s = some c := rfl

@[simp] theorem finish_none (s : Status) : Status.finish none s = some s := rfl

end Events

/-! ## What a worker step can do -/

/-- The eight moves of a worker, each with the guard under which the code makes it. -/
inductive WorkerMove (q : HostQueue) (w : Nat) : HostQueue → Prop
  /-- An idle worker steals the oldest command. -/
  | steal {j : Nat} {rest : List Nat} (hw : q.workers[w]? = some .idle) (hi : q.injector = j :: rest) :
      WorkerMove q w { q.setWorker w (.waiting j 0) with injector := rest }
  /-- An idle worker finds the injector empty. -/
  | empty (hw : q.workers[w]? = some .idle) (hi : q.injector = []) : WorkerMove q w (q.setWorker w .sawEmpty)
  /-- After an empty steal the worker reads the shutdown flag: it leaves or loops. -/
  | poll (hw : q.workers[w]? = some .sawEmpty) :
      WorkerMove q w (q.setWorker w (if q.shutdown then .exited else .idle))
  /-- The wait list is passed: the work runs. -/
  | run {j k : Nat} {job : Job} (hw : q.workers[w]? = some (.waiting j k)) (hj : q.jobs[j]? = some job)
      (hk : job.command.waits[k]? = none) : WorkerMove q w ((q.run j job.command).setWorker w (.ran j))
  /-- The next prerequisite completed: the worker moves past it. -/
  | pass {j k d : Nat} {job : Job} (hw : q.workers[w]? = some (.waiting j k)) (hj : q.jobs[j]? = some job)
      (hk : job.command.waits[k]? = some d) (hd : q.status? d = some .complete) :
      WorkerMove q w (q.setWorker w (.waiting j (k + 1)))
  /-- The next prerequisite failed: the job fails, blaming it. -/
  | fail {j k d : Nat} {job : Job} {m : String} (hw : q.workers[w]? = some (.waiting j k))
      (hj : q.jobs[j]? = some job) (hk : job.command.waits[k]? = some d) (hd : q.status? d = some (.failed m)) :
      WorkerMove q w ((q.blame j d m).setWorker w (.ran j))
  /-- The outcome is signalled on the job's event. -/
  | signal {j : Nat} {s : Status} (hw : q.workers[w]? = some (.ran j)) (hr : q.result? j = some s) :
      WorkerMove q w ((q.signal j s).setWorker w (.signalled j))
  /-- The in-flight count is decremented and the worker is idle again. -/
  | release {j : Nat} (hw : q.workers[w]? = some (.signalled j)) :
      WorkerMove q w ({ q with inFlight := q.inFlight - 1 }.setWorker w .idle)

/-- Every worker step is one of the eight moves. -/
theorem workerStep_eq_some {q q' : HostQueue} {w : Nat} (h : q.workerStep w = some q') : WorkerMove q w q' := by
  unfold workerStep at h
  split at h
  · rename_i hw
    split at h
    · rename_i j rest hi
      cases h; exact .steal hw hi
    · rename_i hi
      cases h; exact .empty hw hi
  · rename_i hw
    cases h; exact .poll hw
  · rename_i j k hw
    split at h
    · cases h
    · rename_i job hj
      split at h
      · rename_i hk
        cases h; exact .run hw hj hk
      · rename_i d hk
        split at h
        · cases h
        · rename_i hd
          cases h; exact .pass hw hj hk hd
        · rename_i m hd
          cases h; exact .fail hw hj hk hd
  · rename_i j hw
    split at h
    · rename_i s hr
      cases h; exact .signal hw hr
    · cases h
  · rename_i j hw
    cases h; exact .release hw
  all_goals cases h

end OffloadAlgebra.HostQueue
