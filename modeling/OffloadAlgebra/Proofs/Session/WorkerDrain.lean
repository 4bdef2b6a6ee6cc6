import OffloadAlgebra.Proofs.Session.Drain
/-!
  The drain under worker moves.

  A worker move changes what the queue holds, not the sequential run behind it.  A steal, a look
  at a prerequisite and a release change nothing the drain reads, and a signal changes only the
  counters (`drain_signal`).  Running a job ahead of the earlier jobs that wait moves its writes
  from the drain into the memory; that changes nothing as long as no earlier waiting job
  conflicts with it (`drain_run`).  Blaming a job records in advance the failure the drain finds
  for it (`drain_blame`).
-/

namespace OffloadAlgebra

open Context

/-! ## Prerequisites -/

theorem Context.failure?_of_complete {c : Context} {d : Nat} {l : String} (h : c.events[d]? = some ⟨l, .complete⟩) :
    c.failure? d = none := by
  simp [failure?, event?, h]

theorem Context.failure?_of_failed {c : Context} {d : Nat} {l m : String} (h : c.events[d]? = some ⟨l, .failed m⟩) :
    c.failure? d = some (l, m) := by
  simp [failure?, event?, h]

/-- A wait list whose events all completed fails nothing. -/
theorem Context.firstFailure_eq_none {c : Context} {waits : List Nat} (h : ∀ d ∈ waits, c.failure? d = none) :
    c.firstFailure? waits = none :=
  List.findSome?_eq_none_iff.mpr h

/-- The first failure of a wait list is its first failed event after completed ones. -/
theorem Context.firstFailure_eq_some {c : Context} {waits : List Nat} {k d : Nat} {x : String × String}
    (hpass : ∀ d' ∈ waits.take k, c.failure? d' = none) (hk : waits[k]? = some d) (hd : c.failure? d = some x) :
    c.firstFailure? waits = some x := by
  obtain ⟨hlt, rfl⟩ := List.getElem?_eq_some_iff.mp hk
  have hw : waits = waits.take k ++ waits[k] :: waits.drop (k + 1) := by
    rw [← List.drop_eq_getElem_cons hlt, List.take_append_drop]
  rw [firstFailure?, hw, List.findSome?_append, List.findSome?_eq_none_iff.mpr hpass, Option.none_or,
    List.findSome?_cons, hd]

theorem Context.outcome_of_none {c : Context} {waits : List Nat} {work : Context → Except Fault (List (Nat × Array Float))}
    (h : c.firstFailure? waits = none) : c.outcome waits work = (work c).mapError Fault.text := by
  simp only [outcome, h]

theorem Context.outcome_of_some {c : Context} {waits : List Nat} {work : Context → Except Fault (List (Nat × Array Float))}
    {l m : String} (h : c.firstFailure? waits = some (l, m)) : c.outcome waits work = .error (prerequisiteText l m) := by
  simp only [outcome, h]
  rfl

/-! ## The drain around one job -/

theorem foldl_drain_modify_at {J : List Job} {j : Nat} {job : Job} (hj : J[j]? = some job) (f : Job → Job)
    (c : Context) :
    (J.modify j f).foldl Job.drain c = (J.drop (j + 1)).foldl Job.drain ((f job).drain ((J.take j).foldl Job.drain c)) := by
  obtain ⟨hlt, rfl⟩ := List.getElem?_eq_some_iff.mp hj
  rw [List.modify_eq_take_cons_drop hlt, List.foldl_append, List.foldl_cons]

theorem mem_take_of_getElem? {J : List Job} {j : Nat} {job : Job} (h : job ∈ J.take j) :
    ∃ i < j, J[i]? = some job := by
  obtain ⟨i, hi⟩ := List.mem_iff_getElem?.mp h
  rw [List.getElem?_take] at hi
  split at hi
  · exact ⟨i, ‹_›, hi⟩
  · cases hi

namespace HostQueue

variable {q : HostQueue}

/-- The drain of the jobs before job `j`: the sequential state job `j` starts from. -/
def drainBefore (q : HostQueue) (j : Nat) : Context :=
  (q.jobs.toList.take j).foldl Job.drain { q.ctx with events := #[] }

/-- A queue with its memory replaced and job `j` changed drains the same jobs around the new
    job `j`. -/
theorem drain_modify {j : Nat} {job : Job} (hj : q.jobs[j]? = some job) (f : Job → Job) (ctx : Context) :
    ({ q with ctx := ctx, jobs := q.jobs.modify j f } : HostQueue).drain =
      (q.jobs.toList.drop (j + 1)).foldl Job.drain
        ((f job).drain ((q.jobs.toList.take j).foldl Job.drain { ctx with events := #[] })) := by
  rw [drain_eq]
  simp only [Array.toList_modify]
  exact foldl_drain_modify_at (by rw [Array.getElem?_toList, hj]) f _

theorem drain_split {j : Nat} {job : Job} (hj : q.jobs[j]? = some job) :
    q.drain = (q.jobs.toList.drop (j + 1)).foldl Job.drain (job.drain (q.drainBefore j)) := by
  rw [drain_eq]
  exact foldl_drain_split (by rw [Array.getElem?_toList, hj]) _

/-- Every event before job `j` that ran is in the drain before `j` with its result. -/
theorem drainBefore_event {j d : Nat} (hd : d < j) {r : Status} (hr : q.result? d = some r) :
    (q.drainBefore j).events[d]? = some ⟨q.label d, r⟩ :=
  prefix_event_of_result hd hr

theorem confined_of_mem_take {j : Nat} (hconf : ∀ job ∈ q.jobs.toList, job.Confined) :
    ∀ job ∈ q.jobs.toList.take j, job.Confined :=
  fun job h => hconf job (List.mem_of_mem_take h)

theorem confined_of_mem_drop {j : Nat} (hconf : ∀ job ∈ q.jobs.toList, job.Confined) :
    ∀ job ∈ q.jobs.toList.drop j, job.Confined :=
  fun job h => hconf job (List.mem_of_mem_drop h)

/-! ## Moves that change nothing the drain reads -/

@[simp] theorem drain_setWorker (q : HostQueue) (w : Nat) (s : Worker) : (q.setWorker w s).drain = q.drain := rfl

/-- A signal changes a status and the counters, which the drain does not read. -/
theorem drain_signal (q : HostQueue) (j : Nat) (s : Status) (hconf : ∀ job ∈ q.jobs.toList, job.Confined) :
    Agree (q.signal j s).drain q.drain := by
  -- a failure is counted before the status is set
  have hsig : ∃ m, q.signal j s = { q with
      ctx := { q.ctx with metrics := m },
      jobs := q.jobs.modify j fun job => { job with status := Status.finish job.status s } } := by
    cases s <;> exact ⟨_, rfl⟩
  obtain ⟨m, hm⟩ := hsig
  rw [hm, drain_eq, drain_eq]
  simp only [Array.toList_modify]
  rw [foldl_drain_modify (g := fun job => { job with status := Status.finish job.status s }) (fun _ _ => rfl)]
  exact Agree.foldl_drain hconf ⟨rfl, fun _ => rfl, rfl⟩

/-! ## Running a job ahead of others -/

/-- Job `j` may run ahead of the jobs before it that wait: it has not run, every event it waits
    on is an earlier job that completed, no earlier waiting job conflicts with it, and every job
    that waits holds a confined command. -/
structure Ahead (q : HostQueue) (j : Nat) (job : Job) : Prop where
  found : q.jobs[j]? = some job
  waiting : job.result = none
  waits : ∀ d ∈ job.command.waits, d < j ∧ q.result? d = some .complete
  clear : ∀ i job', i < j → q.jobs[i]? = some job' → job'.result = none → ¬ job'.command.Conflicts job.command
  confined : ∀ job' ∈ q.jobs.toList, job'.Confined

namespace Ahead

variable {j : Nat} {job : Job}

theorem command_confined (h : q.Ahead j job) : job.command.Confined :=
  h.confined job (Array.mem_toList_iff.mpr (Array.mem_of_getElem? h.found)) h.waiting

/-- Each earlier job that waits is confined and does not touch what job `j` writes, nor write
    what job `j` touches. -/
theorem before {P : Command → Command → Prop} (h : q.Ahead j job)
    (hP : ∀ c, ¬ c.Conflicts job.command → P c job.command) :
    ∀ job' ∈ q.jobs.toList.take j, job'.result = none → job'.command.Confined ∧ P job'.command job.command := by
  intro job' hmem hr
  obtain ⟨i, hi, hget⟩ := mem_take_of_getElem? hmem
  rw [Array.getElem?_toList] at hget
  exact ⟨confined_of_mem_take h.confined job' hmem hr, hP _ (h.clear i job' hi hget hr)⟩

/-- Job `j`'s work sees in the drain before it what it sees in the queue's memory. -/
theorem work_eq (h : q.Ahead j job) : job.command.work (q.drainBefore j) = job.command.work q.ctx := by
  refine h.command_confined.work_congr _ _ fun k hk => ?_
  have hJ := h.before (P := fun c _ => ¬ c.Writes k) fun c hc hw => hc ⟨k, .inl ⟨hw, hk⟩⟩
  exact data_foldl_drain hJ _

theorem firstFailure_eq_none (h : q.Ahead j job) : (q.drainBefore j).firstFailure? job.command.waits = none :=
  Context.firstFailure_eq_none fun d hd =>
    Context.failure?_of_complete (drainBefore_event (h.waits d hd).1 (h.waits d hd).2)

end Ahead

theorem run_of_ok {j : Nat} {cmd : Command} {ws : List (Nat × Array Float)} (hw : cmd.work q.ctx = .ok ws) :
    ∃ f : Job → Job, (∀ job, (f job).command = job.command ∧ (f job).result = some .complete) ∧
      q.run j cmd = { q with ctx := { q.ctx.applyWrites ws with metrics := q.ctx.metrics.countCommand },
                             jobs := q.jobs.modify j f } := by
  unfold run
  rw [hw]
  -- the change to each job is read off the run itself
  refine ⟨_, ?_, rfl⟩
  exact fun _ => ⟨rfl, rfl⟩

theorem run_of_error {j : Nat} {cmd : Command} {f : Fault} (hw : cmd.work q.ctx = .error f) :
    q.run j cmd = q.modifyJob j fun job => { job with result := some (.failed (cmd.label ++ ": " ++ f.text)) } := by
  unfold run
  rw [hw]

/-- Running a job that may go ahead keeps the drain. -/
theorem drain_run {j : Nat} {job : Job} (h : q.Ahead j job) : Agree (q.run j job.command).drain q.drain := by
  have hsuffix := confined_of_mem_drop (j := j + 1) h.confined
  -- in the drain the job's wait list fails nothing, so its work decides
  have ho : (q.drainBefore j).outcome job.command.waits job.command.work =
      (job.command.work q.ctx).mapError Fault.text := by
    rw [outcome_of_none h.firstFailure_eq_none, h.work_eq]
  rw [drain_split h.found, Job.drain_of_none h.waiting]
  cases hw : job.command.work q.ctx with
  | ok ws =>
    rw [hw] at ho
    obtain ⟨f, hf, hrun⟩ := run_of_ok (j := j) hw
    rw [hrun, drain_modify h.found, Job.drain_of_result (hf job).2, (hf job).1, runCommand_of_ok ho]
    refine Agree.foldl_drain hsuffix ?_
    -- the earlier waiting jobs touch nothing the job wrote
    have hws : ∀ w ∈ ws, job.command.Writes w.1 := h.command_confined.writes _ _ hw
    have hJ := h.before (P := fun c c' => ∀ w ∈ ws, ¬ c.Touches w.1) fun c hc w hmem ht =>
      hc ⟨w.1, .inr ⟨ht, hws w hmem⟩⟩
    have hstart : Agree { { q.ctx.applyWrites ws with metrics := q.ctx.metrics.countCommand } with events := #[] }
        (({ q.ctx with events := #[] } : Context).applyWrites ws) := ⟨rfl, fun _ => rfl, rfl⟩
    have hbefore := (Agree.foldl_drain (confined_of_mem_take h.confined) hstart).trans
      (foldl_drain_applyWrites hJ _)
    refine ⟨hbefore.size, hbefore.data, ?_⟩
    dsimp only
    rw [hbefore.events]
    rfl
  | error e =>
    rw [hw] at ho
    rw [run_of_error hw, modifyJob, drain_modify h.found, Job.drain_of_result rfl, runCommand_of_error ho]
    exact Agree.foldl_drain hsuffix ⟨rfl, fun _ => rfl, rfl⟩

/-- Blaming a job on its first failed prerequisite records the failure the drain finds for it. -/
theorem drain_blame {j k d : Nat} {job : Job} {m : String} (hj : q.jobs[j]? = some job) (hr : job.result = none)
    (hconf : ∀ job' ∈ q.jobs.toList, job'.Confined)
    (hpass : ∀ d' ∈ job.command.waits.take k, d' < j ∧ q.result? d' = some .complete)
    (hk : job.command.waits[k]? = some d) (hd : d < j) (hfail : q.result? d = some (.failed m)) :
    Agree (q.blame j d m).drain q.drain := by
  have hff : (q.drainBefore j).firstFailure? job.command.waits = some (q.label d, m) :=
    Context.firstFailure_eq_some
      (fun d' hd' => Context.failure?_of_complete (drainBefore_event (hpass d' hd').1 (hpass d' hd').2)) hk
      (Context.failure?_of_failed (drainBefore_event hd hfail))
  rw [drain_split hj, Job.drain_of_none hr, runCommand_of_error (outcome_of_some hff),
    blame, modifyJob, drain_modify hj, Job.drain_of_result rfl]
  exact Agree.foldl_drain (confined_of_mem_drop hconf) ⟨rfl, fun _ => rfl, rfl⟩

end HostQueue

end OffloadAlgebra
