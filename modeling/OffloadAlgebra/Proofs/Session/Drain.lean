import OffloadAlgebra.Proofs.Session.Memory
import OffloadAlgebra.Proofs.HostQueue.Basic
/-!
  The sequential state behind a host queue.

  At any moment some submitted jobs ran and the others wait.  `HostQueue.drain` runs the waiting
  ones on the queue's memory, one at a time in submission order, the way the sequential context
  runs a command, and records each job that ran with its result.  It is what the sequential run
  holds after the same submissions.

  This file gives the drain's laws over lists of jobs: it records one event per job, the result
  of each job that ran (`events_foldl_drain`); it keeps agreeing contexts agreeing
  (`Agree.foldl_drain`); and it commutes with writes that no waiting job touches
  (`foldl_drain_applyWrites`), which is what lets a worker run a job ahead of earlier ones it does
  not conflict with.
-/

namespace OffloadAlgebra

/-- One job of the drain: a job that ran is recorded with its result; one that has not runs as
    the sequential context runs a command. -/
def Job.drain (ctx : Context) (job : Job) : Context :=
  match job.result with
  | some r => { ctx with events := ctx.events.push ⟨job.command.label, r⟩ }
  | none => ctx.runCommand job.command.label job.command.waits job.command.work

/-- The queue's memory with the jobs that have not run yet run in submission order. -/
def HostQueue.drain (q : HostQueue) : Context := q.jobs.foldl Job.drain { q.ctx with events := #[] }

namespace Job

theorem drain_of_result {job : Job} {r : Status} (hr : job.result = some r) (ctx : Context) :
    job.drain ctx = { ctx with events := ctx.events.push ⟨job.command.label, r⟩ } := by
  simp only [drain, hr]

theorem drain_of_none {job : Job} (hr : job.result = none) (ctx : Context) :
    job.drain ctx = ctx.runCommand job.command.label job.command.waits job.command.work := by
  simp only [drain, hr]

/-- The drain of a job appends one event under its label. -/
theorem events_drain (ctx : Context) (job : Job) :
    ∃ s, (job.drain ctx).events = ctx.events.push ⟨job.command.label, s⟩ ∧ ∀ r, job.result = some r → s = r := by
  cases hr : job.result with
  | some r =>
    rw [drain_of_result hr]
    exact ⟨r, rfl, fun r' h => Option.some.inj h⟩
  | none =>
    rw [drain_of_none hr, Context.events_runCommand]
    exact ⟨_, rfl, fun _ h => nomatch h⟩

theorem size_drain (ctx : Context) (job : Job) : (job.drain ctx).matrices.size = ctx.matrices.size := by
  cases hr : job.result with
  | some r => rw [drain_of_result hr]
  | none =>
    rw [drain_of_none hr]
    cases ho : ctx.outcome job.command.waits job.command.work with
    | ok ws =>
      rw [Context.runCommand_of_ok ho]
      exact Context.size_applyWrites ctx ws
    | error m => rw [Context.runCommand_of_error ho]

/-- A job that has not run holds a confined command. -/
def Confined (job : Job) : Prop := job.result = none → job.command.Confined

end Job

open Context

/-! ## Events -/

/-- The drain of a list of jobs keeps the events it started from. -/
theorem events_foldl_drain_lt (J : List Job) (c : Context) {k : Nat} (hk : k < c.events.size) :
    (J.foldl Job.drain c).events[k]? = c.events[k]? := by
  induction J generalizing c with
  | nil => rfl
  | cons job J ih =>
    obtain ⟨s, hs, -⟩ := Job.events_drain c job
    have hk' : k < (job.drain c).events.size := by rw [hs, Array.size_push]; omega
    rw [List.foldl_cons, ih _ hk', hs, Array.getElem?_push_lt hk, Array.getElem?_eq_getElem hk]

theorem size_events_foldl_drain (J : List Job) (c : Context) :
    (J.foldl Job.drain c).events.size = c.events.size + J.length := by
  induction J generalizing c with
  | nil => rfl
  | cons job J ih =>
    obtain ⟨s, hs, -⟩ := Job.events_drain c job
    rw [List.foldl_cons, ih, hs, Array.size_push, List.length_cons]
    omega

/-- The drain records each job that ran with its result, at the job's place. -/
theorem events_foldl_drain (J : List Job) (c : Context) {i : Nat} {job : Job} (hi : J[i]? = some job)
    {r : Status} (hr : job.result = some r) :
    (J.foldl Job.drain c).events[c.events.size + i]? = some ⟨job.command.label, r⟩ := by
  induction J generalizing c i with
  | nil => cases hi
  | cons job' J ih =>
    obtain ⟨s, hs, hsr⟩ := Job.events_drain c job'
    rw [List.foldl_cons]
    cases i with
    | zero =>
      simp only [List.getElem?_cons_zero, Option.some.injEq] at hi
      subst hi
      rw [events_foldl_drain_lt _ _ (by rw [hs, Array.size_push]; omega), hs, hsr r hr]
      simp
    | succ i =>
      have h := ih (job'.drain c) hi
      rwa [hs, Array.size_push, Nat.add_right_comm] at h

/-! ## Agreeing contexts -/

theorem Context.Agree.pushEvent {c₁ c₂ : Context} (h : Agree c₁ c₂) (e : Event) :
    Agree { c₁ with events := c₁.events.push e } { c₂ with events := c₂.events.push e } :=
  ⟨h.size, h.data, by simp [h.events]⟩

theorem Context.Agree.drain {c₁ c₂ : Context} (h : Agree c₁ c₂) {job : Job} (hc : job.Confined) :
    Agree (job.drain c₁) (job.drain c₂) := by
  cases hr : job.result with
  | some r =>
    rw [Job.drain_of_result hr, Job.drain_of_result hr]
    exact h.pushEvent _
  | none =>
    rw [Job.drain_of_none hr, Job.drain_of_none hr]
    exact h.runCommand _ (firstFailure_congr h.events _) (h.work (hc hr))

/-- The drain keeps agreeing contexts agreeing. -/
theorem Context.Agree.foldl_drain {J : List Job} (hJ : ∀ job ∈ J, job.Confined) {c₁ c₂ : Context} (h : Agree c₁ c₂) :
    Agree (J.foldl Job.drain c₁) (J.foldl Job.drain c₂) := by
  induction J generalizing c₁ c₂ with
  | nil => exact h
  | cons job J ih =>
    exact ih (fun j hj => hJ j (List.mem_cons_of_mem _ hj)) (h.drain (hJ job List.mem_cons_self))

/-! ## Memory -/

theorem size_foldl_drain (J : List Job) (c : Context) : (J.foldl Job.drain c).matrices.size = c.matrices.size := by
  induction J generalizing c with
  | nil => rfl
  | cons job J ih => rw [List.foldl_cons, ih, Job.size_drain]

/-- A matrix that no waiting job writes keeps its contents through the drain. -/
theorem data_foldl_drain {J : List Job} {h : Nat}
    (hJ : ∀ job ∈ J, job.result = none → job.command.Confined ∧ ¬ job.command.Writes h) (c : Context) :
    ((J.foldl Job.drain c).matrix h).data = (c.matrix h).data := by
  induction J generalizing c with
  | nil => rfl
  | cons job J ih =>
    rw [List.foldl_cons, ih (fun j hj => hJ j (List.mem_cons_of_mem _ hj))]
    cases hr : job.result with
    | some r => rw [Job.drain_of_result hr]; rfl
    | none =>
      obtain ⟨hc, hw⟩ := hJ job List.mem_cons_self hr
      rw [Job.drain_of_none hr]
      cases ho : c.outcome job.command.waits job.command.work with
      | ok ws =>
        rw [runCommand_of_ok ho]
        show ((c.applyWrites ws).matrix h).data = (c.matrix h).data
        -- the writes of a command go to matrices it writes, so not to `h`
        have hws : ∀ w ∈ ws, w.1 ≠ h := fun w hmem he => hw (he ▸ writes_of_outcome hc ho w hmem)
        rw [matrix_applyWrites_of_not_mem hws]
      | error m => rw [runCommand_of_error ho]; rfl

/-- A job recorded or run on memory it does not touch commutes with writes to that memory. -/
theorem drain_applyWrites {job : Job} {ws : List (Nat × Array Float)}
    (hj : job.result = none → job.command.Confined ∧ ∀ w ∈ ws, ¬ job.command.Touches w.1) (c : Context) :
    Agree (job.drain (c.applyWrites ws)) ((job.drain c).applyWrites ws) := by
  cases hr : job.result with
  | some r =>
    rw [Job.drain_of_result hr, Job.drain_of_result hr]
    exact ⟨by simp, fun k => rfl, rfl⟩
  | none =>
    obtain ⟨hc, hws⟩ := hj hr
    rw [Job.drain_of_none hr, Job.drain_of_none hr]
    exact runCommand_applyWrites hc hws c

/-- The drain of jobs that touch none of the written matrices commutes with the writes. -/
theorem foldl_drain_applyWrites {J : List Job} {ws : List (Nat × Array Float)}
    (hJ : ∀ job ∈ J, job.result = none → job.command.Confined ∧ ∀ w ∈ ws, ¬ job.command.Touches w.1)
    (c : Context) : Agree (J.foldl Job.drain (c.applyWrites ws)) ((J.foldl Job.drain c).applyWrites ws) := by
  induction J generalizing c with
  | nil => exact Agree.refl _
  | cons job J ih =>
    have hJ' : ∀ j ∈ J, j.Confined := fun j hj hr => (hJ j (List.mem_cons_of_mem _ hj) hr).1
    rw [List.foldl_cons, List.foldl_cons]
    exact (Agree.foldl_drain hJ' (drain_applyWrites (hJ job List.mem_cons_self) c)).trans
      (ih (fun j hj => hJ j (List.mem_cons_of_mem _ hj)) _)

/-- The drain of a list of jobs around its `j`-th one. -/
theorem foldl_drain_split {J : List Job} {j : Nat} {job : Job} (hj : J[j]? = some job) (c : Context) :
    J.foldl Job.drain c = (J.drop (j + 1)).foldl Job.drain (job.drain ((J.take j).foldl Job.drain c)) := by
  obtain ⟨hlt, rfl⟩ := List.getElem?_eq_some_iff.mp hj
  conv => lhs; rw [← List.take_append_drop j J, List.drop_eq_getElem_cons hlt]
  rw [List.foldl_append, List.foldl_cons]

/-- Changing a job in a way the drain does not see leaves the drain as it was. -/
theorem foldl_drain_modify {g : Job → Job} (hg : ∀ c job, (g job).drain c = job.drain c) (J : List Job) (j : Nat)
    (c : Context) : (J.modify j g).foldl Job.drain c = J.foldl Job.drain c := by
  induction J generalizing j c with
  | nil => simp
  | cons job J ih =>
    cases j with
    | zero => rw [List.modify_zero_cons, List.foldl_cons, List.foldl_cons, hg]
    | succ j => rw [List.modify_succ_cons, List.foldl_cons, List.foldl_cons, ih]

/-- A job on matrices below the last commutes with a new matrix. -/
theorem drain_pushMatrix {job : Job} {c : Context}
    (hj : job.result = none → job.command.Confined ∧ ∀ h, job.command.Touches h → h < c.matrices.size)
    (m : DeviceMatrix) : Agree (job.drain (c.pushMatrix m)) ((job.drain c).pushMatrix m) := by
  cases hr : job.result with
  | some r =>
    rw [Job.drain_of_result hr, Job.drain_of_result hr]
    exact Agree.refl _
  | none =>
    obtain ⟨hc, ht⟩ := hj hr
    rw [Job.drain_of_none hr, Job.drain_of_none hr]
    exact runCommand_pushMatrix hc ht m

/-- A new matrix that no waiting job touches stays as it was through the drain. -/
theorem foldl_drain_pushMatrix {J : List Job} {c : Context}
    (hJ : ∀ job ∈ J, job.result = none → job.command.Confined ∧ ∀ h, job.command.Touches h → h < c.matrices.size)
    (m : DeviceMatrix) : Agree (J.foldl Job.drain (c.pushMatrix m)) ((J.foldl Job.drain c).pushMatrix m) := by
  induction J generalizing c with
  | nil => exact Agree.refl _
  | cons job J ih =>
    rw [List.foldl_cons, List.foldl_cons]
    have hJ' : ∀ j ∈ J, j.result = none →
        j.command.Confined ∧ ∀ h, j.command.Touches h → h < (job.drain c).matrices.size :=
      fun j hj hr => by
        rw [Job.size_drain]
        exact hJ j (List.mem_cons_of_mem _ hj) hr
    exact (Agree.foldl_drain (fun j hj hr => (hJ j (List.mem_cons_of_mem _ hj) hr).1)
      (drain_pushMatrix (hJ job List.mem_cons_self) m)).trans (ih hJ')

namespace HostQueue

theorem drain_eq (q : HostQueue) : q.drain = q.jobs.toList.foldl Job.drain { q.ctx with events := #[] } := by
  rw [drain, Array.foldl_toList]

theorem size_drain (q : HostQueue) : q.drain.matrices.size = q.ctx.matrices.size := by
  rw [drain_eq, size_foldl_drain]

theorem size_events_drain (q : HostQueue) : q.drain.events.size = q.jobs.size := by
  rw [drain_eq, size_events_foldl_drain]
  simp

theorem result?_eq_some {q : HostQueue} {d : Nat} {r : Status} (h : q.result? d = some r) :
    ∃ job, q.jobs[d]? = some job ∧ job.result = some r := by
  simpa only [result?, Option.bind_eq_some_iff] using h

theorem label_of_jobs {q : HostQueue} {d : Nat} {job : Job} (h : q.jobs[d]? = some job) :
    q.label d = job.command.label := by
  simp [label, h]

/-- The drain records a job that ran with its result. -/
theorem drain_event_of_result {q : HostQueue} {d : Nat} {r : Status} (hr : q.result? d = some r) :
    q.drain.events[d]? = some ⟨q.label d, r⟩ := by
  obtain ⟨job, hjob, hres⟩ := result?_eq_some hr
  have hd : q.jobs.toList[d]? = some job := by rw [Array.getElem?_toList, hjob]
  have h := events_foldl_drain q.jobs.toList { q.ctx with events := #[] } hd hres
  rw [label_of_jobs hjob, drain_eq]
  simpa using h

/-- The drain of the jobs before `j` records each of those that ran with its result. -/
theorem prefix_event_of_result {q : HostQueue} {j d : Nat} (hd : d < j) {r : Status} (hr : q.result? d = some r) :
    ((q.jobs.toList.take j).foldl Job.drain { q.ctx with events := #[] }).events[d]? = some ⟨q.label d, r⟩ := by
  obtain ⟨job, hjob, hres⟩ := result?_eq_some hr
  have hd' : (q.jobs.toList.take j)[d]? = some job := by
    rw [List.getElem?_take, if_pos hd, Array.getElem?_toList, hjob]
  have h := events_foldl_drain (q.jobs.toList.take j) { q.ctx with events := #[] } hd' hres
  rw [label_of_jobs hjob]
  simpa using h

theorem drain_submit (q : HostQueue) (cmd : Command) :
    (q.submit cmd).drain = q.drain.runCommand cmd.label cmd.waits cmd.work := by
  simp only [drain, submit_jobs, submit_ctx, Array.foldl_push]
  rfl

/-- The drain sees only the memory of the queue's context, and the jobs. -/
theorem drain_agree {q q' : HostQueue} (hjobs : q'.jobs = q.jobs) (hsize : q'.ctx.matrices.size = q.ctx.matrices.size)
    (hdata : ∀ h, (q'.ctx.matrix h).data = (q.ctx.matrix h).data) (hconf : ∀ job ∈ q.jobs.toList, job.Confined) :
    Agree q'.drain q.drain := by
  rw [drain_eq, drain_eq, hjobs]
  exact Agree.foldl_drain hconf ⟨hsize, hdata, rfl⟩

/-- A matrix no waiting job writes holds in the drain what it holds in the queue's memory. -/
theorem data_drain {q : HostQueue} {h : Nat}
    (hJ : ∀ job ∈ q.jobs.toList, job.result = none → job.command.Confined ∧ ¬ job.command.Writes h) :
    (q.drain.matrix h).data = (q.ctx.matrix h).data := by
  rw [drain_eq, data_foldl_drain hJ]
  rfl

end HostQueue

end OffloadAlgebra
