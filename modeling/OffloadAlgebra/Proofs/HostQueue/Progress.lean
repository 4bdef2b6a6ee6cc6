import OffloadAlgebra.Proofs.HostQueue.Layout
/-!
  Progress of the host queue, and where it stops.

  While the queue is live (not dropped) it is never stuck.  The argument is the FIFO one:
  follow a held job to a pending prerequisite, and on to ITS pending prerequisite, and so on.
  Each step goes to an older job, and a pending job older than the stolen boundary must be held
  (an older job nobody holds is finished), so the walk ends at a held job whose prerequisites
  all have a status (`exists_ready_of_held`).  A worker holding such a job can always move
  (`workerStep_ready`).  With nothing held, a pending job is queued, and every worker is free
  to steal it (`progress`).

  The in-flight count counts the queued and held jobs, so when it reaches zero every event has
  a status (`status_of_inFlight_eq_zero`): the drained-wait returns only after everything
  submitted before it ended.  `live_queue_progress` gathers these facts (`LiveProgress`) for
  every state a schedule reaches before the drop.

  Dropping the queue is where it stops.  A worker that saw an empty injector reads the shutdown
  flag in a separate step; a submission and the drop can both land in between, and the worker
  then leaves with the new job queued.  `drop_strands_job` runs that schedule with one worker:
  the drop returns with the worker gone, the job queued, its event pending and the in-flight
  count at one, and no step of any worker is left.
-/

namespace OffloadAlgebra.HostQueue

variable {n : Nat} {q : HostQueue}

/-- Every prerequisite of job `j` has a status. -/
def Ready (q : HostQueue) (j : Nat) : Prop :=
  ∃ cmd, q.command? j = some cmd ∧ ∀ d ∈ cmd.waits, q.status? d ≠ none

/-- A pending job older than the stolen boundary is held by some worker. -/
theorem Layout.held_of_pending (hL : q.Layout n) {j : Nat} (hj : j < q.taken) (hs : q.status? j = none) :
    ∃ v, q.holder v = some j := by
  refine Classical.byContradiction fun h => hL.finished j hj (fun v hv => h ⟨v, hv⟩) hs

/-- Walking from a held job along pending prerequisites ends at a held job that is ready. -/
theorem Layout.exists_ready_of_held (hL : q.Layout n) :
    ∀ j, (∃ v, q.holder v = some j) → ∃ v i, q.holder v = some i ∧ q.Ready i := by
  intro j
  induction j using Nat.strongRecOn with
  | _ j ih =>
    rintro ⟨v, hv⟩
    have hlt := hL.held_lt v j hv
    obtain ⟨cmd, hcmd⟩ : ∃ cmd, q.command? j = some cmd :=
      Option.isSome_iff_exists.mp ((q.command?_isSome_iff j).mpr (by simp only [taken] at hlt; omega))
    by_cases hready : ∀ d ∈ cmd.waits, q.status? d ≠ none
    · exact ⟨v, j, hv, cmd, hcmd, hready⟩
    · -- a pending prerequisite is older, so it is held too: go on from it
      obtain ⟨d, hd, hpend⟩ : ∃ d ∈ cmd.waits, q.status? d = none :=
        Classical.byContradiction fun h => hready fun d hd hs => h ⟨d, hd, hs⟩
      have hdj := hL.waits_lt j cmd hcmd d hd
      exact ih d hdj (hL.held_of_pending (by omega) hpend)

/-- A worker holding a ready job can move: a wait finds a status, a run, a signal or a release. -/
theorem Layout.workerStep_ready (hL : q.Layout n) {v j : Nat} (hv : q.holder v = some j) (hr : q.Ready j) :
    ∃ q', q.workerStep v = some q' := by
  obtain ⟨cmd, hcmd, hall⟩ := hr
  obtain ⟨t, ht, htj⟩ : ∃ t, q.workers[v]? = some t ∧ t.job? = some j := by
    simp only [holder, Option.bind_eq_some_iff] at hv
    exact hv
  have hphase := hL.phase v t ht
  obtain ⟨job, hjob, rfl⟩ : ∃ job, q.jobs[j]? = some job ∧ job.command = cmd := by
    simpa [command?] using hcmd
  cases t with
  | waiting i k =>
    cases htj
    unfold workerStep
    rw [ht]
    simp only [hjob]
    cases hk : job.command.waits[k]? with
    | none => exact ⟨_, rfl⟩
    | some d =>
      have hd := hall d (List.mem_of_getElem? hk)
      cases hs : q.status? d with
      | none => exact absurd hs hd
      | some s => cases s <;> simp [hs]
  | ran i =>
    cases htj
    obtain ⟨s, hs⟩ := Option.ne_none_iff_exists'.mp hphase.1
    unfold workerStep
    rw [ht]
    simp only [hs]
    exact ⟨_, rfl⟩
  | signalled i =>
    unfold workerStep
    rw [ht]
    exact ⟨_, rfl⟩
  | idle | sawEmpty | exited => cases htj

/-- While the queue is live and some event is pending, a worker holds a job whose prerequisites
    all have a status, or a job is queued and some worker is free to steal it. -/
theorem progress (hL : q.Layout n) (hn : 0 < n) (hs : q.shutdown = false)
    (hu : ∃ j < q.jobs.size, q.status? j = none) :
    (∃ v j, q.holder v = some j ∧ q.Ready j) ∨
      (q.injector ≠ [] ∧ ∃ v : Nat, q.workers[v]? = some .idle ∨ q.workers[v]? = some .sawEmpty) := by
  by_cases hheld : ∃ v j, q.holder v = some j
  · obtain ⟨v, j, hv⟩ := hheld
    exact Or.inl (hL.exists_ready_of_held j ⟨v, hv⟩)
  · right
    obtain ⟨j, hj, hpend⟩ := hu
    -- nothing is held, so the pending job was never stolen
    have hqueued : q.taken ≤ j := Nat.le_of_not_lt fun hlt =>
      hheld (let ⟨v, hv⟩ := hL.held_of_pending hlt hpend; ⟨v, j, hv⟩)
    refine ⟨fun h => ?_, 0, ?_⟩
    · have : q.taken = q.jobs.size := by simp [taken, h]
      omega
    · obtain ⟨t, ht⟩ : ∃ t, q.workers[(0 : Nat)]? = some t :=
        Option.isSome_iff_exists.mp (by simp [hL.workers_length, hn])
      have hfree : t.job? = none := by
        cases h : t.job? with
        | none => rfl
        | some i => exact absurd ⟨0, i, by simp [holder, ht, h]⟩ hheld
      cases t with
      | idle => exact Or.inl ht
      | sawEmpty => exact Or.inr ht
      | exited => exact absurd ht (hL.live hs 0)
      | waiting | ran | signalled => cases hfree

/-- While the queue is live and some event is pending, some worker can take a step. -/
theorem Layout.exists_workerStep (hL : q.Layout n) (hn : 0 < n) (hs : q.shutdown = false)
    (hu : ∃ j < q.jobs.size, q.status? j = none) : ∃ w q', q.workerStep w = some q' := by
  rcases progress hL hn hs hu with ⟨v, j, hv, hr⟩ | ⟨hinj, v, hfree⟩
  · exact ⟨v, hL.workerStep_ready hv hr⟩
  · -- a free worker steals the oldest queued job, or reads the shutdown flag
    obtain ⟨j, rest, hjr⟩ := List.exists_cons_of_ne_nil hinj
    refine ⟨v, ?_⟩
    unfold workerStep
    rcases hfree with hw | hw
    · rw [hw, hjr]
      exact ⟨_, rfl⟩
    · rw [hw]
      exact ⟨_, rfl⟩

/-- With nothing in flight, every submitted event has a status. -/
theorem status_of_inFlight_eq_zero (hL : q.Layout n) (h0 : q.inFlight = 0) {j : Nat} (hj : j < q.jobs.size) :
    q.status? j ≠ none := by
  rw [hL.inFlight_eq] at h0
  have hinj : q.injector.length = 0 := by omega
  have hnone : q.workers.countP (fun s => s.job?.isSome) = 0 := by omega
  refine hL.finished j (by simp only [taken, hinj]; omega) (fun v hv => ?_)
  obtain ⟨t, ht, htj⟩ : ∃ t, q.workers[v]? = some t ∧ t.job? = some j := by
    simpa only [holder, Option.bind_eq_some_iff] using hv
  have := countP_pos ht (fun s => s.job?.isSome) (by simp [htj])
  omega

/-- What a live queue guarantees in every state a schedule reaches. -/
structure LiveProgress (q : HostQueue) : Prop where
  /-- With an event pending, a worker holds a job whose prerequisites all have a status, or a
      job is queued and a worker is free to steal it. -/
  ready : (∃ j < q.jobs.size, q.status? j = none) →
    (∃ v j, q.holder v = some j ∧ q.Ready j) ∨
      (q.injector ≠ [] ∧ ∃ v : Nat, q.workers[v]? = some .idle ∨ q.workers[v]? = some .sawEmpty)
  /-- With an event pending, some worker can take a step: the state is not stuck. -/
  moves : (∃ j < q.jobs.size, q.status? j = none) → ∃ w q', q.workerStep w = some q'
  /-- No worker has left. -/
  staffed : ∀ v : Nat, q.workers[v]? ≠ some .exited
  /-- The in-flight count is the number of queued and held jobs. -/
  inFlight_eq : q.inFlight = q.injector.length + q.workers.countP (fun s => s.job?.isSome)
  /-- With nothing in flight, every submitted event has a status. -/
  drained : q.inFlight = 0 → ∀ j < q.jobs.size, q.status? j ≠ none

/-- Until it is dropped, a queue with at least one worker is never stuck, and its in-flight count
    is what it holds, in every state any schedule reaches. -/
theorem live_queue_progress {ctx : Context} (hn : 0 < n) (h : Reachable ctx n q) (hs : q.shutdown = false) :
    LiveProgress q :=
  have hL := Layout.reachable h
  { ready := progress hL hn hs
    moves := hL.exists_workerStep hn hs
    staffed := hL.live hs
    inFlight_eq := hL.inFlight_eq
    drained := fun h0 _ hj => status_of_inFlight_eq_zero hL h0 hj }

/-- A schedule that runs from a reachable state ends in a reachable state. -/
theorem Reachable.runSchedule {ctx : Context} {acts : List Action} :
    ∀ {q₀ q' : HostQueue}, Reachable ctx n q₀ → q₀.runSchedule acts = some q' → Reachable ctx n q' := by
  induction acts with
  | nil =>
    intro q₀ q' h hs
    cases hs
    exact h
  | cons a rest ih =>
    intro q₀ q' h hs
    simp only [HostQueue.runSchedule, Option.bind_eq_some_iff] at hs
    obtain ⟨q₁, h₁, hs⟩ := hs
    -- the first action is a step of the queue
    have hstep : Step q₀ q₁ := by
      cases a with
      | worker w => exact .worker w h₁
      | submit cmd =>
        simp only [Action.apply, Bool.and_eq_true, List.all_eq_true, decide_eq_true_eq, Bool.not_eq_true'] at h₁
        split at h₁
        · rename_i hc
          cases h₁
          exact .submit cmd hc.1 hc.2
        · cases h₁
      | drop => cases h₁; exact .drop
    exact ih (.step h hstep) hs

/-- Two workers; `b` waits on `a`, and worker 0 has stolen `a` while `b` is queued. -/
theorem live_queue_progress_stolen :
    ∃ q, (HostQueue.start default 2).runSchedule
        [.submit ⟨"a", [], fun _ => .ok [], [], none⟩, .submit ⟨"b", [0], fun _ => .ok [], [], none⟩, .worker 0] =
          some q ∧
      0 < 2 ∧ Reachable (default : Context) 2 q ∧ q.shutdown = false ∧ LiveProgress q := by
  let acts : List Action :=
    [.submit ⟨"a", [], fun _ => .ok [], [], none⟩, .submit ⟨"b", [0], fun _ => .ok [], [], none⟩, .worker 0]
  obtain ⟨q, hq⟩ := Option.isSome_iff_exists.mp
    (show ((HostQueue.start default 2).runSchedule acts).isSome by decide)
  have hr : Reachable (default : Context) 2 q := (Reachable.start).runSchedule hq
  have hs : q.shutdown = false := by
    simpa [hq] using (show ((HostQueue.start default 2).runSchedule acts).map (·.shutdown) = some false by decide)
  exact ⟨q, hq, by decide, hr, hs, live_queue_progress (by decide) hr hs⟩

/-- Dropping the queue can strand a job.  The one worker steals from an empty injector; before it
    reads the shutdown flag a command is submitted and the queue dropped; the worker then reads
    the flag set and leaves.  The job stays queued with its event pending, and no worker can move. -/
theorem drop_strands_job (ctx : Context) (cmd : Command) :
    ∃ q, Reachable ctx 1 q ∧ q.shutdown = true ∧ q.workers = [.exited] ∧ q.injector = [0] ∧
      q.status? 0 = none ∧ q.inFlight = 1 ∧ ∀ w, q.workerStep w = none := by
  let cmd₀ : Command := { cmd with waits := [] }
  let q₁ := (HostQueue.start ctx 1).setWorker 0 .sawEmpty
  let q₃ : HostQueue := { q₁.submit cmd₀ with shutdown := true }
  have r₁ : Reachable ctx 1 q₁ := .step .start (.worker 0 rfl)
  have r₂ : Reachable ctx 1 (q₁.submit cmd₀) := .step r₁ (.submit cmd₀ (by simp [cmd₀]) rfl)
  have r₃ : Reachable ctx 1 q₃ := .step r₂ .drop
  refine ⟨q₃.setWorker 0 .exited, .step r₃ (.worker 0 rfl), rfl, rfl, rfl, rfl, rfl, ?_⟩
  intro w
  cases w <;> rfl

/-- The drop race with one worker and a command that does nothing: the drop returns with the
    worker gone, the command queued, its event pending and the in-flight count at one. -/
theorem dropped_queue_keeps_job :
    ∃ q, Reachable (default : Context) 1 q ∧ q.shutdown = true ∧ q.workers = [.exited] ∧ q.injector = [0] ∧
      q.status? 0 = none ∧ q.inFlight = 1 ∧ ∀ w, q.workerStep w = none :=
  drop_strands_job default ⟨"inc", [], fun _ => .ok [], [], none⟩

end OffloadAlgebra.HostQueue
