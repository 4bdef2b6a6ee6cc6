import OffloadAlgebra.Proofs.HostQueue.Basic
/-!
  The shape of every reachable host-queue state.

  Jobs are numbered by submission.  The injector holds the NEWEST ones, in order: jobs below
  `taken` were stolen, jobs from `taken` on wait in the injector, untouched.  Every stolen job
  is either held by exactly one worker or FINISHED (its event has a status).  A worker's phase
  says how far its job got: `waiting j k` has passed the first `k` events of the wait list,
  all complete; `ran j` has a result but no status yet; `signalled j` has its status.  A status
  is always the result its worker computed, and `inFlight` counts the queued and held jobs.

  `Layout` bundles these facts; `Layout.step` shows every step keeps it and `Layout.reachable`
  that every reachable state has it.  Each move of `WorkerMove` gets its own lemma.
-/

namespace OffloadAlgebra

/-- The job a worker holds, if any. -/
def Worker.job? : Worker → Option Nat
  | .waiting j _ | .ran j | .signalled j => some j
  | _ => none

namespace HostQueue

/-- The number of jobs stolen so far: the injector holds the jobs from here on. -/
def taken (q : HostQueue) : Nat := q.jobs.size - q.injector.length

/-- The job worker `v` holds, if any. -/
def holder (q : HostQueue) (v : Nat) : Option Nat := q.workers[v]?.bind Worker.job?

/-- The command of job `j`. -/
def command? (q : HostQueue) (j : Nat) : Option Command := q.jobs[j]?.map (·.command)

/-- What a worker in each phase knows about the job it holds. -/
def PhaseOk (q : HostQueue) : Worker → Prop
  | .waiting j k => q.result? j = none ∧ q.status? j = none ∧
      ∃ cmd, q.command? j = some cmd ∧ ∀ d ∈ cmd.waits.take k, q.status? d = some .complete
  | .ran j => q.result? j ≠ none ∧ q.status? j = none
  | .signalled j => q.status? j ≠ none
  | _ => True

/-- The shape of a reachable queue state with `threads` workers. -/
structure Layout (threads : Nat) (q : HostQueue) : Prop where
  workers_length : q.workers.length = threads
  injector_le : q.injector.length ≤ q.jobs.size
  injector_eq : q.injector = List.range' q.taken q.injector.length
  waits_lt : ∀ j cmd, q.command? j = some cmd → ∀ d ∈ cmd.waits, d < j
  held_lt : ∀ v j, q.holder v = some j → j < q.taken
  held_once : ∀ v v' j, q.holder v = some j → q.holder v' = some j → v = v'
  phase : ∀ (v : Nat) s, q.workers[v]? = some s → q.PhaseOk s
  finished : ∀ j < q.taken, (∀ v, q.holder v ≠ some j) → q.status? j ≠ none
  queued : ∀ j, q.taken ≤ j → q.result? j = none ∧ q.status? j = none
  status_result : ∀ j s, q.status? j = some s → q.result? j = some s
  inFlight_eq : q.inFlight = q.injector.length + q.workers.countP (fun s => s.job?.isSome)
  live : q.shutdown = false → ∀ v : Nat, q.workers[v]? ≠ some .exited

/-! ## Workers after one of them moves -/

section Workers

variable {q : HostQueue} {w : Nat} {old : Worker}

theorem workers_setWorker (hw : q.workers[w]? = some old) (s : Worker) (v : Nat) :
    (q.setWorker w s).workers[v]? = if w = v then some s else q.workers[v]? := by
  have hlt : w < q.workers.length := (List.getElem?_eq_some_iff.mp hw).1
  simp only [setWorker_workers, List.getElem?_set]
  split <;> simp_all

theorem holder_setWorker (hw : q.workers[w]? = some old) (s : Worker) (v : Nat) :
    (q.setWorker w s).holder v = if w = v then s.job? else q.holder v := by
  simp only [holder, workers_setWorker hw]
  split <;> rfl

theorem holder_self (hw : q.workers[w]? = some old) : q.holder w = old.job? := by
  simp [holder, hw]

/-- A move that keeps the worker's job keeps every holder. -/
theorem holder_setWorker_same (hw : q.workers[w]? = some old) {s : Worker} (hs : s.job? = old.job?)
    (v : Nat) : (q.setWorker w s).holder v = q.holder v := by
  rw [holder_setWorker hw]
  split
  · subst v; rw [holder_self hw, hs]
  · rfl

theorem countP_setWorker (hw : q.workers[w]? = some old) (s : Worker) (p : Worker → Bool) :
    (q.setWorker w s).workers.countP p =
      q.workers.countP p - (if p old then 1 else 0) + (if p s then 1 else 0) := by
  obtain ⟨hlt, hget⟩ := List.getElem?_eq_some_iff.mp hw
  rw [setWorker_workers, List.countP_set hlt, hget]

theorem countP_pos (hw : q.workers[w]? = some old) (p : Worker → Bool) (hp : p old) :
    0 < q.workers.countP p :=
  List.countP_pos_iff.mpr ⟨old, List.mem_of_getElem? hw, hp⟩

end Workers

/-! ## Field lemmas for `taken`, `command?` and `holder` -/

section Accessors

variable (q : HostQueue)

@[simp] theorem taken_setWorker (w : Nat) (s : Worker) : (q.setWorker w s).taken = q.taken := rfl
@[simp] theorem command?_setWorker (w : Nat) (s : Worker) (j : Nat) :
    (q.setWorker w s).command? j = q.command? j := rfl

theorem command?_of_modify {q' : HostQueue} {j : Nat} {f : Job → Job} (hq : q'.jobs = q.jobs.modify j f)
    (hf : ∀ job, (f job).command = job.command) (e : Nat) : q'.command? e = q.command? e := by
  simp only [command?, hq, Array.getElem?_modify]
  split
  · cases q.jobs[e]? <;> simp [hf]
  · rfl

@[simp] theorem command?_run (j : Nat) (cmd : Command) (e : Nat) :
    (q.run j cmd).command? e = q.command? e := by
  obtain ⟨_, _, hf, h⟩ := q.run_eq j cmd
  exact command?_of_modify q (by rw [h]) (fun job => (hf job).1) e

@[simp] theorem command?_blame (j d : Nat) (m : String) (e : Nat) :
    (q.blame j d m).command? e = q.command? e :=
  command?_of_modify q (q.blame_jobs j d m) (by intro; rfl) e

@[simp] theorem command?_signal (j : Nat) (s : Status) (e : Nat) :
    (q.signal j s).command? e = q.command? e := by
  obtain ⟨_, h⟩ := q.signal_eq j s
  exact command?_of_modify q (by rw [h]) (by intro; rfl) e

theorem command?_submit (cmd : Command) (e : Nat) :
    (q.submit cmd).command? e = if e = q.jobs.size then some cmd else q.command? e := by
  simp only [command?, submit_jobs, Array.getElem?_push]
  split <;> rfl

@[simp] theorem taken_run (j : Nat) (cmd : Command) : (q.run j cmd).taken = q.taken := by
  simp [taken]
@[simp] theorem taken_blame (j d : Nat) (m : String) : (q.blame j d m).taken = q.taken := by
  simp [taken]
@[simp] theorem taken_signal (j : Nat) (s : Status) : (q.signal j s).taken = q.taken := by
  simp [taken]

theorem taken_submit (h : q.injector.length ≤ q.jobs.size) (cmd : Command) :
    (q.submit cmd).taken = q.taken := by
  simp only [taken, submit_jobs, Array.size_push, submit_injector, List.length_append,
    List.length_singleton]
  omega

@[simp] theorem holder_run (j : Nat) (cmd : Command) (v : Nat) : (q.run j cmd).holder v = q.holder v := by
  simp [holder]
@[simp] theorem holder_blame (j d : Nat) (m : String) (v : Nat) : (q.blame j d m).holder v = q.holder v := rfl
@[simp] theorem holder_signal (j : Nat) (s : Status) (v : Nat) : (q.signal j s).holder v = q.holder v := by
  simp [holder]
@[simp] theorem holder_submit (cmd : Command) (v : Nat) : (q.submit cmd).holder v = q.holder v := rfl

/-- A command exists exactly for the submitted jobs. -/
theorem command?_isSome_iff (j : Nat) : (q.command? j).isSome ↔ j < q.jobs.size := by
  simp [command?]

theorem result?_eq_none_of_size_le {j : Nat} (hj : q.jobs.size ≤ j) : q.result? j = none := by
  simp [result?, Array.getElem?_eq_none hj]

theorem status?_eq_none_of_size_le {j : Nat} (hj : q.jobs.size ≤ j) : q.status? j = none := by
  simp [status?, Array.getElem?_eq_none hj]

end Accessors

/-! ## Phases carry over -/

section Phases

variable {q q' : HostQueue}

/-- A worker's phase facts depend on the jobs alone. -/
theorem phaseOk_of_jobs_eq (h : q'.jobs = q.jobs) (s : Worker) : q'.PhaseOk s = q.PhaseOk s := by
  cases s <;> simp [PhaseOk, status?, result?, command?, h]

/-- A phase stays true when commands stay, statuses only grow, and the worker's own job keeps its
    result and status. -/
theorem PhaseOk.transfer {s : Worker} (hc : ∀ e cmd, q.command? e = some cmd → q'.command? e = some cmd)
    (hs : ∀ e t, q.status? e = some t → q'.status? e = some t)
    (hj : ∀ j, s.job? = some j → q'.result? j = q.result? j ∧ q'.status? j = q.status? j)
    (h : q.PhaseOk s) : q'.PhaseOk s := by
  cases s with
  | waiting j k =>
    obtain ⟨hr, hst⟩ := hj j rfl
    obtain ⟨h1, h2, cmd, hcmd, hall⟩ := h
    exact ⟨hr ▸ h1, hst ▸ h2, cmd, hc j cmd hcmd, fun d hd => hs d _ (hall d hd)⟩
  | ran j =>
    obtain ⟨hr, hst⟩ := hj j rfl
    exact ⟨hr ▸ h.1, hst ▸ h.2⟩
  | signalled j =>
    obtain ⟨-, hst⟩ := hj j rfl
    show q'.status? j ≠ none
    rw [hst]
    exact h
  | idle | sawEmpty | exited => trivial

end Phases

/-! ## Every step keeps the layout -/

section Preservation

variable {n : Nat} {q q' : HostQueue} {w : Nat} {old : Worker}

/-- A move of worker `w` that keeps the job it holds: only that job's result and status may
    change (a status only from pending), and the injector, counters and commands stay. -/
theorem Layout.keep_job (hL : q.Layout n) (hw : q.workers[w]? = some old) {s : Worker}
    (hworkers : q'.workers = q.workers.set w s) (hinj : q'.injector = q.injector)
    (hsize : q'.jobs.size = q.jobs.size) (hcmd : ∀ e, q'.command? e = q.command? e)
    (hjob : s.job? = old.job?) (hfl : q'.inFlight = q.inFlight) (hsh : q'.shutdown = q.shutdown)
    (hother : ∀ e, old.job? ≠ some e → q'.result? e = q.result? e ∧ q'.status? e = q.status? e)
    (hstat : ∀ e t, q.status? e = some t → q'.status? e = some t)
    (hphase : q'.PhaseOk s) (hsr : ∀ j, old.job? = some j → ∀ t, q'.status? j = some t → q'.result? j = some t)
    (hexit : s = .exited → q.shutdown = true) : q'.Layout n := by
  have hq' : q' = { q' with workers := q.workers.set w s } := by rw [← hworkers]
  have htaken : q'.taken = q.taken := by simp [taken, hinj, hsize]
  have hworker (v : Nat) : q'.workers[v]? = if w = v then some s else q.workers[v]? := by
    rw [hworkers]; exact workers_setWorker hw s v
  have hholder (v : Nat) : q'.holder v = q.holder v := by
    rw [hq']; exact holder_setWorker_same hw hjob v
  have hheld (e : Nat) (he : old.job? = some e) : e < q.taken := hL.held_lt w e (by rw [holder_self hw, he])
  refine
    { workers_length := by rw [hworkers, List.length_set, hL.workers_length]
      injector_le := by rw [hinj, hsize]; exact hL.injector_le
      injector_eq := by rw [hinj, htaken]; exact hL.injector_eq
      waits_lt := fun j cmd h => hL.waits_lt j cmd (by rwa [← hcmd])
      held_lt := fun v j h => htaken ▸ hL.held_lt v j (by rwa [← hholder])
      held_once := fun v v' j h h' => hL.held_once v v' j (by rwa [← hholder]) (by rwa [← hholder])
      phase := ?_
      finished := fun j hj hnone h => ?_
      queued := fun j hj => ?_
      status_result := fun j t h => ?_
      inFlight_eq := ?_
      live := fun hs v h => ?_ }
  · -- the moving worker gets its new phase; every other one holds another job
    intro v t ht
    rw [hworker] at ht
    split at ht
    · cases ht; exact hphase
    · rename_i hv
      refine PhaseOk.transfer (fun e cmd h => by rwa [hcmd]) hstat (fun j hj => hother j ?_) (hL.phase v t ht)
      intro hold
      exact hv (hL.held_once w v j (by rw [holder_self hw, hold]) (by simp [holder, ht, hj]))
  · have hst := hL.finished j (htaken ▸ hj) (fun v => by rw [← hholder]; exact hnone v)
    obtain ⟨t, ht⟩ := Option.ne_none_iff_exists'.mp hst
    rw [hstat j t ht] at h
    cases h
  · have hne : old.job? ≠ some j := fun he => by have := hheld j he; omega
    rw [(hother j hne).1, (hother j hne).2]
    exact hL.queued j (htaken ▸ hj)
  · by_cases he : old.job? = some j
    · exact hsr j he t h
    · rw [(hother j he).1]
      exact hL.status_result j t (by rwa [← (hother j he).2])
  · -- the count of holding workers is unchanged: the moving worker holds before iff after
    rw [hfl, hinj, hworkers, ← setWorker_workers, countP_setWorker hw, hjob, hL.inFlight_eq]
    by_cases hp : old.job?.isSome = true
    · have := countP_pos hw (fun s => s.job?.isSome) hp
      simp only [hp, if_true]
      omega
    · simp [hp]
  · rw [hworker] at h
    split at h
    · cases h
      rw [hsh, hexit rfl] at hs
      cases hs
    · exact hL.live (by rwa [← hsh]) v h

/-- A move of one worker that changes nothing else. -/
theorem Layout.move (hL : q.Layout n) (hw : q.workers[w]? = some old) {s : Worker}
    (hjob : s.job? = old.job?) (hphase : q.PhaseOk s) (hexit : s = .exited → q.shutdown = true) :
    (q.setWorker w s).Layout n :=
  hL.keep_job hw rfl rfl rfl (fun _ => rfl) hjob rfl rfl (fun _ _ => ⟨rfl, rfl⟩) (fun _ _ h => h) hphase
    (fun j _ t h => hL.status_result j t h) hexit

theorem Layout.empty (hL : q.Layout n) (hw : q.workers[w]? = some .idle) :
    (q.setWorker w .sawEmpty).Layout n :=
  hL.move hw rfl trivial (by intro h; cases h)

theorem Layout.poll (hL : q.Layout n) (hw : q.workers[w]? = some .sawEmpty) :
    (q.setWorker w (if q.shutdown then .exited else .idle)).Layout n := by
  apply hL.move hw
  · split <;> rfl
  · split <;> trivial
  · intro h
    split at h
    · assumption
    · cases h

theorem Layout.pass (hL : q.Layout n) {j k d : Nat} {job : Job} (hw : q.workers[w]? = some (.waiting j k))
    (hj : q.jobs[j]? = some job) (hk : job.command.waits[k]? = some d) (hd : q.status? d = some .complete) :
    (q.setWorker w (.waiting j (k + 1))).Layout n := by
  obtain ⟨hr, hs, cmd, hcmd, hall⟩ := hL.phase w _ hw
  have hcj : cmd = job.command := by simp [command?, hj] at hcmd; exact hcmd.symm
  subst hcj
  refine hL.move hw rfl ⟨hr, hs, job.command, hcmd, ?_⟩ (by intro h; cases h)
  -- the first `k + 1` events are the first `k` and the one just found complete
  intro e he
  rw [List.take_add_one, hk, List.mem_append] at he
  rcases he with he | he
  · exact hall e he
  · simp only [Option.toList_some, List.mem_singleton] at he
    rw [he]; exact hd

theorem Layout.run (hL : q.Layout n) {j k : Nat} {job : Job} (hw : q.workers[w]? = some (.waiting j k))
    (hj : q.jobs[j]? = some job) : ((q.run j job.command).setWorker w (.ran j)).Layout n := by
  obtain ⟨-, hs, -⟩ := hL.phase w _ hw
  have hlt : j < q.jobs.size := (Array.getElem?_eq_some_iff.mp hj).1
  refine hL.keep_job hw (s := .ran j) (by simp) (by simp) (by simp) (fun e => by simp) rfl (by simp) (by simp)
    (fun e he => ⟨?_, by simp⟩) (fun e t h => by simpa using h) ⟨q.result?_run_self j job.command hlt, by simpa using hs⟩
    (fun e he t h => ?_) (by intro h; cases h)
  · exact q.result?_run_ne j job.command (fun h => he (by rw [h]; rfl))
  · cases he
    simp [hs] at h

theorem Layout.fail (hL : q.Layout n) {j k d : Nat} {m : String} (hw : q.workers[w]? = some (.waiting j k)) :
    ((q.blame j d m).setWorker w (.ran j)).Layout n := by
  obtain ⟨-, hs, cmd, hcmd, -⟩ := hL.phase w _ hw
  have hlt : j < q.jobs.size := (q.command?_isSome_iff j).mp (by rw [hcmd]; rfl)
  refine hL.keep_job hw (s := .ran j) (by simp) (by simp) (by simp) (fun e => by simp) rfl (by simp) (by simp)
    (fun e he => ⟨?_, by simp⟩) (fun e t h => by simpa using h) ⟨?_, by simpa using hs⟩
    (fun e he t h => ?_) (by intro h; cases h)
  · rw [result?_setWorker, result?_blame, if_neg (fun h => he (by rw [h]; rfl))]
  · simp [result?_blame, Array.getElem?_eq_getElem hlt]
  · cases he
    simp [hs] at h

theorem Layout.signal (hL : q.Layout n) {j : Nat} {s : Status} (hw : q.workers[w]? = some (.ran j))
    (hr : q.result? j = some s) : ((q.signal j s).setWorker w (.signalled j)).Layout n := by
  obtain ⟨-, hs⟩ := hL.phase w _ hw
  have hlt : j < q.jobs.size := by
    rcases Nat.lt_or_ge j q.jobs.size with h | h
    · exact h
    · rw [q.result?_eq_none_of_size_le h] at hr
      cases hr
  have hself : (q.signal j s).status? j = some s := by simp [status?_signal, hlt, hs]
  refine hL.keep_job hw (s := .signalled j) (by simp) (by simp) (by simp) (fun e => by simp) rfl (by simp) (by simp)
    (fun e he => ⟨by simp, ?_⟩) (fun e t h => ?_) (by simp [PhaseOk, hself]) (fun e he t h => ?_) (by intro h; cases h)
  · simp only [status?_setWorker, status?_signal]
    rw [if_neg (fun h => he (by rw [h.1]; rfl))]
  · simp only [status?_setWorker, status?_signal]
    split
    · rename_i h'; rw [h'.1] at hs; rw [hs] at h; cases h
    · exact h
  · cases he
    simp only [status?_setWorker, hself, Option.some.injEq] at h
    subst h
    simpa using hr

/-- A steal takes the oldest queued job, which is `taken`, and moves the boundary past it. -/
theorem Layout.steal (hL : q.Layout n) {j : Nat} {rest : List Nat} (hw : q.workers[w]? = some .idle)
    (hi : q.injector = j :: rest) : Layout n { q.setWorker w (.waiting j 0) with injector := rest } := by
  have hle := hL.injector_le
  have heq := hL.injector_eq
  rw [hi, List.length_cons, List.range'_succ] at heq
  obtain ⟨hj, hrest⟩ := List.cons.inj heq
  rw [hi, List.length_cons] at hle
  have htaken : q.taken + 1 = q.jobs.size - rest.length := by simp only [taken, hi, List.length_cons]; omega
  have hlt : j < q.jobs.size := by rw [hj]; simp only [taken, hi, List.length_cons]; omega
  have hholder (v : Nat) : (q.setWorker w (.waiting j 0)).holder v = if w = v then some j else q.holder v :=
    holder_setWorker hw _ v
  have hfree (v : Nat) : q.holder v ≠ some j := fun h => by have := hL.held_lt v j h; omega
  refine
    { workers_length := by simp [hL.workers_length]
      injector_le := by simp only [setWorker_jobs]; omega
      injector_eq := by simp only [taken, setWorker_jobs]; rw [← htaken]; exact hrest
      waits_lt := hL.waits_lt
      held_lt := fun v e h => ?_
      held_once := fun v v' e h h' => ?_
      phase := fun v t ht => ?_
      finished := fun e he hnone => ?_
      queued := fun e he => hL.queued e (by simp only [taken, setWorker_jobs] at he; omega)
      status_result := hL.status_result
      inFlight_eq := ?_
      live := fun _ v h => ?_ }
  · show e < q.jobs.size - rest.length
    rw [← htaken]
    change (q.setWorker w _).holder v = some e at h
    rw [hholder] at h
    split at h
    · cases h; omega
    · have := hL.held_lt v e h; omega
  · change (q.setWorker w _).holder v = some e at h
    change (q.setWorker w _).holder v' = some e at h'
    rw [hholder] at h h'
    split at h <;> split at h'
    · omega
    · cases h; exact absurd h' (hfree v')
    · cases h'; exact absurd h (hfree v)
    · exact hL.held_once v v' e h h'
  · -- the stealing worker's job is the oldest queued one: no result, no status yet
    change (q.setWorker w _).workers[v]? = some t at ht
    rw [workers_setWorker hw] at ht
    split at ht
    · cases ht
      obtain ⟨hr, hs⟩ := hL.queued j (by omega)
      obtain ⟨cmd, hcmd⟩ := Option.isSome_iff_exists.mp ((q.command?_isSome_iff j).mpr hlt)
      exact ⟨hr, hs, cmd, hcmd, by simp⟩
    · exact (phaseOk_of_jobs_eq rfl t).mpr (hL.phase v t ht)
  · have he' : e ≠ j := fun h => hnone w (by
      change (q.setWorker w _).holder w = some e; rw [hholder, if_pos rfl, h])
    refine hL.finished e (by simp only [taken, setWorker_jobs] at he; omega) (fun v h => ?_)
    by_cases hv : w = v
    · subst hv; rw [holder_self hw] at h; cases h
    · exact hnone v (by change (q.setWorker w _).holder v = some e; rw [hholder, if_neg hv, h])
  · change q.inFlight = rest.length + (q.setWorker w _).workers.countP _
    rw [countP_setWorker hw, hL.inFlight_eq, hi]
    simp [Worker.job?]
    omega
  · change (q.setWorker w _).workers[v]? = some _ at h
    rw [workers_setWorker hw] at h
    split at h
    · cases h
    · exact hL.live (by assumption) v h

/-- After its signal a worker lets go of its job: the job is finished, and one fewer is in
    flight. -/
theorem Layout.release (hL : q.Layout n) {j : Nat} (hw : q.workers[w]? = some (.signalled j)) :
    ({ q with inFlight := q.inFlight - 1 }.setWorker w .idle).Layout n := by
  have hw' : ({ q with inFlight := q.inFlight - 1 } : HostQueue).workers[w]? = some (.signalled j) := hw
  have hholder (v : Nat) : ({ q with inFlight := q.inFlight - 1 }.setWorker w .idle).holder v =
      if w = v then none else q.holder v := holder_setWorker hw' _ v
  have hs : q.status? j ≠ none := hL.phase w _ hw
  refine
    { workers_length := by simp [hL.workers_length]
      injector_le := hL.injector_le
      injector_eq := hL.injector_eq
      waits_lt := hL.waits_lt
      held_lt := fun v e h => ?_
      held_once := fun v v' e h h' => ?_
      phase := fun v t ht => ?_
      finished := fun e he hnone => ?_
      queued := hL.queued
      status_result := hL.status_result
      inFlight_eq := ?_
      live := fun hsh v h => ?_ }
  · rw [hholder] at h
    split at h
    · cases h
    · exact hL.held_lt v e h
  · rw [hholder] at h h'
    split at h
    · cases h
    · split at h'
      · cases h'
      · exact hL.held_once v v' e h h'
  · rw [workers_setWorker hw'] at ht
    split at ht
    · cases ht; trivial
    · exact hL.phase v t ht
  · -- the released job is finished; any other job has the holders it had
    by_cases hej : e = j
    · rw [hej]; exact hs
    · refine hL.finished e he (fun v h => ?_)
      by_cases hv : w = v
      · subst hv; rw [holder_self hw] at h; cases h; exact hej rfl
      · exact hnone v (by rw [hholder, if_neg hv, h])
  · have hpos := countP_pos hw (fun s => s.job?.isSome) rfl
    simp only [setWorker_inFlight, setWorker_injector]
    have h1 : (Worker.signalled j).job?.isSome = true := rfl
    have h0 : Worker.idle.job?.isSome = false := rfl
    rw [countP_setWorker hw', hL.inFlight_eq]
    simp only [h1, h0, if_true, Bool.false_eq_true, if_false]
    omega
  · rw [workers_setWorker hw'] at h
    split at h
    · cases h
    · exact hL.live hsh v h

theorem lt_of_status?_eq_some {e : Nat} {t : Status} (h : q.status? e = some t) : e < q.jobs.size := by
  rcases Nat.lt_or_ge e q.jobs.size with he | he
  · exact he
  · rw [q.status?_eq_none_of_size_le he] at h; cases h

/-- A submission appends a job at the back of the injector, with no result and no status. -/
theorem Layout.submit (hL : q.Layout n) {cmd : Command} (hw : ∀ d ∈ cmd.waits, d < q.jobs.size) :
    (q.submit cmd).Layout n := by
  have htaken := q.taken_submit hL.injector_le cmd
  have htaken_le : q.taken ≤ q.jobs.size := by simp only [taken]; omega
  -- every job that had a status or a holder is older than the new one
  have hheld (v j : Nat) (h : q.holder v = some j) : j ≠ q.jobs.size := by
    have := hL.held_lt v j h; omega
  refine
    { workers_length := hL.workers_length
      injector_le := by simp only [submit_injector, submit_jobs, List.length_append, List.length_singleton,
        Array.size_push]; have := hL.injector_le; omega
      injector_eq := ?_
      waits_lt := fun j c h => ?_
      held_lt := fun v j h => htaken ▸ hL.held_lt v j h
      held_once := hL.held_once
      phase := fun v t ht => ?_
      finished := fun j hj hnone => ?_
      queued := fun j hj => ?_
      status_result := fun j t h => ?_
      inFlight_eq := by simp only [submit_inFlight, submit_injector, submit_workers, List.length_append,
        List.length_singleton, hL.inFlight_eq]; omega
      live := hL.live }
  · -- the new job is the next number after the queued ones
    simp only [submit_injector, List.length_append, List.length_singleton, htaken]
    rw [List.range'_concat, ← hL.injector_eq]
    congr
    simp only [taken]
    have := hL.injector_le
    omega
  · rw [command?_submit] at h
    split at h
    · cases h; rename_i hj; rw [hj]; exact hw
    · exact hL.waits_lt j c h
  · refine PhaseOk.transfer (fun e c h => ?_) (fun e u h => ?_) (fun j hj => ?_) (hL.phase v t ht)
    · rw [command?_submit, if_neg (Nat.ne_of_lt ((q.command?_isSome_iff e).mp (by rw [h]; rfl)))]
      exact h
    · rw [status?_submit, if_neg (Nat.ne_of_lt (lt_of_status?_eq_some h))]
      exact h
    · have ht' : q.workers[v]? = some t := ht
      have hne := hheld v j (by simp [holder, ht', hj])
      rw [result?_submit, status?_submit, if_neg hne, if_neg hne]
      exact ⟨rfl, rfl⟩
  · rw [htaken] at hj
    rw [status?_submit, if_neg (by omega)]
    exact hL.finished j hj hnone
  · rw [result?_submit, status?_submit]
    split
    · exact ⟨rfl, rfl⟩
    · exact hL.queued j (htaken ▸ hj)
  · rw [status?_submit] at h
    split at h
    · cases h
    · rename_i hj; rw [result?_submit, if_neg hj]; exact hL.status_result j t h

/-- Dropping the queue raises the shutdown flag and nothing else. -/
theorem Layout.drop (hL : q.Layout n) : Layout n { q with shutdown := true } :=
  { hL with live := fun h => by cases h }

/-- A queue just started: every worker idle, nothing submitted. -/
theorem Layout.start (ctx : Context) (n : Nat) : (HostQueue.start ctx n).Layout n := by
  have hw (v : Nat) (t : Worker) (h : (HostQueue.start ctx n).workers[v]? = some t) : t = .idle := by
    simp only [HostQueue.start, List.getElem?_replicate] at h
    split at h
    · cases h; rfl
    · cases h
  have hholder (v : Nat) : (HostQueue.start ctx n).holder v = none := by
    simp only [holder]
    cases h : (HostQueue.start ctx n).workers[v]? with
    | none => rfl
    | some t => rw [hw v t h]; rfl
  refine
    { workers_length := List.length_replicate
      injector_le := Nat.le_refl 0
      injector_eq := rfl
      waits_lt := fun j c h => by simp [command?, HostQueue.start] at h
      held_lt := fun v j h => by rw [hholder] at h; cases h
      held_once := fun v v' j h => by rw [hholder] at h; cases h
      phase := fun v t h => by rw [hw v t h]; trivial
      finished := fun j hj => by simp [taken, HostQueue.start] at hj
      queued := fun j _ => ⟨by simp [result?, HostQueue.start], by simp [status?, HostQueue.start]⟩
      status_result := fun j t h => by simp [status?, HostQueue.start] at h
      inFlight_eq := by simp [HostQueue.start, List.countP_replicate, Worker.job?]
      live := fun _ v h => by cases hw v _ h }

theorem Layout.workerMove (hL : q.Layout n) (h : WorkerMove q w q') : q'.Layout n := by
  cases h with
  | steal hw hi => exact hL.steal hw hi
  | empty hw _ => exact hL.empty hw
  | poll hw => exact hL.poll hw
  | run hw hj _ => exact hL.run hw hj
  | pass hw hj hk hd => exact hL.pass hw hj hk hd
  | fail hw _ _ _ => exact hL.fail hw
  | signal hw hr => exact hL.signal hw hr
  | release hw => exact hL.release hw

theorem Layout.step (hL : q.Layout n) (h : Step q q') : q'.Layout n := by
  cases h with
  | worker w hs => exact hL.workerMove (workerStep_eq_some hs)
  | submit cmd hw _ => exact hL.submit hw
  | drop => exact hL.drop

/-- Every reachable state of a queue started with `n` workers has the layout. -/
theorem Layout.reachable {ctx : Context} (h : Reachable ctx n q) : q.Layout n := by
  induction h with
  | start => exact Layout.start ctx n
  | step _ hs ih => exact ih.step hs

end Preservation

end HostQueue

end OffloadAlgebra
