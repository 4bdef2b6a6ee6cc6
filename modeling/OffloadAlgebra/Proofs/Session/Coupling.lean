import OffloadAlgebra.Proofs.Session.Sequential
import OffloadAlgebra.Proofs.HostQueue.Outcome
/-!
  A host queue in step with a sequential context.

  `Coupled q c` says what the queue `q` and the sequential context `c` agree on after the same
  calls: the same kernel table, base options and matrix shapes (`Frame`); the drain of the queue
  holds the memory and events of `c`; the lists of each matrix wait on the same failed events
  (`ListsAgree`); every job holds a confined command on matrices that exist; and of two
  conflicting jobs the older one is on the newer one's wait list or has ended (`ordered`).
  `Covered` adds that every job is listed on the matrices it holds until it ends, which is what
  makes a new job's wait list cover the older jobs it conflicts with.

  Every worker move keeps both (`Coupled.workerMove`, `Covered.workerMove`).  The moves that
  change what the drain reads are the run of a job, whose wait list has ended and which no older
  waiting job conflicts with (`Coupled.ahead`), and the blame of a job, whose drained wait list
  fails on the same event.
-/

namespace OffloadAlgebra

open Context

/-- Two contexts with the same kernel table and base options, and matrices of the same shapes. -/
structure Context.Frame (c₁ c₂ : Context) : Prop where
  kernels : c₁.kernels = c₂.kernels
  baseOptions : c₁.baseOptions = c₂.baseOptions
  size : c₁.matrices.size = c₂.matrices.size
  rows : ∀ h, (c₁.matrix h).rows = (c₂.matrix h).rows
  cols : ∀ h, (c₁.matrix h).cols = (c₂.matrix h).cols

namespace Context.Frame

variable {c₁ c₂ c₃ : Context}

theorem refl (c : Context) : Frame c c := ⟨rfl, rfl, rfl, fun _ => rfl, fun _ => rfl⟩

theorem trans (h₁ : Frame c₁ c₂) (h₂ : Frame c₂ c₃) : Frame c₁ c₃ :=
  ⟨h₁.kernels.trans h₂.kernels, h₁.baseOptions.trans h₂.baseOptions, h₁.size.trans h₂.size,
    fun h => (h₁.rows h).trans (h₂.rows h), fun h => (h₁.cols h).trans (h₂.cols h)⟩

end Context.Frame

/-- Context `c'` keeps the kernel table, the base options, and the shapes and event lists of the
    matrices of `c`: at most the contents of matrices, the events and the counters changed. -/
structure Context.Keeps (c' c : Context) : Prop where
  frame : c'.Frame c
  writes : ∀ h, (c'.matrix h).writes = (c.matrix h).writes
  readWrites : ∀ h, (c'.matrix h).readWrites = (c.matrix h).readWrites

theorem Context.Keeps.refl (c : Context) : c.Keeps c := ⟨.refl c, fun _ => rfl, fun _ => rfl⟩

/-- Changing only the contents of matrices keeps the rest. -/
theorem Context.Keeps.of_data {c' c : Context} (hsize : c'.matrices.size = c.matrices.size)
    (hk : c'.kernels = c.kernels) (hb : c'.baseOptions = c.baseOptions)
    (hm : ∀ h, ∃ d, c'.matrix h = { c.matrix h with data := d }) : c'.Keeps c := by
  refine ⟨⟨hk, hb, hsize, fun h => ?_, fun h => ?_⟩, fun h => ?_, fun h => ?_⟩ <;>
  · obtain ⟨d, hd⟩ := hm h
    rw [hd]

theorem Context.matrix_applyWrites_data (c : Context) (ws : List (Nat × Array Float)) (h : Nat) :
    ∃ d, (c.applyWrites ws).matrix h = { c.matrix h with data := d } := by
  rw [matrix_applyWrites]
  split
  · exact ⟨_, rfl⟩
  · exact ⟨(c.matrix h).data, rfl⟩

theorem Context.keeps_applyWrites (c : Context) (ws : List (Nat × Array Float)) (m : Telemetry.Metrics) :
    ({ c.applyWrites ws with metrics := m } : Context).Keeps c :=
  .of_data (size_applyWrites c ws) rfl rfl (matrix_applyWrites_data c ws)

namespace HostQueue

/-- The lists of the queue's matrices wait on the failed events the lists of `c` wait on, and
    name only events that exist. -/
structure ListsAgree (q : HostQueue) (c : Context) : Prop where
  writes : ∀ h, c.failedEvents (q.ctx.matrix h).writes = c.failedEvents (c.matrix h).writes
  readWrites : ∀ h, c.failedEvents (q.ctx.matrix h).readWrites = c.failedEvents (c.matrix h).readWrites
  queued : ∀ h, ∀ e ∈ (q.ctx.matrix h).writes ++ (q.ctx.matrix h).readWrites, e < q.jobs.size
  recorded : ∀ h, ∀ e ∈ (c.matrix h).writes ++ (c.matrix h).readWrites, e < c.events.size

/-- The queue `q` in step with the sequential context `c`. -/
structure Coupled (q : HostQueue) (c : Context) : Prop where
  frame : q.ctx.Frame c
  drain : Agree q.drain c
  lists : q.ListsAgree c
  confined : ∀ j cmd, q.command? j = some cmd → cmd.Confined ∧ ∀ h, cmd.Touches h → h < q.ctx.matrices.size
  ordered : ∀ i j ci cj, i < j → q.command? i = some ci → q.command? j = some cj → ci.Conflicts cj →
    i ∈ cj.waits ∨ q.status? i ≠ none

/-- Every job but `except` is listed on the matrices it holds, by direction, until it ends. -/
def Covered (q : HostQueue) (except : Option Nat) : Prop :=
  ∀ i cmd h, q.command? i = some cmd → except ≠ some i →
    (cmd.Touches h → i ∈ (q.ctx.matrix h).readWrites ∨ q.status? i ≠ none) ∧
    (cmd.Writes h → i ∈ (q.ctx.matrix h).writes ∨ q.status? i ≠ none)

variable {q q' : HostQueue} {c : Context}

theorem confined_jobs (hconf : ∀ j cmd, q.command? j = some cmd → cmd.Confined ∧ ∀ h, cmd.Touches h → h < q.ctx.matrices.size) :
    ∀ job ∈ q.jobs.toList, job.Confined := by
  intro job hjob _
  obtain ⟨j, hj⟩ := List.mem_iff_getElem?.mp hjob
  rw [Array.getElem?_toList] at hj
  exact (hconf j job.command (by simp [command?, hj])).1

namespace Coupled

theorem size_events (hc : q.Coupled c) : c.events.size = q.jobs.size := by
  rw [← hc.drain.events, size_events_drain]

/-- A job that ran is an event of `c` with its result. -/
theorem event_of_result (hc : q.Coupled c) {e : Nat} {r : Status} (hr : q.result? e = some r) :
    c.events[e]? = some ⟨q.label e, r⟩ := by
  rw [← hc.drain.events]
  exact drain_event_of_result hr

theorem failure?_of_complete (hL : q.Layout n) (hc : q.Coupled c) {e : Nat} (hs : q.status? e = some .complete) :
    c.failure? e = none :=
  Context.failure?_of_complete (hc.event_of_result (hL.status_result e _ hs))

theorem failure?_of_failed (hL : q.Layout n) (hc : q.Coupled c) {e : Nat} {m : String}
    (hs : q.status? e = some (.failed m)) : c.failure? e = some (q.label e, m) :=
  Context.failure?_of_failed (hc.event_of_result (hL.status_result e _ hs))

/-- The events a launch waits on fail in `c` as those of the same launch on `c` itself. -/
theorem failedEvents_launchWaits (hc : q.Coupled c) (binds : List (Nat × Nat × Direction)) :
    c.failedEvents (q.ctx.launchWaits binds) = c.failedEvents (c.launchWaits binds) := by
  simp only [launchWaits, failedEvents, List.filter_flatMap]
  refine List.flatMap_congr fun b _ => ?_
  obtain ⟨_, h, d⟩ := b
  cases d with
  | input => exact hc.lists.writes h
  | output | inputOutput => exact hc.lists.readWrites h

end Coupled

/-! ## Worker moves -/

/-- A move that keeps the commands, the number of jobs and the lists, lets statuses only grow,
    and keeps the drain up to agreement keeps the queue in step. -/
theorem Coupled.of_move (hc : q.Coupled c) (hcmd : ∀ e, q'.command? e = q.command? e)
    (hstat : ∀ e t, q.status? e = some t → q'.status? e = some t) (hsize : q'.jobs.size = q.jobs.size)
    (hk : q'.ctx.Keeps q.ctx) (hd : Agree q'.drain q.drain) : q'.Coupled c where
  frame := hk.frame.trans hc.frame
  drain := hd.trans hc.drain
  lists :=
    { writes := fun h => by rw [hk.writes]; exact hc.lists.writes h
      readWrites := fun h => by rw [hk.readWrites]; exact hc.lists.readWrites h
      queued := fun h => by rw [hk.writes, hk.readWrites, hsize]; exact hc.lists.queued h
      recorded := hc.lists.recorded }
  confined j cmd h := by
    rw [hk.frame.size]
    exact hc.confined j cmd (by rwa [← hcmd])
  ordered i j ci cj hij hi hj hconf := by
    rcases hc.ordered i j ci cj hij (by rwa [← hcmd]) (by rwa [← hcmd]) hconf with hw | hs
    · exact .inl hw
    · obtain ⟨t, ht⟩ := Option.ne_none_iff_exists'.mp hs
      exact .inr (by rw [hstat i t ht]; simp)

theorem Covered.of_move {x : Option Nat} (hcov : q.Covered x) (hcmd : ∀ e, q'.command? e = q.command? e)
    (hstat : ∀ e t, q.status? e = some t → q'.status? e = some t) (hk : q'.ctx.Keeps q.ctx) : q'.Covered x := by
  intro i cmd h hi hx
  have hlive : q.status? i ≠ none → q'.status? i ≠ none := fun hs => by
    obtain ⟨t, ht⟩ := Option.ne_none_iff_exists'.mp hs
    rw [hstat i t ht]; simp
  obtain ⟨h₁, h₂⟩ := hcov i cmd h (by rwa [← hcmd]) hx
  rw [hk.readWrites, hk.writes]
  exact ⟨fun ht => (h₁ ht).imp id hlive, fun hw => (h₂ hw).imp id hlive⟩

/-- A worker whose job passed its wait list may run it ahead of the older jobs that wait. -/
theorem Coupled.ahead (hL : q.Layout n) (hc : q.Coupled c) {w j k : Nat} {job : Job}
    (hw : q.workers[w]? = some (.waiting j k)) (hj : q.jobs[j]? = some job) (hk : job.command.waits[k]? = none) :
    q.Ahead j job := by
  obtain ⟨hr, -, cmd, hcmd, hpass⟩ := hL.phase w _ hw
  have hcj : cmd = job.command := by simp [command?, hj] at hcmd; exact hcmd.symm
  subst hcj
  have hres : job.result = none := by simpa [result?, hj] using hr
  -- the wait list ends at `k`, so every event on it completed
  have hall : ∀ d ∈ job.command.waits, q.status? d = some .complete := by
    rw [List.getElem?_eq_none_iff] at hk
    intro d hd
    exact hpass d (by rwa [List.take_of_length_le hk])
  refine ⟨hj, hres, fun d hd => ⟨hL.waits_lt j _ hcmd d hd, hL.status_result d _ (hall d hd)⟩, ?_,
    confined_jobs hc.confined⟩
  intro i job' hi hget hres' hconf
  have hended : q.status? i ≠ none := by
    rcases hc.ordered i j job'.command job.command hi (by simp [command?, hget]) hcmd hconf with hw' | hs
    · rw [hall i hw']; simp
    · exact hs
  obtain ⟨t, ht⟩ := Option.ne_none_iff_exists'.mp hended
  have := hL.status_result i t ht
  simp [result?, hget, hres'] at this

theorem run_ctx_keeps (q : HostQueue) (j : Nat) (cmd : Command) : (q.run j cmd).ctx.Keeps q.ctx := by
  unfold run
  split
  · exact keeps_applyWrites _ _ _
  · exact .refl _

theorem signal_ctx_keeps (q : HostQueue) (j : Nat) (s : Status) : (q.signal j s).ctx.Keeps q.ctx := by
  cases s with
  | complete => exact .refl _
  | failed m => exact .of_data rfl rfl rfl fun h => ⟨(q.ctx.matrix h).data, rfl⟩

/-- Statuses only grow under a signal. -/
theorem status?_signal_of_some (q : HostQueue) (j : Nat) (s : Status) {e : Nat} {t : Status}
    (h : q.status? e = some t) : (q.signal j s).status? e = some t := by
  rw [status?_signal]
  split
  · rw [h]; rfl
  · exact h

/-- Every worker move keeps the queue in step. -/
theorem Coupled.workerMove (hL : q.Layout n) (hc : q.Coupled c) {w : Nat} (hm : WorkerMove q w q') :
    q'.Coupled c := by
  have hconf := confined_jobs hc.confined
  cases hm with
  | steal hw hi => exact hc.of_move (fun _ => rfl) (fun _ _ h => h) rfl (.refl _) (.refl _)
  | empty hw hi => exact hc.of_move (fun _ => rfl) (fun _ _ h => h) rfl (.refl _) (.refl _)
  | poll hw => exact hc.of_move (fun _ => rfl) (fun _ _ h => h) rfl (.refl _) (.refl _)
  | run hw hj hk =>
    refine hc.of_move (fun e => by simp) (fun e t h => by simpa using h) (by simp) (run_ctx_keeps _ _ _) ?_
    rw [drain_setWorker]
    exact drain_run (hc.ahead hL hw hj hk)
  | pass hw hj hk hd => exact hc.of_move (fun _ => rfl) (fun _ _ h => h) rfl (.refl _) (.refl _)
  | @fail j k d job m hw hj hk hd =>
    refine hc.of_move (fun e => by simp) (fun e t h => by simpa using h) (by simp) (.refl _) ?_
    rw [drain_setWorker]
    obtain ⟨hr, -, cmd, hcmd, hpass⟩ := hL.phase w _ hw
    have hcj : cmd = job.command := by simp [command?, hj] at hcmd; exact hcmd.symm
    subst hcj
    have hwaits := hL.waits_lt j _ hcmd
    refine drain_blame hj (by simpa [result?, hj] using hr) hconf (fun d' hd' => ⟨hwaits d' (List.mem_of_mem_take hd'),
      hL.status_result d' _ (hpass d' hd')⟩) hk (hwaits d (List.mem_of_getElem? hk)) (hL.status_result d _ hd)
  | @signal j s hw hr =>
    refine hc.of_move (fun e => by simp) (fun e t h => by simpa using status?_signal_of_some q j s h) (by simp)
      (signal_ctx_keeps q j s) ?_
    rw [drain_setWorker]
    exact drain_signal q _ _ hconf
  | release hw => exact hc.of_move (fun _ => rfl) (fun _ _ h => h) rfl (.refl _) (.refl _)

/-- Every worker move keeps every job listed until it ends. -/
theorem Covered.workerMove {x : Option Nat} (hcov : q.Covered x) {w : Nat} (hm : WorkerMove q w q') :
    q'.Covered x := by
  cases hm with
  | steal hw hi => exact hcov.of_move (fun _ => rfl) (fun _ _ h => h) (.refl _)
  | empty hw hi => exact hcov.of_move (fun _ => rfl) (fun _ _ h => h) (.refl _)
  | poll hw => exact hcov.of_move (fun _ => rfl) (fun _ _ h => h) (.refl _)
  | run hw hj hk => exact hcov.of_move (fun e => by simp) (fun e t h => by simpa using h) (run_ctx_keeps _ _ _)
  | pass hw hj hk hd => exact hcov.of_move (fun _ => rfl) (fun _ _ h => h) (.refl _)
  | fail hw hj hk hd => exact hcov.of_move (fun e => by simp) (fun e t h => by simpa using h) (.refl _)
  | @signal j s hw hr =>
    exact hcov.of_move (fun e => by simp) (fun e t h => by simpa using status?_signal_of_some q j s h)
      (signal_ctx_keeps q j s)
  | release hw => exact hcov.of_move (fun _ => rfl) (fun _ _ h => h) (.refl _)

end HostQueue

end OffloadAlgebra
