import OffloadAlgebra.Proofs.Session.Calls
/-!
  A program on the host queue answers as the program run one call at a time.

  In every state a program reaches on the host queue, with any number of workers and any
  interleaving of their steps, there is a sequential context `c` that the state refines
  (`Session.Refines`): the queue is in step with `c` (`Coupled`), every job that has not ended is
  listed on the matrices it holds (`Covered`), and the answers the program got, followed by what
  the sequential run from `c` answers for the rest of the program (`Client.rest`), are the
  answers of the whole sequential run.  While the program waits on a copy back to the host, the
  read it waits on is the newest job, and once it completed it copied out what `c` holds
  (`HostQueue.Reading`).

  Every step keeps a refinement (`Refines.step`), so every reachable state has one
  (`Refines.reachable`).  The answers of the program are then a prefix of the sequential answers,
  and every event that ended did so as the same event of the sequential run
  (`sequential_answers`).
-/

namespace OffloadAlgebra

open Context

namespace Client

/-- The read a program is blocked on. -/
def reading? : Client → Option Nat
  | .reading _ e _ => some e
  | _ => none

/-- What the sequential run from `c` answers for the rest of the program, and the context it
    ends in.  A program blocked on a copy back to the host finishes the copy first. -/
def rest (c : Context) : Client → List Answer × Context
  | .ready cs => runCalls c cs
  | .reading h e cs =>
    let tail := runCalls (c.finishRead h e).2 cs
    (.ok ((c.finishRead h e).1.map .host) :: tail.1, tail.2)
  | .stopped => ([], c)

end Client

namespace HostQueue

variable {n : Nat} {q q' : HostQueue} {c : Context}

@[simp] theorem jobs_modifyMetrics (f : Telemetry.Metrics → Telemetry.Metrics) : (q.modifyMetrics f).jobs = q.jobs :=
  rfl

@[simp] theorem matrices_modifyMetrics (f : Telemetry.Metrics → Telemetry.Metrics) :
    (q.modifyMetrics f).ctx.matrices = q.ctx.matrices := rfl

/-- A launch holds only matrices its call names. -/
theorem handles_of_binding {spec : KernelSpec} {range : NdRange} {args : List KernelArg} {i h : Nat} {d : Direction}
    (hb : (i, h, d) ∈ bufferBindings spec.signature args) : h ∈ (Call.invoke spec range args).handles := by
  rw [mem_bufferBindings] at hb
  have hmem : (KernelArg.matrix h, ArgSpec.buffer d) ∈ args.zip spec.signature := List.mem_of_getElem? hb
  simp only [Call.handles, List.mem_filterMap]
  exact ⟨.matrix h, (List.of_mem_zip hmem).1, rfl⟩

/-- Dropping completed events reads only the statuses, which the counters do not change. -/
theorem Cleared.modifyMetrics {m m' : DeviceMatrix} (hcl : q.Cleared m m') (f : Telemetry.Metrics → Telemetry.Metrics) :
    (q.modifyMetrics f).Cleared m m' :=
  ⟨hcl.rows, hcl.cols, hcl.data, hcl.reads, hcl.writes, hcl.readWrites⟩

theorem Layout.withCtx (hL : q.Layout n) (x : Context) : ({ q with ctx := x } : HostQueue).Layout n :=
  ⟨hL.workers_length, hL.injector_le, hL.injector_eq, hL.waits_lt, hL.held_lt, hL.held_once, hL.phase,
    hL.finished, hL.queued, hL.status_result, hL.inFlight_eq, hL.live⟩

/-! ## Closing the coverage of a new job -/

theorem Covered.close {e : Nat} (hcov : q.Covered (some e))
    (he : ∀ cmd, q.command? e = some cmd → ∀ k,
      (cmd.Touches k → e ∈ (q.ctx.matrix k).readWrites ∨ q.status? e ≠ none) ∧
        (cmd.Writes k → e ∈ (q.ctx.matrix k).writes ∨ q.status? e ≠ none)) :
    q.Covered none := by
  intro i cmd k hi _
  by_cases hie : i = e
  · subst hie
    exact he cmd hi k
  · exact hcov i cmd k hi (by simpa using Ne.symm hie)

theorem Covered.close_of_status {e : Nat} (hcov : q.Covered (some e)) (hs : q.status? e ≠ none) :
    q.Covered none :=
  hcov.close fun _ _ _ => ⟨fun _ => .inr hs, fun _ => .inr hs⟩

/-! ## The read a copy waits on -/

/-- A job that may run, that no job comes after, leaves the drain's contents in the memory of
    every matrix it holds without writing it. -/
theorem Ahead.data_drain_last {j : Nat} {job : Job} (ha : q.Ahead j job) (hlast : q.jobs.size = j + 1) {k : Nat}
    (ht : job.command.Touches k) (hnw : ¬ job.command.Writes k) :
    (q.drain.matrix k).data = (q.ctx.matrix k).data := by
  refine data_drain fun job' hmem hres => ⟨ha.confined job' hmem hres, fun hw => ?_⟩
  obtain ⟨i, hi⟩ := List.mem_iff_getElem?.mp hmem
  rw [Array.getElem?_toList] at hi
  have hlt : i < j + 1 := hlast ▸ (Array.getElem?_eq_some_iff.mp hi).1
  rcases Nat.lt_succ_iff_lt_or_eq.mp hlt with hlt | rfl
  · exact ha.clear i job' hlt hi hres ⟨k, .inl ⟨hw, ht⟩⟩
  · rw [ha.found] at hi
    cases hi
    exact hnw hw

/-- What running a job does to the jobs: the job gets its result, and a read that completed the
    elements it copied out. -/
theorem jobs_run (q : HostQueue) (j : Nat) (cmd : Command) :
    (q.run j cmd).jobs = q.jobs.modify j fun job =>
      match cmd.work q.ctx with
      | .ok _ =>
        { job with result := some .complete,
                   copied := match cmd.copies with
                     | some (h, len) => (q.ctx.matrix h).data.extract 0 len
                     | none => #[] }
      | .error f => { job with result := some (.failed (cmd.label ++ ": " ++ f.text)) } := by
  unfold run
  -- both sides read the work's answer: once it is fixed, they unfold to the same jobs
  cases cmd.work q.ctx <;> rfl

/-- Job `e` is the newest job and the read of matrix `h` of a copy back to the host, and once it
    completed it had copied out what the sequential context `c` holds there. -/
structure Reading (q : HostQueue) (c : Context) (h e : Nat) : Prop where
  last : q.jobs.size = e + 1
  command : ∃ waits, q.command? e = some (readCommand h ((c.matrix h).rows * (c.matrix h).cols) waits)
  copied : ∀ job, q.jobs[e]? = some job → job.result = some .complete →
    job.copied = (c.matrix h).data.extract 0 ((c.matrix h).rows * (c.matrix h).cols)

/-- A change of one job that keeps its command keeps the read, if the read, once it completed
    through the change, copied out what `c` holds. -/
theorem Reading.modify {h e j : Nat} (hr : q.Reading c h e) {f : Job → Job} (hjobs : q'.jobs = q.jobs.modify j f)
    (hcmd : ∀ job, (f job).command = job.command)
    (hf : j = e → ∀ job, q.jobs[e]? = some job → (f job).result = some .complete →
      (f job).copied = (c.matrix h).data.extract 0 ((c.matrix h).rows * (c.matrix h).cols)) :
    q'.Reading c h e := by
  have hget : q'.jobs[e]? = if j = e then q.jobs[e]?.map f else q.jobs[e]? := by
    rw [hjobs, Array.getElem?_modify]
  refine ⟨by rw [hjobs, Array.size_modify, hr.last], ?_, fun job' hj' hres => ?_⟩
  · obtain ⟨waits, hw⟩ := hr.command
    refine ⟨waits, ?_⟩
    simp only [command?, hget] at hw ⊢
    split
    · cases hq : q.jobs[e]? <;> simp_all
    · exact hw
  · rw [hget] at hj'
    split at hj'
    · rename_i hje
      obtain ⟨job, hjob, rfl⟩ := Option.map_eq_some_iff.mp hj'
      exact hf hje job hjob hres
    · exact hr.copied job' hj' hres

theorem Reading.of_jobs {h e : Nat} (hr : q.Reading c h e) (hjobs : q'.jobs = q.jobs) : q'.Reading c h e := by
  refine ⟨by rw [hjobs, hr.last], ?_, fun job hj hres => hr.copied job (by rwa [← hjobs]) hres⟩
  simpa only [command?, hjobs] using hr.command

/-- Every worker move keeps the read: a run of the read itself copies out the memory, which holds
    the drain's contents of the matrix, since every older job writing it has ended. -/
theorem Reading.workerMove (hL : q.Layout n) (hc : q.Coupled c) {h e : Nat} (hr : q.Reading c h e) {w : Nat}
    (hm : WorkerMove q w q') : q'.Reading c h e := by
  cases hm with
  | steal hw hi => exact hr.of_jobs rfl
  | empty hw hi => exact hr.of_jobs rfl
  | poll hw => exact hr.of_jobs rfl
  | pass hw hj hk hd => exact hr.of_jobs rfl
  | release hw => exact hr.of_jobs rfl
  | @fail j k d job m hw hj hk hd =>
    refine hr.modify (j := j) (f := fun job =>
      { job with result := some (.failed (job.command.label ++ ": " ++ prerequisiteText (q.label d) m)) })
      rfl (fun _ => rfl) fun _ _ _ hres => ?_
    cases hres
  | @signal j s hw hres =>
    have hsig : (q.signal j s).jobs = q.jobs.modify j fun job => { job with status := Status.finish job.status s } := by
      cases s <;> rfl
    exact hr.modify hsig (fun _ => rfl) fun hje job hjob hres' => hr.copied job (hje ▸ hjob) hres'
  | @run j k job hw hj hk =>
    refine hr.modify (jobs_run q j job.command) (fun _ => by split <;> rfl) fun hje job' hjob hres => ?_
    subst hje
    rw [hj] at hjob
    cases hjob
    -- the job is the read: it copies out the memory of `h`, which holds the drain's contents
    obtain ⟨waits, hcmd⟩ := hr.command
    have hcj : job.command = readCommand h ((c.matrix h).rows * (c.matrix h).cols) waits := by
      simpa [command?, hj] using hcmd
    have hdata := (hc.ahead hL hw hj hk).data_drain_last hr.last (k := h)
      (by rw [hcj]; exact ⟨.input, List.mem_singleton_self _⟩)
      (by
        rw [hcj]
        rintro ⟨d, hd, hdw⟩
        simp only [readCommand, List.mem_singleton, Prod.mk.injEq] at hd
        rw [hd.2] at hdw
        cases hdw)
    rw [hcj] at hres ⊢
    simp only [readCommand] at hres ⊢
    rw [← hdata, hc.drain.data h]

end HostQueue

namespace Session

open HostQueue

variable {ctx₀ : Context} {calls : List Call} {n : Nat}

/-- The state `s` of a program running `calls` from `ctx₀` on a queue with `n` workers refines the
    sequential context `c`. -/
structure Refines (ctx₀ : Context) (calls : List Call) (n : Nat) (s : Session) (c : Context) : Prop where
  layout : s.queue.Layout n
  coupled : s.queue.Coupled c
  covered : s.queue.Covered s.client.reading?
  reading : ∀ h e cs, s.client = .reading h e cs → s.queue.Reading c h e
  answers : (s.answers ++ (s.client.rest c).1, (s.client.rest c).2) = runCalls ctx₀ calls

/-- A call that answered `r` on the program's thread and in the sequential run moves its answer
    from what remains to what the program got. -/
theorem answers_of_run {as : List Answer} {call : Call} {cs : List Call} {c c' : Context} {r : Except Error Reply}
    (hrun : call.run.run.run c = .ok (r, c'))
    (h : (as ++ ((Client.ready (call :: cs)).rest c).1, ((Client.ready (call :: cs)).rest c).2) = runCalls ctx₀ calls) :
    ((as ++ [.ok r]) ++ ((Client.ready cs).rest c').1, ((Client.ready cs).rest c').2) = runCalls ctx₀ calls := by
  rw [← h]
  simp only [Client.rest, runCalls_cons_ok hrun, List.append_assoc, List.singleton_append]

/-- An allocation on the queue's memory ends as the same allocation in the sequential run. -/
theorem alloc_coupled {q : HostQueue} {c : Context} (hc : q.Coupled c) {rows cols : Nat} {r : Except Error Nat}
    {ctx' : Context} (h : (alloc rows cols).run.run q.ctx = .ok (r, ctx')) :
    ((∃ e, r = .error e) ∧ ctx' = q.ctx ∧ (alloc rows cols).run.run c = .ok (r, c)) ∨
      (r = .ok c.matrices.size ∧ ctx' = q.ctx.pushMatrix (zeroMatrix rows cols) ∧
        (alloc rows cols).run.run c = .ok (r, c.pushMatrix (zeroMatrix rows cols))) := by
  rcases alloc_run_cases h with ⟨he, hctx, hall⟩ | ⟨hr, hctx, hall⟩
  · exact .inl ⟨he, hctx, hall c⟩
  · rw [hc.frame.size] at hr
    exact .inr ⟨hr, hctx, by rw [hall c, hr]⟩

section Steps

variable {q q' : HostQueue} {cs : List Call} {as : List Answer} {c : Context}

theorem Refines.worker {cl : Client} (hr : Refines ctx₀ calls n ⟨q, cl, as⟩ c) {w : Nat}
    (hw : q.workerStep w = some q') : Refines ctx₀ calls n ⟨q', cl, as⟩ c := by
  have hm := workerStep_eq_some hw
  exact ⟨hr.layout.workerMove hm, hr.coupled.workerMove hr.layout hm, hr.covered.workerMove hm,
    fun h e cs hcl => (hr.reading h e cs hcl).workerMove hr.layout hr.coupled hm, hr.answers⟩

theorem Refines.zeros {rows cols : Nat} {r : Except Error Nat} {ctx' : Context}
    (hr : Refines ctx₀ calls n ⟨q, .ready (.zeros rows cols :: cs), as⟩ c)
    (h : (alloc rows cols).run.run q.ctx = .ok (r, ctx')) :
    ∃ c', Refines ctx₀ calls n ⟨{ q with ctx := ctx' }, .ready cs, as ++ [.ok (r.map .handle)]⟩ c' := by
  rcases alloc_coupled hr.coupled h with ⟨-, rfl, hseq⟩ | ⟨-, rfl, hseq⟩
  · refine ⟨c, hr.layout.withCtx _, hr.coupled, hr.covered, (fun _ _ _ h => by cases h), answers_of_run ?_ hr.answers⟩
    rw [Call.run_zeros, hseq]
    rfl
  · refine ⟨c.pushMatrix (zeroMatrix rows cols), hr.layout.withCtx _, hr.coupled.pushMatrix rfl rfl,
      hr.covered.pushMatrix hr.coupled _, (fun _ _ _ h => by cases h), answers_of_run ?_ hr.answers⟩
    rw [Call.run_zeros, hseq]
    rfl

theorem Refines.fromHostFailed {m : Matrix} {e : Error} {ctx' : Context}
    (hr : Refines ctx₀ calls n ⟨q, .ready (.fromHost m :: cs), as⟩ c)
    (h : (alloc m.rows m.cols).run.run q.ctx = .ok (.error e, ctx')) :
    ∃ c', Refines ctx₀ calls n ⟨{ q with ctx := ctx' }, .ready cs, as ++ [.ok (.error e)]⟩ c' := by
  rcases alloc_coupled hr.coupled h with ⟨-, rfl, hseq⟩ | ⟨hr', -, -⟩
  · refine ⟨c, hr.layout.withCtx _, hr.coupled, hr.covered, (fun _ _ _ h => by cases h),
      answers_of_run (r := .error e) ?_ hr.answers⟩
    rw [Call.run_fromHost, fromHost_run, hseq]
    rfl
  · cases hr'

theorem Refines.fromHostEmpty {m : Matrix} {hd : Nat} {ctx' : Context}
    (hr : Refines ctx₀ calls n ⟨q, .ready (.fromHost m :: cs), as⟩ c)
    (h : (alloc m.rows m.cols).run.run q.ctx = .ok (.ok hd, ctx')) (hm : m.size = 0) :
    ∃ c', Refines ctx₀ calls n ⟨{ q with ctx := ctx' }, .ready cs, as ++ [.ok (.ok (.handle hd))]⟩ c' := by
  rcases alloc_coupled hr.coupled h with ⟨⟨_, he⟩, -, -⟩ | ⟨-, rfl, hseq⟩
  · cases he
  · refine ⟨c.pushMatrix (zeroMatrix m.rows m.cols), hr.layout.withCtx _, hr.coupled.pushMatrix rfl rfl,
      hr.covered.pushMatrix hr.coupled _, (fun _ _ _ h => by cases h), answers_of_run ?_ hr.answers⟩
    rw [Call.run_fromHost, fromHost_run, hseq]
    simp only [Except.map_ok, hm, if_true]

theorem Refines.allocPanic {rows cols : Nat} {call : Call} {p : Panic}
    (hr : Refines ctx₀ calls n ⟨q, .ready (call :: cs), as⟩ c)
    (hc : call = .zeros rows cols ∨ ∃ m : Matrix, call = .fromHost m ∧ m.rows = rows ∧ m.cols = cols)
    (h : (alloc rows cols).run.run q.ctx = .error p) :
    Refines ctx₀ calls n ⟨q, .stopped, as ++ [.error p]⟩ c := by
  have hseq := alloc_run_panic h c
  have hrun : call.run.run.run c = .error p := by
    rcases hc with rfl | ⟨m, rfl, rfl, rfl⟩
    · rw [Call.run_zeros, hseq]
      rfl
    · rw [Call.run_fromHost, fromHost_run, hseq]
      rfl
  refine ⟨hr.layout, hr.coupled, hr.covered, (fun _ _ _ h => by cases h), ?_⟩
  rw [← hr.answers]
  simp only [Client.rest, runCalls_cons_panic hrun, List.append_nil]

theorem Refines.fromHost {m : Matrix} {hd : Nat} {ctx' : Context}
    (hr : Refines ctx₀ calls n ⟨q, .ready (.fromHost m :: cs), as⟩ c)
    (h : (alloc m.rows m.cols).run.run q.ctx = .ok (.ok hd, ctx')) (hm : m.size ≠ 0)
    (hp : (({ q with ctx := ctx' }.submit (writeCommand hd m.data)).modifyMetrics
      (·.recordTransferToDevice (8 * m.data.size))).Publishes hd .output q.jobs.size q') :
    ∃ c', Refines ctx₀ calls n ⟨q', .ready cs, as ++ [.ok (.ok (.handle hd))]⟩ c' := by
  rcases alloc_coupled hr.coupled h with ⟨⟨_, he⟩, -, -⟩ | ⟨hhd, rfl, hseq⟩
  · cases he
  have hhd : hd = q.ctx.matrices.size := by
    rw [hr.coupled.frame.size]
    cases hhd
    rfl
  let q₁ := ({ q with ctx := q.ctx.pushMatrix (zeroMatrix m.rows m.cols) }.submit (writeCommand hd m.data)).modifyMetrics
    (·.recordTransferToDevice (8 * m.data.size))
  let c₀ := c.pushMatrix (zeroMatrix m.rows m.cols)
  let c₁ := c₀.runCommand "write_buffer" [] (writeWork hd m.data)
  let c₂ : Context := { c₁ with metrics := c₁.metrics.recordTransferToDevice (8 * m.data.size) }
  -- the write goes to the new matrix, which no older job holds
  have htouch : ∀ k, (writeCommand hd m.data).Touches k → k = hd := by
    rintro k ⟨d, hk⟩
    simp only [writeCommand, List.mem_singleton, Prod.mk.injEq] at hk
    exact hk.1
  have hsub := (hr.coupled.pushMatrix (m := zeroMatrix m.rows m.cols) rfl rfl).submit
    (writeCommand_confined hd m.data) (fun k hk => by rw [htouch k hk, hhd]; simp) rfl
    (fun i ci hi hconf => absurd hconf (hr.coupled.not_conflicts_fresh (fun k hk => by rw [htouch k hk, hhd]) hi))
  have hL₁ : q₁.Layout n := ((hr.layout.withCtx _).submit (by simp [writeCommand])).withCtx _
  have hc₁ : q₁.Coupled c₂ := hsub.congr rfl rfl rfl rfl hsub.frame.kernels hsub.frame.baseOptions
  have hcov₁ : q₁.Covered (some q.jobs.size) := ((hr.covered.pushMatrix hr.coupled _).submit _).congr rfl rfl
  have hc' : q'.Coupled (c₂.recorded hd .output q.jobs.size) :=
    hc₁.publish (fun e hs => hc₁.failure?_of_complete hL₁ hs) (by simp [q₁]) hp
  have hev : c₀.events.size = q.jobs.size := by simp only [c₀, events_pushMatrix, hr.coupled.size_events]
  -- the write is listed on the new matrix as a write
  have hcmd : q'.command? q.jobs.size = some (writeCommand hd m.data) := by
    rw [hp.eq]
    exact (command?_submit _ _ _).trans (if_pos rfl)
  have hmem := hp.mem_self (by simp [hhd])
  refine ⟨c₀.written hd m.data, by rw [hp.eq]; exact hL₁.withCtx _, ?_, (hcov₁.publish hp).close fun cmd hc k => ?_,
    (fun _ _ _ h => by cases h), answers_of_run ?_ hr.answers⟩
  · show q'.Coupled (c₂.recorded hd .output c₀.events.size)
    rw [hev]
    exact hc'
  · rw [hcmd] at hc
    cases hc
    exact ⟨fun ht => .inl (htouch k ht ▸ hmem.1), fun hw => .inl (htouch k hw.touches ▸ hmem.2 rfl)⟩
  · rw [Call.run_fromHost, fromHost_run, hseq]
    simp only [Except.map_ok, hm, if_false]
    rfl

theorem Refines.launchFailed {spec : KernelSpec} {range : NdRange} {args : List KernelArg} {e : Error} {ctx' : Context}
    (hr : Refines ctx₀ calls n ⟨q, .ready (.invoke spec range args :: cs), as⟩ c)
    (h : (prepareLaunch spec range args).run.run q.ctx = .ok (.error e, ctx')) :
    ∃ c', Refines ctx₀ calls n ⟨{ q with ctx := ctx' }, .ready cs, as ++ [.ok (.error e)]⟩ c' := by
  -- the checks end alike on the sequential context, which has the same table and options
  obtain ⟨ks, f, rfl, hseq⟩ :=
    prepareLaunch_transfer hr.coupled.frame.kernels.symm hr.coupled.frame.baseOptions.symm h
  refine ⟨{ c with kernels := ks, metrics := f c.metrics }, hr.layout.withCtx _,
    hr.coupled.congr rfl rfl rfl rfl rfl hr.coupled.frame.baseOptions, hr.covered.congr rfl rfl,
    (fun _ _ _ h => by cases h), answers_of_run (r := .error e) ?_ hr.answers⟩
  rw [Call.run_invoke, invoke_run_of_error hseq]
  rfl

theorem Refines.launch {spec : KernelSpec} {range : NdRange} {args : List KernelArg} {k : CompiledKernel}
    {ctx' : Context} (hr : Refines ctx₀ calls n ⟨q, .ready (.invoke spec range args :: cs), as⟩ c)
    (hv : ∀ h ∈ (Call.invoke spec range args).handles, h < q.ctx.matrices.size)
    (h : (prepareLaunch spec range args).run.run q.ctx = .ok (.ok k, ctx'))
    (hp : PublishesAll q.jobs.size
      ({ q with ctx := ctx' }.submit
        (launchCommand k spec range args (ctx'.launchWaits (bufferBindings spec.signature args))))
      (bufferBindings spec.signature args) q') :
    ∃ c', Refines ctx₀ calls n
      ⟨q'.modifyMetrics (·.recordKernelLaunch), .ready cs, as ++ [.ok (.ok (.event q.jobs.size))]⟩ c' := by
  have hsig := signatureFault_of_prepareLaunch h
  obtain ⟨ks, f, rfl, hseq⟩ :=
    prepareLaunch_transfer hr.coupled.frame.kernels.symm hr.coupled.frame.baseOptions.symm h
  let binds := bufferBindings spec.signature args
  let q₀ : HostQueue := { q with ctx := { q.ctx with kernels := ks, metrics := f q.ctx.metrics } }
  let c₀ : Context := { c with kernels := ks, metrics := f c.metrics }
  let cmd := launchCommand k spec range args (q₀.ctx.launchWaits binds)
  let c₁ := c₀.runCommand spec.name (c₀.launchWaits binds) (launchWork k spec range args)
  have hc₀ : q₀.Coupled c₀ := hr.coupled.congr rfl rfl rfl rfl rfl hr.coupled.frame.baseOptions
  have hcov₀ : q₀.Covered none := hr.covered.congr rfl rfl
  -- every buffer of the launch is a matrix the program holds
  have hbind : ∀ b ∈ binds, b.2.1 < q.ctx.matrices.size := by
    rintro ⟨i, hb, d⟩ hmem
    exact hv hb (handles_of_binding hmem)
  have htouch : ∀ h, cmd.Touches h → ∃ i d, (i, h, d) ∈ binds := by
    rintro h ⟨d, hd⟩
    obtain ⟨⟨i, h', d'⟩, hmem, he⟩ := List.mem_map.mp hd
    cases he
    exact ⟨i, d, hmem⟩
  have hL₁ : (q₀.submit cmd).Layout n := by
    refine (hr.layout.withCtx _).submit fun d hd => ?_
    obtain ⟨⟨i, h, dir⟩, -, hd⟩ := List.mem_flatMap.mp hd
    have hq := hr.coupled.lists.queued h d
    cases dir with
    | input => exact hq (List.mem_append_left _ hd)
    | output | inputOutput => exact hq (List.mem_append_right _ hd)
  have hc₁ : (q₀.submit cmd).Coupled c₁ := hc₀.submit (launchCommand_confined hsig)
    (fun h ht => by obtain ⟨i, d, hb⟩ := htouch h ht; exact hbind _ hb)
    (by
      show c₀.firstFailure? (q₀.ctx.launchWaits binds) = _
      rw [← firstFailure_failedEvents, hc₀.failedEvents_launchWaits, firstFailure_failedEvents])
    (hcov₀.launch_ordered rfl rfl)
  have hc' := hc₁.publishAll (fun e hs => hc₁.failure?_of_complete hL₁ hs) (by simp [q₀]) hp
  -- the launch is listed on each of its buffers by direction
  have hcmd : q'.command? q.jobs.size = some cmd := by
    rw [hp.eq]
    exact (command?_submit _ _ _).trans (if_pos rfl)
  have hmem := hp.mem_self (by rw [status?_submit, if_pos rfl]; simp) hbind
  have hcov' : q'.Covered none := ((hcov₀.submit cmd).publishAll hp).close fun cmd' hc h => by
    rw [hcmd] at hc
    cases hc
    refine ⟨fun ht => ?_, fun hw => ?_⟩
    · obtain ⟨i, d, hb⟩ := htouch h ht
      exact .inl (hmem _ hb).1
    · obtain ⟨d, hd, hdw⟩ := hw
      obtain ⟨⟨i, h', d'⟩, hb, he⟩ := List.mem_map.mp hd
      cases he
      exact .inl ((hmem _ hb).2 hdw)
  let c₂ := binds.foldl (fun c b => c.recorded b.2.1 b.2.2 q.jobs.size) c₁
  refine ⟨{ c₂ with metrics := c₂.metrics.recordKernelLaunch },
    (show q'.Layout n by rw [hp.eq]; exact hL₁.withCtx _).withCtx _,
    hc'.congr rfl rfl rfl rfl hc'.frame.kernels hc'.frame.baseOptions, hcov'.congr rfl rfl,
    (fun _ _ _ h => by cases h), answers_of_run ?_ hr.answers⟩
  · rw [Call.run_invoke, invoke_run_of_ok hseq]
    simp only [Except.map_ok, hr.coupled.size_events]
    rfl

theorem Refines.read {h : Nat} (hr : Refines ctx₀ calls n ⟨q, .ready (.toHost h :: cs), as⟩ c)
    (hv : h < q.ctx.matrices.size) :
    ∃ c', Refines ctx₀ calls n
      ⟨q.submit (readCommand h ((q.ctx.matrix h).rows * (q.ctx.matrix h).cols) (q.ctx.matrix h).writes),
        .reading h q.jobs.size cs, as⟩ c' := by
  let c' := c.runCommand "read_buffer" (c.matrix h).writes fun _ => .ok []
  have hm : c'.matrix h = c.matrix h := by simp only [c', matrix, matrices_runCommand_nil]
  have hlen : (q.ctx.matrix h).rows * (q.ctx.matrix h).cols = (c'.matrix h).rows * (c'.matrix h).cols := by
    rw [hm, hr.coupled.frame.rows, hr.coupled.frame.cols]
  have hrun : (Call.toHost h).run.run.run c =
      .ok ((c'.finishRead h q.jobs.size).1.map .host, (c'.finishRead h q.jobs.size).2) := by
    rw [Call.run_toHost, toHost_run, hr.coupled.size_events]
    rfl
  refine ⟨c', hr.layout.submit fun d hd => hr.coupled.lists.queued h d (List.mem_append_left _ hd), ?_,
    hr.covered.submit _, fun h' e cs' hcl => ?_, ?_⟩
  · refine hr.coupled.submit (readCommand_confined ..) (fun k hk => ?_)
      (by
        show c.firstFailure? (q.ctx.matrix h).writes = _
        rw [← firstFailure_failedEvents, hr.coupled.lists.writes, firstFailure_failedEvents])
      (hr.covered.read_ordered h _)
    obtain ⟨d, hk⟩ := hk
    simp only [readCommand, List.mem_singleton, Prod.mk.injEq] at hk
    rw [hk.1]
    exact hv
  · cases hcl
    refine ⟨by simp, ⟨(q.ctx.matrix h).writes, by rw [command?_submit, if_pos rfl, hlen]⟩, fun job hjob hres => ?_⟩
    simp only [submit_jobs, Array.getElem?_push_size, Option.some.injEq] at hjob
    subst hjob
    cases hres
  · rw [← hr.answers]
    simp only [Client.rest, runCalls_cons_ok hrun]

theorem Refines.readFailed {h e : Nat} {m : String} (hr : Refines ctx₀ calls n ⟨q, .reading h e cs, as⟩ c)
    (hs : q.status? e = some (.failed m)) : Refines ctx₀ calls n ⟨q, .ready cs, as ++ [.ok (.error (.device m))]⟩ c := by
  have hf := hr.coupled.failure?_of_failed hr.layout hs
  refine ⟨hr.layout, hr.coupled, hr.covered.close_of_status (by rw [hs]; simp), (fun _ _ _ h => by cases h), ?_⟩
  rw [← hr.answers]
  simp [Client.rest, finishRead, hf]

/-- Waiting on the matrix's list after its read completed finds what the sequential run finds. -/
theorem firstFailure_of_settle? {q : HostQueue} {c : Context} (hL : q.Layout n) (hc : q.Coupled c) {h : Nat}
    {x : Option (String × String)} (hw : q.settle? (q.ctx.matrix h).readWrites = some x) :
    c.firstFailure? (c.matrix h).readWrites = x := by
  rw [← firstFailure_failedEvents, ← hc.lists.readWrites, firstFailure_failedEvents]
  exact settle?_eq_firstFailure (fun _ _ hd => hc.failure?_of_complete hL hd)
    (fun _ _ _ hd => hc.failure?_of_failed hL hd) hw

theorem Refines.waitFailed {h e : Nat} {l m : String} (hr : Refines ctx₀ calls n ⟨q, .reading h e cs, as⟩ c)
    (hs : q.status? e = some .complete) (hw : q.settle? (q.ctx.matrix h).readWrites = some (some (l, m))) :
    ∃ c', Refines ctx₀ calls n
      ⟨q.modifyMetrics (·.recordTransferFromDevice (8 * ((q.ctx.matrix h).rows * (q.ctx.matrix h).cols))),
        .ready cs, as ++ [.ok (.error (.device m))]⟩ c' := by
  have hfe := hr.coupled.failure?_of_complete hr.layout hs
  have hff := firstFailure_of_settle? hr.layout hr.coupled hw
  refine ⟨{ c with metrics := c.metrics.recordTransferFromDevice (8 * ((c.matrix h).rows * (c.matrix h).cols)) },
    hr.layout.withCtx _, hr.coupled.congr rfl rfl rfl rfl hr.coupled.frame.kernels hr.coupled.frame.baseOptions,
    (hr.covered.close_of_status (by rw [hs]; simp)).congr rfl rfl, (fun _ _ _ h => by cases h), ?_⟩
  rw [← hr.answers]
  simp [Client.rest, finishRead, hfe, hff]

theorem Refines.copied {h e : Nat} {m' : DeviceMatrix} (hr : Refines ctx₀ calls n ⟨q, .reading h e cs, as⟩ c)
    (hs : q.status? e = some .complete) (hw : q.settle? (q.ctx.matrix h).readWrites = some none)
    (hcl : q.Cleared (q.ctx.matrix h) m') :
    ∃ c', Refines ctx₀ calls n
      ⟨(q.modifyMetrics (·.recordTransferFromDevice (8 * ((q.ctx.matrix h).rows * (q.ctx.matrix h).cols)))).setMatrix h m',
        .ready cs, as ++ [.ok (.ok (.host ⟨(q.ctx.matrix h).rows, (q.ctx.matrix h).cols, q.copied e⟩))]⟩ c' := by
  have hfe := hr.coupled.failure?_of_complete hr.layout hs
  have hff := firstFailure_of_settle? hr.layout hr.coupled hw
  -- the read copied out what the sequential context holds
  have hcopy : q.copied e = (c.matrix h).data.extract 0 ((c.matrix h).rows * (c.matrix h).cols) := by
    have hres := hr.layout.status_result e _ hs
    simp only [result?, Option.bind_eq_some_iff] at hres
    obtain ⟨job, hjob, hjr⟩ := hres
    simp only [HostQueue.copied, hjob, Option.map_some, Option.getD_some]
    exact (hr.reading h e cs rfl).copied job hjob hjr
  let c₁ : Context := { c with metrics := c.metrics.recordTransferFromDevice (8 * ((c.matrix h).rows * (c.matrix h).cols)) }
  have hc₁ : (q.modifyMetrics (·.recordTransferFromDevice (8 * ((q.ctx.matrix h).rows * (q.ctx.matrix h).cols)))).Coupled c₁ :=
    hr.coupled.congr rfl rfl rfl rfl hr.coupled.frame.kernels hr.coupled.frame.baseOptions
  refine ⟨c₁.cleared h, (hr.layout.withCtx _).withCtx _,
    hc₁.clear (fun _ hd => hc₁.failure?_of_complete (hr.layout.withCtx _) hd) (hcl.modifyMetrics _),
    ((hr.covered.close_of_status (by rw [hs]; simp)).clear hcl).congr rfl rfl, (fun _ _ _ h => by cases h), ?_⟩
  rw [← hr.answers]
  simp [Client.rest, finishRead, hfe, hff, hcopy, hr.coupled.frame.rows, hr.coupled.frame.cols, c₁]

/-- Every step keeps a refinement. -/
theorem Refines.step {s s' : Session} {c : Context} (hr : s.Refines ctx₀ calls n c) (hs : Step s s') :
    ∃ c', s'.Refines ctx₀ calls n c' := by
  cases hs with
  | worker w h => exact ⟨c, hr.worker h⟩
  | zeros h => exact hr.zeros h
  | fromHostFailed h => exact hr.fromHostFailed h
  | fromHostEmpty h hm => exact hr.fromHostEmpty h hm
  | fromHost h hm hp => exact hr.fromHost h hm hp
  | allocPanic hc h => exact ⟨c, hr.allocPanic hc h⟩
  | launchFailed _ h => exact hr.launchFailed h
  | launchPanic _ h => exact absurd h (prepareLaunch_ne_panic _ _ _ _ _)
  | launch hv h hp => exact hr.launch hv h hp
  | read hv => exact hr.read hv
  | readFailed hs => exact ⟨c, hr.readFailed hs⟩
  | waitFailed hs hw => exact hr.waitFailed hs hw
  | copied hs hw hc => exact hr.copied hs hw hc

/-- A program that has not started on a fresh context refines that context. -/
theorem Refines.start (hfresh : ctx₀.matrices = #[] ∧ ctx₀.events = #[]) :
    (Session.start ctx₀ n calls).Refines ctx₀ calls n ctx₀ := by
  -- a fresh context has no matrices, so every list it reads is empty
  have hnil : ∀ h, ctx₀.matrix h = default := fun h => by simp [matrix, hfresh.1]
  have hnone : ∀ j, (HostQueue.start ctx₀ n).command? j = none := fun j => rfl
  refine ⟨Layout.start ctx₀ n, ⟨.refl ctx₀, ⟨rfl, fun _ => rfl, hfresh.2.symm⟩, ⟨fun _ => rfl, fun _ => rfl,
    fun h e he => ?_, fun h e he => ?_⟩, fun j cmd hj => ?_, fun i j ci cj _ hi => ?_⟩,
    fun i cmd h hi => ?_, (fun _ _ _ h => by cases h), by simp [Session.start, Client.rest]⟩
  · simp [Session.start, HostQueue.start, hnil] at he
  · simp [hnil] at he
  · cases (hnone j).symm.trans hj
  · cases (hnone i).symm.trans hi
  · cases (hnone i).symm.trans hi

/-- Every state a program reaches refines some sequential context. -/
theorem Refines.reachable (hfresh : ctx₀.matrices = #[] ∧ ctx₀.events = #[]) {s : Session}
    (hs : Reachable ctx₀ n calls s) : ∃ c, s.Refines ctx₀ calls n c := by
  induction hs with
  | start => exact ⟨ctx₀, .start hfresh⟩
  | step _ hstep ih =>
    obtain ⟨c, hc⟩ := ih
    exact hc.step hstep

end Steps

end Session

/-- The sequential run from `c` of what remains keeps the events of `c`. -/
theorem Client.rest_grows (c : Context) (cl : Client) : (cl.rest c).2.Grows c := by
  cases cl with
  | ready cs => exact runCalls_grows c cs
  | reading h e cs => exact (runCalls_grows _ cs).trans (.of_events (events_finishRead c h e))
  | stopped => exact .refl c

/-- A program on a fresh context, run on a host queue with any number of workers and any
    interleaving of their steps, gets a prefix of the answers of the program run one call at a
    time, and every event that ended on the queue ended as the same event of that run. -/
theorem Session.sequential_answers {ctx₀ : Context} {calls : List Call} {n : Nat}
    (hfresh : ctx₀.matrices = #[] ∧ ctx₀.events = #[]) {s : Session} (hs : Session.Reachable ctx₀ n calls s) :
    s.answers <+: (runCalls ctx₀ calls).1 ∧
      ∀ e st, s.queue.status? e = some st → (runCalls ctx₀ calls).2.events[e]? = some ⟨s.queue.label e, st⟩ := by
  obtain ⟨c, hr⟩ := Session.Refines.reachable hfresh hs
  refine ⟨⟨(s.client.rest c).1, congrArg Prod.fst hr.answers⟩, fun e st hst => ?_⟩
  have hev := hr.coupled.event_of_result (hr.layout.status_result e st hst)
  have he : e < c.events.size := (Array.getElem?_eq_some_iff.mp hev).1
  rw [← congrArg Prod.snd hr.answers, Client.rest_grows c s.client e he, hev]

end OffloadAlgebra
