import OffloadAlgebra.Proofs.Session.Coupling
/-!
  The queue in step through the program's own actions.

  The program's thread changes the queue and the sequential run changes its context in matching
  ways, and each pair keeps them `Coupled`: a change that leaves the matrices and events alone
  on both sides (`Coupled.congr`), a new matrix on both (`Coupled.pushMatrix`), a submission that
  the sequential run runs at once (`Coupled.submit`), an event recorded on a matrix
  (`Coupled.publish`, `Coupled.publishAll`), and the completed events of a matrix dropped
  (`Coupled.clear`).  A submission waits on every older job it conflicts with when the older
  jobs are listed on their matrices (`Covered`), and recording the new job lists it in turn.
-/

namespace OffloadAlgebra

open Context

theorem Context.Frame.symm {c₁ c₂ : Context} (h : c₁.Frame c₂) : c₂.Frame c₁ :=
  ⟨h.kernels.symm, h.baseOptions.symm, h.size.symm, fun k => (h.rows k).symm, fun k => (h.cols k).symm⟩

/-- Running a command changes the contents of matrices, the events and the counters. -/
theorem Context.keeps_runCommand (c : Context) (label : String) (waits : List Nat)
    (work : Context → Except Fault (List (Nat × Array Float))) : (c.runCommand label waits work).Keeps c := by
  cases ho : c.outcome waits work with
  | ok ws =>
    rw [runCommand_of_ok ho]
    exact .of_data (size_applyWrites c ws) rfl rfl (matrix_applyWrites_data c ws)
  | error m =>
    rw [runCommand_of_error ho]
    exact .of_data rfl rfl rfl fun h => ⟨(c.matrix h).data, rfl⟩

namespace HostQueue

variable {n : Nat} {q q' : HostQueue} {c c' : Context}

/-! ## Changes outside the matrices and events -/

/-- A change that keeps the jobs, and the matrices and events on both sides, keeps the queue in
    step, as long as the two sides keep the same kernel table and base options. -/
theorem Coupled.congr (hc : q.Coupled c) (hjobs : q'.jobs = q.jobs) (hq : q'.ctx.matrices = q.ctx.matrices)
    (hcm : c'.matrices = c.matrices) (hce : c'.events = c.events) (hk : q'.ctx.kernels = c'.kernels)
    (hb : q'.ctx.baseOptions = c'.baseOptions) : q'.Coupled c' := by
  have hmq (h : Nat) : q'.ctx.matrix h = q.ctx.matrix h := by simp only [matrix, hq]
  have hmc (h : Nat) : c'.matrix h = c.matrix h := by simp only [matrix, hcm]
  have hfail (l : List Nat) : c'.failedEvents l = c.failedEvents l :=
    failedEvents_congr fun e _ => by simp only [failure?, event?, hce]
  have hcmd (e : Nat) : q'.command? e = q.command? e := by simp only [command?, hjobs]
  have hstat (e : Nat) : q'.status? e = q.status? e := by simp only [status?, hjobs]
  refine ⟨⟨hk, hb, ?_, fun h => ?_, fun h => ?_⟩, ?_, ⟨fun h => ?_, fun h => ?_, fun h => ?_, fun h => ?_⟩, ?_, ?_⟩
  · rw [hq, hcm]; exact hc.frame.size
  · rw [hmq, hmc]; exact hc.frame.rows h
  · rw [hmq, hmc]; exact hc.frame.cols h
  · have hd : Agree q'.drain q.drain := by
      rw [drain_eq, drain_eq, hjobs]
      exact Agree.foldl_drain (confined_jobs hc.confined) ⟨by simp [hq], fun h => by simp [matrix, hq], rfl⟩
    exact hd.trans (hc.drain.trans ⟨hcm.symm ▸ rfl, fun h => by rw [hmc], hce.symm⟩)
  · rw [hfail, hfail, hmq, hmc]; exact hc.lists.writes h
  · rw [hfail, hfail, hmq, hmc]; exact hc.lists.readWrites h
  · rw [hmq, hjobs]; exact hc.lists.queued h
  · rw [hmc, hce]; exact hc.lists.recorded h
  · intro j cmd h
    rw [hq]
    exact hc.confined j cmd (by rwa [← hcmd])
  · intro i j ci cj hij hi hj hconf
    rw [hstat]
    exact hc.ordered i j ci cj hij (by rwa [← hcmd]) (by rwa [← hcmd]) hconf

theorem Covered.congr {x : Option Nat} (hcov : q.Covered x) (hjobs : q'.jobs = q.jobs)
    (hq : q'.ctx.matrices = q.ctx.matrices) : q'.Covered x := by
  intro i cmd h hi hx
  have hmq : q'.ctx.matrix h = q.ctx.matrix h := by simp only [matrix, hq]
  have hstat : q'.status? i = q.status? i := by simp only [status?, hjobs]
  rw [hmq, hstat]
  exact hcov i cmd h (by simpa only [command?, hjobs] using hi) hx

/-! ## A new matrix -/

@[simp] theorem writes_default : (default : DeviceMatrix).writes = [] := rfl

@[simp] theorem readWrites_default : (default : DeviceMatrix).readWrites = [] := rfl

/-- A property of the matrices of two contexts of the same size holds after both get the same new
    matrix, if it holds of the new matrix and of the default one. -/
theorem pushMatrix_both {c₁ c₂ : Context} (hsize : c₁.matrices.size = c₂.matrices.size) (m : DeviceMatrix)
    {P : DeviceMatrix → DeviceMatrix → Prop} (hold : ∀ k, k < c₂.matrices.size → P (c₁.matrix k) (c₂.matrix k))
    (hm : P m m) (hd : P default default) (k : Nat) : P ((c₁.pushMatrix m).matrix k) ((c₂.pushMatrix m).matrix k) := by
  rw [matrix_pushMatrix, matrix_pushMatrix, hsize]
  by_cases hk : k < c₂.matrices.size
  · simp only [hk, if_true]
    exact hold k hk
  · by_cases he : k = c₂.matrices.size
    · subst he
      simp only [Nat.lt_irrefl, if_false, if_true]
      exact hm
    · simp only [hk, he, if_false]
      exact hd

theorem Coupled.pushMatrix (hc : q.Coupled c) {m : DeviceMatrix} (hw : m.writes = []) (hrw : m.readWrites = []) :
    ({ q with ctx := q.ctx.pushMatrix m } : HostQueue).Coupled (c.pushMatrix m) := by
  have hsize := hc.frame.size
  have hJ : ∀ job ∈ q.jobs.toList, job.result = none →
      job.command.Confined ∧ ∀ h, job.command.Touches h → h < ({ q.ctx with events := #[] } : Context).matrices.size := by
    intro job hjob _
    obtain ⟨j, hj⟩ := List.mem_iff_getElem?.mp hjob
    rw [Array.getElem?_toList] at hj
    exact hc.confined j job.command (by simp [command?, hj])
  have hdrain : Agree ({ q with ctx := q.ctx.pushMatrix m } : HostQueue).drain (q.drain.pushMatrix m) := by
    rw [drain_eq ({ q with ctx := q.ctx.pushMatrix m } : HostQueue), drain_eq q]
    exact foldl_drain_pushMatrix hJ m
  refine ⟨⟨hc.frame.kernels, hc.frame.baseOptions, by simp [hsize], fun k => ?_, fun k => ?_⟩,
    hdrain.trans (hc.drain.pushMatrix m),
    ⟨fun k => ?_, fun k => ?_, fun k => ?_, fun k => ?_⟩, fun j cmd hj => ?_, hc.ordered⟩
  · exact pushMatrix_both hsize m (P := fun a b => a.rows = b.rows) (fun k _ => hc.frame.rows k) rfl rfl k
  · exact pushMatrix_both hsize m (P := fun a b => a.cols = b.cols) (fun k _ => hc.frame.cols k) rfl rfl k
  · exact pushMatrix_both hsize m (P := fun a b => c.failedEvents a.writes = c.failedEvents b.writes)
      (fun k _ => hc.lists.writes k) rfl rfl k
  · exact pushMatrix_both hsize m (P := fun a b => c.failedEvents a.readWrites = c.failedEvents b.readWrites)
      (fun k _ => hc.lists.readWrites k) rfl rfl k
  · exact pushMatrix_both hsize m (P := fun a _ => ∀ e ∈ a.writes ++ a.readWrites, e < q.jobs.size)
      (fun k _ => hc.lists.queued k) (by simp [hw, hrw]) (by simp) k
  · exact pushMatrix_both hsize m (P := fun _ b => ∀ e ∈ b.writes ++ b.readWrites, e < c.events.size)
      (fun k _ => hc.lists.recorded k) (by simp [hw, hrw]) (by simp) k
  · obtain ⟨hconf, ht⟩ := hc.confined j cmd hj
    exact ⟨hconf, fun h hh => by have := ht h hh; simp only [size_pushMatrix]; omega⟩

theorem Covered.pushMatrix {x : Option Nat} (hc : q.Coupled c) (hcov : q.Covered x) (m : DeviceMatrix) :
    ({ q with ctx := q.ctx.pushMatrix m } : HostQueue).Covered x := by
  intro i cmd h hi hx
  -- every matrix a job holds is older than the new one
  have hold : cmd.Touches h → (q.ctx.pushMatrix m).matrix h = q.ctx.matrix h := fun ht =>
    matrix_pushMatrix_of_lt _ m ((hc.confined i cmd hi).2 h ht)
  obtain ⟨h₁, h₂⟩ := hcov i cmd h hi hx
  exact ⟨fun ht => by simp only; rw [hold ht]; exact h₁ ht,
    fun hw => by simp only; rw [hold hw.touches]; exact h₂ hw⟩

/-! ## A submission -/

/-- A submission that the sequential run runs at once keeps the queue in step, when the two wait
    lists fail alike and the new command waits on every older job it conflicts with that has not
    ended. -/
theorem Coupled.submit (hc : q.Coupled c) {cmd : Command} {waits : List Nat} (hconf : cmd.Confined)
    (htouch : ∀ h, cmd.Touches h → h < q.ctx.matrices.size) (hff : c.firstFailure? cmd.waits = c.firstFailure? waits)
    (hord : ∀ i ci, q.command? i = some ci → ci.Conflicts cmd → i ∈ cmd.waits ∨ q.status? i ≠ none) :
    (q.submit cmd).Coupled (c.runCommand cmd.label waits cmd.work) := by
  have hk := keeps_runCommand c cmd.label waits cmd.work
  have hev : ∀ k < c.events.size, (c.runCommand cmd.label waits cmd.work).events[k]? = c.events[k]? :=
    fun k hk => events_runCommand_lt c _ _ _ hk
  -- the lists name only events that exist, which the new event does not change
  have hfail : ∀ l : List Nat, (∀ e ∈ l, e < c.events.size) →
      (c.runCommand cmd.label waits cmd.work).failedEvents l = c.failedEvents l :=
    fun l hl => failedEvents_congr fun e he => failure?_of_lt (hl e he) hev
  have hqsize : q.jobs.size = c.events.size := hc.size_events.symm
  refine ⟨hc.frame.trans hk.frame.symm, ?_, ⟨fun h => ?_, fun h => ?_, fun h => ?_, fun h => ?_⟩, fun j cj hj => ?_, ?_⟩
  · rw [drain_submit]
    exact hc.drain.runCommand _ (by rw [firstFailure_congr hc.drain.events]; exact hff) (hc.drain.work hconf)
  · have hq := hc.lists.queued h
    have hr := hc.lists.recorded h
    rw [submit_ctx, hk.writes, hfail _ (fun e he => hqsize ▸ hq e (List.mem_append_left _ he)),
      hfail _ (fun e he => hr e (List.mem_append_left _ he))]
    exact hc.lists.writes h
  · have hq := hc.lists.queued h
    have hr := hc.lists.recorded h
    rw [submit_ctx, hk.readWrites, hfail _ (fun e he => hqsize ▸ hq e (List.mem_append_right _ he)),
      hfail _ (fun e he => hr e (List.mem_append_right _ he))]
    exact hc.lists.readWrites h
  · intro e he
    have := hc.lists.queued h e he
    simp only [submit_jobs, Array.size_push]
    omega
  · intro e he
    rw [hk.writes, hk.readWrites] at he
    have := hc.lists.recorded h e he
    simp only [events_runCommand, Array.size_push]
    omega
  · rw [command?_submit] at hj
    split at hj
    · cases hj
      exact ⟨hconf, htouch⟩
    · exact hc.confined j cj hj
  · intro i j ci cj hij hi hj hconflict
    rw [command?_submit] at hi hj
    have hi' : i ≠ q.jobs.size := by
      intro he; subst he
      split at hj
      · omega
      · have := (command?_isSome_iff q j).mp (by rw [hj]; rfl); omega
    rw [if_neg hi'] at hi
    rw [status?_submit, if_neg hi']
    split at hj
    · cases hj
      exact hord i ci hi hconflict
    · exact hc.ordered i j ci cj hij hi hj hconflict

/-- After a submission every older job is still listed; the new one is not yet. -/
theorem Covered.submit (hcov : q.Covered none) (cmd : Command) : (q.submit cmd).Covered (some q.jobs.size) := by
  intro i ci h hi hx
  rw [command?_submit, if_neg (fun he => hx (by rw [he]))] at hi
  rw [submit_ctx, status?_submit, if_neg (fun he => hx (by rw [he]))]
  exact hcov i ci h hi (by simp)

theorem mem_launchWaits {ctx : Context} {binds : List (Nat × Nat × Direction)} {j h : Nat} {d : Direction}
    (hb : (j, h, d) ∈ binds) {i : Nat} (hi : i ∈ (ctx.matrix h).readWrites) (hd : d ≠ .input) :
    i ∈ ctx.launchWaits binds := by
  refine List.mem_flatMap.mpr ⟨(j, h, d), hb, ?_⟩
  cases d with
  | input => exact absurd rfl hd
  | output | inputOutput => exact hi

theorem mem_launchWaits_input {ctx : Context} {binds : List (Nat × Nat × Direction)} {j h : Nat}
    (hb : (j, h, .input) ∈ binds) {i : Nat} (hi : i ∈ (ctx.matrix h).writes) : i ∈ ctx.launchWaits binds :=
  List.mem_flatMap.mpr ⟨(j, h, .input), hb, hi⟩

/-- A launch waits on every job it conflicts with that is still listed on its buffers: a writer of
    a buffer it reads is on the buffer's write list, and any holder of a buffer it writes is on
    the buffer's list of both directions. -/
theorem Covered.launch_ordered (hcov : q.Covered none) {cmd : Command} {binds : List (Nat × Nat × Direction)}
    (hbuf : cmd.buffers = binds.map fun (_, h, d) => (h, d)) (hw : cmd.waits = q.ctx.launchWaits binds) :
    ∀ i ci, q.command? i = some ci → ci.Conflicts cmd → i ∈ cmd.waits ∨ q.status? i ≠ none := by
  intro i ci hi ⟨h, hconf⟩
  have hbind : ∀ d, (h, d) ∈ cmd.buffers → ∃ j, (j, h, d) ∈ binds := by
    intro d hd
    rw [hbuf] at hd
    obtain ⟨⟨j, h', d'⟩, hb, he⟩ := List.mem_map.mp hd
    cases he
    exact ⟨j, hb⟩
  have hcov' := hcov i ci h hi (by simp)
  rw [hw]
  rcases hconf with ⟨hwr, d, hd⟩ | ⟨ht, d, hd, hdw⟩
  · obtain ⟨j, hb⟩ := hbind d hd
    cases d with
    | input => exact (hcov'.2 hwr).imp_left (mem_launchWaits_input hb)
    | output => exact (hcov'.1 hwr.touches).imp_left fun hi => mem_launchWaits hb hi (by decide)
    | inputOutput => exact (hcov'.1 hwr.touches).imp_left fun hi => mem_launchWaits hb hi (by decide)
  · obtain ⟨j, hb⟩ := hbind d hd
    have hne : d ≠ .input := by
      rintro rfl
      cases hdw
    exact (hcov'.1 ht).imp_left fun hi => mem_launchWaits hb hi hne

/-- A read waits on every writer of its matrix that is still listed on it. -/
theorem Covered.read_ordered (hcov : q.Covered none) (h len : Nat) :
    ∀ i ci, q.command? i = some ci → ci.Conflicts (readCommand h len (q.ctx.matrix h).writes) →
      i ∈ (readCommand h len (q.ctx.matrix h).writes).waits ∨ q.status? i ≠ none := by
  intro i ci hi ⟨h', hconf⟩
  rcases hconf with ⟨hwr, d, hd⟩ | ⟨-, d, hd, hdw⟩
  · simp only [readCommand, List.mem_singleton, Prod.mk.injEq] at hd
    rw [hd.1] at hwr
    exact (hcov i ci h hi (by simp)).2 hwr
  · simp only [readCommand, List.mem_singleton, Prod.mk.injEq] at hd
    rw [hd.2] at hdw
    cases hdw

/-- No job conflicts with a command on matrices newer than every matrix a job holds. -/
theorem Coupled.not_conflicts_fresh (hc : q.Coupled c) {cmd : Command}
    (hfresh : ∀ h, cmd.Touches h → q.ctx.matrices.size ≤ h) {i : Nat} {ci : Command} (hi : q.command? i = some ci) :
    ¬ ci.Conflicts cmd := by
  rintro ⟨h, ⟨hwr, ht⟩ | ⟨ht', hwr⟩⟩
  · have := (hc.confined i ci hi).2 h hwr.touches
    have := hfresh h ht
    omega
  · have := (hc.confined i ci hi).2 h ht'
    have := hfresh h hwr.touches
    omega

/-! ## Changing the lists of one matrix -/

@[simp] theorem jobs_setMatrix (h : Nat) (m : DeviceMatrix) : (q.setMatrix h m).jobs = q.jobs := rfl

@[simp] theorem status?_setMatrix (h : Nat) (m : DeviceMatrix) (e : Nat) :
    (q.setMatrix h m).status? e = q.status? e := rfl

@[simp] theorem command?_setMatrix (h : Nat) (m : DeviceMatrix) (e : Nat) :
    (q.setMatrix h m).command? e = q.command? e := rfl

@[simp] theorem size_setMatrix (h : Nat) (m : DeviceMatrix) :
    (q.setMatrix h m).ctx.matrices.size = q.ctx.matrices.size :=
  Array.size_modify ..

theorem matrix_setMatrix (h : Nat) (m : DeviceMatrix) (k : Nat) :
    (q.setMatrix h m).ctx.matrix k = if k = h ∧ k < q.ctx.matrices.size then m else q.ctx.matrix k :=
  matrix_modify ..

/-- A property of the matrices of two contexts of the same size holds after matrix `h` changes on
    both, if it holds of the two new matrices. -/
theorem modify_both {c₁ c₂ : Context} (hsize : c₁.matrices.size = c₂.matrices.size) {h : Nat}
    {f g : DeviceMatrix → DeviceMatrix} {P : DeviceMatrix → DeviceMatrix → Prop}
    (hold : ∀ k, P (c₁.matrix k) (c₂.matrix k)) (hnew : h < c₂.matrices.size → P (f (c₁.matrix h)) (g (c₂.matrix h)))
    (k : Nat) : P (({ c₁ with matrices := c₁.matrices.modify h f } : Context).matrix k)
      (({ c₂ with matrices := c₂.matrices.modify h g } : Context).matrix k) := by
  rw [matrix_modify, matrix_modify, hsize]
  by_cases hk : k = h ∧ k < c₂.matrices.size
  · obtain ⟨rfl, hlt⟩ := hk
    simp only [hlt, and_self, if_true]
    exact hnew hlt
  · simp only [hk, if_false]
    exact hold k

/-- Replacing matrix `h` of the queue by `m'` and changing it in `c` by `f` keeps the queue in
    step, when both keep the matrix's shape and contents, and the new lists wait on the same
    failed events and name only events that exist. -/
theorem Coupled.setMatrix (hc : q.Coupled c) {h : Nat} {m' : DeviceMatrix} {f : DeviceMatrix → DeviceMatrix}
    (hrows : m'.rows = (q.ctx.matrix h).rows) (hcols : m'.cols = (q.ctx.matrix h).cols)
    (hdata : m'.data = (q.ctx.matrix h).data) (hf : ∀ m, (f m).rows = m.rows ∧ (f m).cols = m.cols ∧ (f m).data = m.data)
    (hw : c.failedEvents m'.writes = c.failedEvents (f (c.matrix h)).writes)
    (hrw : c.failedEvents m'.readWrites = c.failedEvents (f (c.matrix h)).readWrites)
    (hq : ∀ e ∈ m'.writes ++ m'.readWrites, e < q.jobs.size)
    (hr : ∀ e ∈ (f (c.matrix h)).writes ++ (f (c.matrix h)).readWrites, e < c.events.size) :
    (q.setMatrix h m').Coupled { c with matrices := c.matrices.modify h f } := by
  have hsize := hc.frame.size
  have hboth {P : DeviceMatrix → DeviceMatrix → Prop} := modify_both hsize (h := h) (f := fun _ => m') (g := f) (P := P)
  have hdrain : Agree (q.setMatrix h m').drain q.drain :=
    drain_agree rfl (Array.size_modify ..) (fun k => by
      show (({ q.ctx with matrices := q.ctx.matrices.modify h fun _ => m' } : Context).matrix k).data = _
      rw [matrix_modify]
      split
      · rename_i hk; rw [hk.1, hdata]
      · rfl) (confined_jobs hc.confined)
  have hcagree : Agree c { c with matrices := c.matrices.modify h f } :=
    ⟨(Array.size_modify ..).symm, fun k => by
      rw [matrix_modify]
      split
      · rw [(hf _).2.2]
      · rfl, rfl⟩
  refine ⟨⟨hc.frame.kernels, hc.frame.baseOptions, by simp only [size_setMatrix, Array.size_modify, hsize], hboth (P := fun a b => a.rows = b.rows)
      hc.frame.rows fun _ => by rw [hrows, (hf _).1, hc.frame.rows],
    hboth (P := fun a b => a.cols = b.cols) hc.frame.cols fun _ => by rw [hcols, (hf _).2.1, hc.frame.cols]⟩,
    hdrain.trans (hc.drain.trans hcagree),
    ⟨hboth (P := fun a b => c.failedEvents a.writes = c.failedEvents b.writes) hc.lists.writes fun _ => hw,
      hboth (P := fun a b => c.failedEvents a.readWrites = c.failedEvents b.readWrites) hc.lists.readWrites fun _ => hrw,
      hboth (P := fun a _ => ∀ e ∈ a.writes ++ a.readWrites, e < q.jobs.size) hc.lists.queued fun _ => hq,
      hboth (P := fun _ b => ∀ e ∈ b.writes ++ b.readWrites, e < c.events.size) hc.lists.recorded fun _ => hr⟩,
    fun j cmd hj => ?_, hc.ordered⟩
  rw [size_setMatrix]
  exact hc.confined j cmd hj

theorem Covered.setMatrix {x : Option Nat} (hcov : q.Covered x) {h : Nat} {m' : DeviceMatrix}
    (hw : ∀ i ∈ (q.ctx.matrix h).writes, i ∈ m'.writes ∨ q.status? i = some .complete)
    (hrw : ∀ i ∈ (q.ctx.matrix h).readWrites, i ∈ m'.readWrites ∨ q.status? i = some .complete) :
    (q.setMatrix h m').Covered x := by
  intro i cmd k hi hx
  obtain ⟨h₁, h₂⟩ := hcov i cmd k hi hx
  have hdone : q.status? i = some .complete → q.status? i ≠ none := fun hs => by rw [hs]; simp
  rw [status?_setMatrix, matrix_setMatrix]
  split
  · rename_i hk
    rw [← hk.1] at hw hrw
    refine ⟨fun ht => ?_, fun hwr => ?_⟩
    · rcases h₁ ht with hm | hs
      · exact (hrw i hm).imp id hdone
      · exact .inr hs
    · rcases h₂ hwr with hm | hs
      · exact (hw i hm).imp id hdone
      · exact .inr hs
  · exact ⟨h₁, h₂⟩

/-! ## Recording an event -/

theorem Pruned.mem_or_complete {l l' : List Nat} (hp : q.Pruned l l') {i : Nat} (hi : i ∈ l) :
    i ∈ l' ∨ q.status? i = some .complete := by
  by_cases hs : q.status? i = some .complete
  · exact .inr hs
  · left
    have : i ∈ l.filter (fun e => q.status? e != some .complete) := List.mem_filter.mpr ⟨hi, by simp [hs]⟩
    rw [← hp.2] at this
    exact (List.mem_filter.mp this).1

theorem Appended.mem_or_complete {l l' : List Nat} {e : Nat} (ha : q.Appended l e l') {i : Nat} (hi : i ∈ l) :
    i ∈ l' ∨ q.status? i = some .complete := by
  obtain ⟨kept, hp, rfl⟩ := ha
  exact (hp.mem_or_complete hi).imp (fun h => List.mem_append_left _ h) id

theorem Appended.mem_self {l l' : List Nat} {e : Nat} (ha : q.Appended l e l') : e ∈ l' := by
  obtain ⟨kept, -, rfl⟩ := ha
  simp

/-- Recording event `e` on matrix `h` on both sides keeps the queue in step. -/
theorem Coupled.publish (hc : q.Coupled c) (hcomp : ∀ e, q.status? e = some .complete → c.failure? e = none)
    {h : Nat} {dir : Direction} {e : Nat} (he : e < q.jobs.size) (hp : q.Publishes h dir e q') :
    q'.Coupled (c.recorded h dir e) := by
  obtain ⟨m', hrec, rfl⟩ := hp
  have he' : e < c.events.size := hc.size_events ▸ he
  refine hc.setMatrix hrec.rows hrec.cols hrec.data (fun _ => ⟨rfl, rfl, rfl⟩) ?_ ?_ ?_ ?_
  · have hw := hrec.writes
    cases hd : dir.writes <;> simp only [hd, if_true, if_false, Bool.false_eq_true] at hw ⊢
    · rw [hw, hc.lists.writes]
    · rw [hw.failedEvents hcomp, failedEvents_record, hc.lists.writes]
  · rw [hrec.readWrites.failedEvents hcomp, failedEvents_record, hc.lists.readWrites]
  · intro d hd
    have hold := hc.lists.queued h
    rcases List.mem_append.mp hd with hd | hd
    · have hw := hrec.writes
      split at hw
      · rcases hw.mem d hd with hd | rfl
        · exact hold d (List.mem_append_left _ hd)
        · exact he
      · rw [hw] at hd
        exact hold d (List.mem_append_left _ hd)
    · rcases hrec.readWrites.mem d hd with hd | rfl
      · exact hold d (List.mem_append_right _ hd)
      · exact he
  · intro d hd
    have hin : d ∈ (c.matrix h).writes ++ (c.matrix h).readWrites ∨ d = e := by
      rcases List.mem_append.mp hd with hd | hd
      · cases hdw : dir.writes <;> simp only [hdw, if_true, if_false, Bool.false_eq_true] at hd
        · exact .inl (List.mem_append_left _ hd)
        · exact (mem_record hd).imp (List.mem_append_left _) id
      · exact (mem_record hd).imp (List.mem_append_right _) id
    rcases hin with hin | rfl
    · exact hc.lists.recorded h d hin
    · exact he'

theorem Covered.publish {x : Option Nat} (hcov : q.Covered x) {h : Nat} {dir : Direction} {e : Nat}
    (hp : q.Publishes h dir e q') : q'.Covered x := by
  obtain ⟨m', hrec, rfl⟩ := hp
  refine hcov.setMatrix (fun i hi => ?_) (fun i hi => hrec.readWrites.mem_or_complete hi)
  have hw := hrec.writes
  cases hd : dir.writes <;> simp only [hd, if_true, if_false, Bool.false_eq_true] at hw
  · exact .inl (hw ▸ hi)
  · exact hw.mem_or_complete hi

/-- Recording changes only the matrices. -/
theorem Publishes.eq {h : Nat} {dir : Direction} {e : Nat} (hp : q.Publishes h dir e q') :
    q' = { q with ctx := { q.ctx with matrices := q'.ctx.matrices } } := by
  obtain ⟨m', -, rfl⟩ := hp
  rfl

theorem Publishes.size_eq {h : Nat} {dir : Direction} {e : Nat} (hp : q.Publishes h dir e q') :
    q'.ctx.matrices.size = q.ctx.matrices.size := by
  obtain ⟨m', -, rfl⟩ := hp
  exact size_setMatrix ..

/-- The recorded event is on the matrix's list of both directions, and on its write list if it
    writes. -/
theorem Publishes.mem_self {h : Nat} {dir : Direction} {e : Nat} (hp : q.Publishes h dir e q')
    (hh : h < q.ctx.matrices.size) : e ∈ (q'.ctx.matrix h).readWrites ∧ (dir.writes → e ∈ (q'.ctx.matrix h).writes) := by
  obtain ⟨m', hrec, rfl⟩ := hp
  rw [matrix_setMatrix, if_pos ⟨rfl, hh⟩]
  refine ⟨hrec.readWrites.mem_self, fun hd => ?_⟩
  have hw := hrec.writes
  rw [if_pos hd] at hw
  exact hw.mem_self

/-- An event that has not completed stays on the lists it is on. -/
theorem Publishes.mem_of_mem {h : Nat} {dir : Direction} {e : Nat} (hp : q.Publishes h dir e q') {i : Nat}
    (hs : q.status? i ≠ some .complete) (k : Nat) :
    (i ∈ (q.ctx.matrix k).readWrites → i ∈ (q'.ctx.matrix k).readWrites) ∧
      (i ∈ (q.ctx.matrix k).writes → i ∈ (q'.ctx.matrix k).writes) := by
  obtain ⟨m', hrec, rfl⟩ := hp
  rw [matrix_setMatrix]
  split
  · rename_i hk
    rw [hk.1]
    refine ⟨fun hi => (hrec.readWrites.mem_or_complete hi).resolve_right hs, fun hi => ?_⟩
    have hw := hrec.writes
    cases hd : dir.writes <;> simp only [hd, if_true, if_false, Bool.false_eq_true] at hw
    · exact hw ▸ hi
    · exact (hw.mem_or_complete hi).resolve_right hs
  · exact ⟨id, id⟩

namespace PublishesAll

variable {e : Nat} {binds : List (Nat × Nat × Direction)}

theorem eq (hp : PublishesAll e q binds q') : q' = { q with ctx := { q.ctx with matrices := q'.ctx.matrices } } := by
  induction hp with
  | nil => rfl
  | cons hd _ ih => rw [ih, hd.eq]

theorem jobs_eq (hp : PublishesAll e q binds q') : q'.jobs = q.jobs := by
  rw [hp.eq]

theorem status?_eq (hp : PublishesAll e q binds q') (i : Nat) : q'.status? i = q.status? i := by
  simp only [status?, hp.jobs_eq]

theorem size_eq (hp : PublishesAll e q binds q') : q'.ctx.matrices.size = q.ctx.matrices.size := by
  induction hp with
  | nil => rfl
  | cons hd _ ih => rw [ih, hd.size_eq]

theorem mem_of_mem (hp : PublishesAll e q binds q') {i : Nat} (hs : q.status? i ≠ some .complete) (k : Nat) :
    (i ∈ (q.ctx.matrix k).readWrites → i ∈ (q'.ctx.matrix k).readWrites) ∧
      (i ∈ (q.ctx.matrix k).writes → i ∈ (q'.ctx.matrix k).writes) := by
  induction hp with
  | nil => exact ⟨id, id⟩
  | cons hd htl ih =>
    have h₁ := hd.mem_of_mem hs k
    have h₂ := ih (by rwa [hd.eq])
    exact ⟨h₂.1 ∘ h₁.1, h₂.2 ∘ h₁.2⟩

/-- A launch that has not ended is listed on each of its buffers once recorded on all of them. -/
theorem mem_self (hp : PublishesAll e q binds q') (hs : q.status? e ≠ some .complete)
    (hh : ∀ b ∈ binds, b.2.1 < q.ctx.matrices.size) :
    ∀ b ∈ binds, e ∈ (q'.ctx.matrix b.2.1).readWrites ∧ (b.2.2.writes → e ∈ (q'.ctx.matrix b.2.1).writes) := by
  induction hp with
  | nil => intro b hb; cases hb
  | @cons q₀ q₁ q₂ i h d rest hd htl ih =>
    have hs₁ : q₁.status? e ≠ some .complete := by rwa [hd.eq]
    intro b hb
    rcases List.mem_cons.mp hb with rfl | hb
    · have hnew := hd.mem_self (hh _ List.mem_cons_self)
      have hkeep := htl.mem_of_mem hs₁ h
      exact ⟨hkeep.1 hnew.1, hkeep.2 ∘ hnew.2⟩
    · refine ih hs₁ (fun b hb => ?_) b hb
      rw [hd.size_eq]
      exact hh b (List.mem_cons_of_mem _ hb)

end PublishesAll

theorem Coupled.publishAll (hc : q.Coupled c) (hcomp : ∀ e, q.status? e = some .complete → c.failure? e = none)
    {e : Nat} (he : e < q.jobs.size) {binds : List (Nat × Nat × Direction)} (hp : PublishesAll e q binds q') :
    q'.Coupled (binds.foldl (fun c b => c.recorded b.2.1 b.2.2 e) c) := by
  induction hp generalizing c with
  | nil => exact hc
  | cons hd _ ih =>
    have heq := hd.eq
    refine ih (hc.publish hcomp he hd) (fun i hs => ?_) (by rw [heq]; exact he)
    rw [heq] at hs
    exact hcomp i hs

theorem Covered.publishAll {x : Option Nat} (hcov : q.Covered x) {e : Nat} {binds : List (Nat × Nat × Direction)}
    (hp : PublishesAll e q binds q') : q'.Covered x := by
  induction hp with
  | nil => exact hcov
  | cons hd _ ih => exact ih (hcov.publish hd)

/-! ## Dropping completed events -/

theorem Coupled.clear (hc : q.Coupled c) (hcomp : ∀ e, q.status? e = some .complete → c.failure? e = none)
    {h : Nat} {m' : DeviceMatrix} (hcl : q.Cleared (q.ctx.matrix h) m') : (q.setMatrix h m').Coupled (c.cleared h) := by
  have hpend : ∀ l, ∀ d ∈ c.pending l, d ∈ l := fun l d hd => (List.mem_filter.mp hd).1
  refine hc.setMatrix hcl.rows hcl.cols hcl.data (fun _ => ⟨rfl, rfl, rfl⟩) ?_ ?_ ?_ ?_
  · rw [hcl.writes.failedEvents hcomp, failedEvents_pending, hc.lists.writes]
  · rw [hcl.readWrites.failedEvents hcomp, failedEvents_pending, hc.lists.readWrites]
  · intro d hd
    refine hc.lists.queued h d ?_
    rcases List.mem_append.mp hd with hd | hd
    · exact List.mem_append_left _ (hcl.writes.subset d hd)
    · exact List.mem_append_right _ (hcl.readWrites.subset d hd)
  · intro d hd
    refine hc.lists.recorded h d ?_
    rcases List.mem_append.mp hd with hd | hd
    · exact List.mem_append_left _ (hpend _ d hd)
    · exact List.mem_append_right _ (hpend _ d hd)

theorem Covered.clear {x : Option Nat} (hcov : q.Covered x) {h : Nat} {m' : DeviceMatrix}
    (hcl : q.Cleared (q.ctx.matrix h) m') : (q.setMatrix h m').Covered x :=
  hcov.setMatrix (fun _ hi => hcl.writes.mem_or_complete hi) (fun _ hi => hcl.readWrites.mem_or_complete hi)

end HostQueue

end OffloadAlgebra
