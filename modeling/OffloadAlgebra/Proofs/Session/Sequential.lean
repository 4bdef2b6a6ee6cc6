import OffloadAlgebra.Proofs.Session.Lists
/-!
  The calls of a program run one at a time.

  One equation per call for what it does to a context, in terms of `runCommand` and of the
  changes it makes to the lists of a matrix:

  * `zeros` allocates (`alloc_run`);
  * `fromHost` allocates, runs the write of its data and records it (`fromHost_run`);
  * `invoke` makes its checks and build, which read and change only the kernel table and the
    counters (`prepareLaunch_frame`), then runs the launch and records it on each of its buffers
    (`invoke_run_of_ok`);
  * `toHost` runs its read and then finishes (`toHost_run`): it fails with the read's failure,
    or with the first failure among the matrix's events, or answers the matrix's contents and
    drops the matrix's completed events (`finishRead`).

  Every call only appends events (`Grows`).
-/

namespace OffloadAlgebra

theorem Except.ok_bind {ε α β : Type} (a : α) (f : α → Except ε β) : (Except.ok a >>= f) = f a := rfl

theorem Except.error_bind {ε α β : Type} (e : ε) (f : α → Except ε β) : (Except.error e >>= f) = .error e := rfl

theorem Except.map_ok {ε α β : Type} (f : α → β) (a : α) : Except.map f (Except.ok a : Except ε α) = .ok (f a) := rfl

theorem Except.map_error {ε α β : Type} (f : α → β) (e : ε) :
    Except.map f (Except.error e : Except ε α) = .error e := rfl

theorem Except.fmap_ok {ε α β : Type} (f : α → β) (a : α) : (f <$> (Except.ok a : Except ε α)) = .ok (f a) := rfl

theorem Except.pure_eq_ok {ε α : Type} (a : α) : (pure a : Except ε α) = .ok a := rfl

attribute [simp] Except.ok_bind Except.error_bind Except.map_ok Except.map_error Except.fmap_ok Except.pure_eq_ok

namespace Context

/-! ## Running context operations -/

@[simp] theorem run_get (c : Context) : (get : DeviceM Context).run.run c = .ok (.ok c, c) := rfl

@[simp] theorem run_modify (f : Context → Context) (c : Context) :
    (modify f : DeviceM Unit).run.run c = .ok (.ok (), f c) := rfl

theorem run_map {α β : Type} (f : α → β) (x : DeviceM α) (c : Context) :
    (f <$> x).run.run c = (x.run.run c).map fun (r, c') => (r.map f, c') := by
  simp only [ExceptT.run_map, StateT.run_map]
  rfl

/-! ## Contexts with one field changed -/

section Fields

variable (c : Context)

@[simp] theorem matrix_setMetrics (m : Telemetry.Metrics) (h : Nat) :
    ({ c with metrics := m } : Context).matrix h = c.matrix h := rfl

@[simp] theorem failure?_setMetrics (m : Telemetry.Metrics) (e : Nat) :
    ({ c with metrics := m } : Context).failure? e = c.failure? e := rfl

@[simp] theorem firstFailure?_setMetrics (m : Telemetry.Metrics) (l : List Nat) :
    ({ c with metrics := m } : Context).firstFailure? l = c.firstFailure? l := rfl

/-- Changing matrix `h` changes the matrix with that handle, if there is one, and no other. -/
theorem matrix_modify (h : Nat) (f : DeviceMatrix → DeviceMatrix) (k : Nat) :
    ({ c with matrices := c.matrices.modify h f } : Context).matrix k =
      if k = h ∧ k < c.matrices.size then f (c.matrix k) else c.matrix k := by
  simp only [matrix, Array.getElem?_modify]
  by_cases hk : k = h
  · subst hk
    by_cases hlt : k < c.matrices.size
    · simp [hlt]
    · simp [hlt]
  · simp [Ne.symm hk, hk]

end Fields

/-! ## Allocation -/

/-- The zero-filled matrix an allocation adds; its buffer holds at least one element. -/
def zeroMatrix (rows cols : Nat) : DeviceMatrix :=
  { rows, cols, data := Array.replicate (max 1 (rows * cols)) 0 }

/-- An allocation fails on an element count that is not a word, panics on a buffer too large to
    reserve, and otherwise adds a zero-filled matrix after the others. -/
theorem alloc_run (rows cols : Nat) (c : Context) :
    (alloc rows cols).run.run c =
      if rows * cols ≥ Nat.pow 2 64 then
        .ok (.error (.invalidArgument "MatrixCl" (toString rows ++ " x " ++ toString cols ++ " elements overflow usize")), c)
      else (Word.reserve (max 1 (rows * cols))).map fun _ => (.ok c.matrices.size, c.pushMatrix (zeroMatrix rows cols)) := by
  by_cases hov : rows * cols ≥ Nat.pow 2 64
  · simp [alloc, hov]
  · cases hr : Word.reserve (max 1 (rows * cols)) with
    | error p =>
      simp [alloc, hov, hr, DeviceM.unwind]
      rfl
    | ok u =>
      simp [alloc, hov, hr, DeviceM.unwind]
      rfl

/-- An allocation that ends on one context ends the same way on every context: it fails and
    leaves the context as it is, or it answers the next handle and adds the zero matrix. -/
theorem alloc_run_cases {rows cols : Nat} {c c' : Context} {r : Except Error Nat}
    (h : (alloc rows cols).run.run c = .ok (r, c')) :
    ((∃ e, r = .error e) ∧ c' = c ∧ ∀ d, (alloc rows cols).run.run d = .ok (r, d)) ∨
      (r = .ok c.matrices.size ∧ c' = c.pushMatrix (zeroMatrix rows cols) ∧
        ∀ d, (alloc rows cols).run.run d = .ok (.ok d.matrices.size, d.pushMatrix (zeroMatrix rows cols))) := by
  rw [alloc_run] at h
  split at h
  · rename_i hov
    simp only [Except.ok.injEq, Prod.mk.injEq] at h
    obtain ⟨rfl, rfl⟩ := h
    exact .inl ⟨⟨_, rfl⟩, rfl, fun d => by rw [alloc_run, if_pos hov]⟩
  · rename_i hov
    cases hw : Word.reserve (max 1 (rows * cols)) with
    | error p => simp [hw] at h
    | ok u =>
      simp only [hw, Except.map_ok, Except.ok.injEq, Prod.mk.injEq] at h
      obtain ⟨rfl, rfl⟩ := h
      exact .inr ⟨rfl, rfl, fun d => by rw [alloc_run, if_neg hov, hw]; rfl⟩

/-- An allocation that panics on one context panics alike on every context. -/
theorem alloc_run_panic {rows cols : Nat} {c : Context} {p : Panic} (h : (alloc rows cols).run.run c = .error p)
    (d : Context) : (alloc rows cols).run.run d = .error p := by
  rw [alloc_run] at h ⊢
  split at h
  · cases h
  · rename_i hov
    rw [if_neg hov]
    cases hw : Word.reserve (max 1 (rows * cols)) with
    | error p' =>
      simp only [hw, Except.map_error, Except.error.injEq] at h
      rw [h]
      rfl
    | ok u => simp [hw] at h

/-! ## The checks and build of a launch -/

/-- The checks and build of a launch read only the kernel table and the base options of the
    context, and change only its kernel table and its counters: on every context with the same
    table and options they end the same way and leave the same table. -/
theorem prepareLaunch_frame (spec : KernelSpec) (range : NdRange) (args : List KernelArg)
    (K : List (KernelKey × CompiledKernel)) (B : OptionMap) :
    ∃ (r : Except Error CompiledKernel) (ks : List (KernelKey × CompiledKernel))
      (f : Telemetry.Metrics → Telemetry.Metrics),
      ∀ c : Context, c.kernels = K → c.baseOptions = B →
        (prepareLaunch spec range args).run.run c = .ok (r, { c with kernels := ks, metrics := f c.metrics }) := by
  cases hsig : signatureFault? spec.name spec.signature args with
  | some e =>
    refine ⟨.error e, K, id, fun c hK _ => ?_⟩
    simp [prepareLaunch, hsig, ← hK]
  | none =>
    cases hval : range.validate spec.name with
    | error e =>
      refine ⟨.error e, K, id, fun c hK _ => ?_⟩
      simp [prepareLaunch, hsig, hval, ← hK]
    | ok u =>
      cases hlook : K.lookup (keyOf spec) with
      | some k =>
        -- the kernel was built before: the table stays
        cases hal : aliasFault? spec.name (bufferBindings spec.signature args) with
        | some e =>
          refine ⟨.error e, K, id, fun c hK _ => ?_⟩
          subst hK
          simp [prepareLaunch, ExceptT.run_bind, StateT.run_bind, kernel, hsig, hval, hlook, hal]
        | none =>
          refine ⟨.ok k, K, id, fun c hK _ => ?_⟩
          subst hK
          simp [prepareLaunch, ExceptT.run_bind, StateT.run_bind, kernel, hsig, hval, hlook, hal]
      | none =>
        -- a new kernel is built with the base options and kept
        cases hb : buildProgram spec.name spec.text (B.merge spec.requested).render spec.host with
        | error e =>
          refine ⟨.error e, K, id, fun c hK hB => ?_⟩
          subst hK hB
          simp [prepareLaunch, ExceptT.run_bind, StateT.run_bind, kernel, compile, hsig, hval, hlook, hb]
        | ok p =>
          let k : CompiledKernel := ⟨spec.name, B.merge spec.requested, p⟩
          cases hal : aliasFault? spec.name (bufferBindings spec.signature args) with
          | some e =>
            refine ⟨.error e, K ++ [(keyOf spec, k)], (·.recordKernelCompiled), fun c hK hB => ?_⟩
            simp [prepareLaunch, ExceptT.run_bind, StateT.run_bind, kernel, compile, hsig, hval, hK, hB, hlook, hb, hal, k]
          | none =>
            refine ⟨.ok k, K ++ [(keyOf spec, k)], (·.recordKernelCompiled), fun c hK hB => ?_⟩
            simp [prepareLaunch, ExceptT.run_bind, StateT.run_bind, kernel, compile, hsig, hval, hK, hB, hlook, hb, hal, k]

/-- The checks of a launch end alike on two contexts with one kernel table and one set of base
    options: both answer the same, and each changes its table and counters in the same way. -/
theorem prepareLaunch_transfer {spec : KernelSpec} {range : NdRange} {args : List KernelArg}
    {c d c' : Context} {r : Except Error CompiledKernel} (hk : d.kernels = c.kernels)
    (hb : d.baseOptions = c.baseOptions) (h : (prepareLaunch spec range args).run.run c = .ok (r, c')) :
    ∃ (ks : List (KernelKey × CompiledKernel)) (f : Telemetry.Metrics → Telemetry.Metrics),
      c' = { c with kernels := ks, metrics := f c.metrics } ∧
      (prepareLaunch spec range args).run.run d = .ok (r, { d with kernels := ks, metrics := f d.metrics }) := by
  obtain ⟨r₀, ks, f, hpf⟩ := prepareLaunch_frame spec range args c.kernels c.baseOptions
  have hc := (hpf c rfl rfl).symm.trans h
  simp only [Except.ok.injEq, Prod.mk.injEq] at hc
  obtain ⟨rfl, rfl⟩ := hc
  exact ⟨ks, f, rfl, hpf d hk hb⟩

/-- The checks and build of a launch never panic. -/
theorem prepareLaunch_run_ok (spec : KernelSpec) (range : NdRange) (args : List KernelArg) (c : Context) :
    ∃ (r : Except Error CompiledKernel) (ks : List (KernelKey × CompiledKernel)) (f : Telemetry.Metrics → Telemetry.Metrics),
      (prepareLaunch spec range args).run.run c = .ok (r, { c with kernels := ks, metrics := f c.metrics }) := by
  obtain ⟨r, ks, f, h⟩ := prepareLaunch_frame spec range args c.kernels c.baseOptions
  exact ⟨r, ks, f, h c rfl rfl⟩

theorem prepareLaunch_ne_panic (spec : KernelSpec) (range : NdRange) (args : List KernelArg) (c : Context)
    (p : Panic) : (prepareLaunch spec range args).run.run c ≠ .error p := by
  obtain ⟨r, ks, f, h⟩ := prepareLaunch_run_ok spec range args c
  rw [h]
  nofun

/-- A launch whose checks pass has arguments that fit its signature. -/
theorem signatureFault_of_prepareLaunch {spec : KernelSpec} {range : NdRange} {args : List KernelArg}
    {c c' : Context} {k : CompiledKernel} (hp : (prepareLaunch spec range args).run.run c = .ok (.ok k, c')) :
    signatureFault? spec.name spec.signature args = none := by
  cases hsig : signatureFault? spec.name spec.signature args with
  | none => rfl
  | some e => simp [prepareLaunch, hsig] at hp

/-! ## Recording events on matrices -/

/-- The context after event `e` is recorded on matrix `h` as an access in direction `dir`. -/
def recorded (c : Context) (h : Nat) (dir : Direction) (e : Nat) : Context :=
  { c with matrices := c.matrices.modify h fun m =>
      { m with reads := if dir.reads then c.record m.reads e else m.reads,
               writes := if dir.writes then c.record m.writes e else m.writes,
               readWrites := c.record m.readWrites e } }

/-- The context after the completed events of matrix `h` are dropped from its lists. -/
def cleared (c : Context) (h : Nat) : Context :=
  { c with matrices := c.matrices.modify h fun m =>
      { m with reads := c.pending m.reads, writes := c.pending m.writes, readWrites := c.pending m.readWrites } }

/-- A submitted command runs at once on the context and answers its event. -/
theorem submit_run (label : String) (waits : List Nat) (work : Context → Except Fault (List (Nat × Array Float)))
    (c : Context) : (submit label waits work).run c = .ok (c.events.size, c.runCommand label waits work) := rfl

theorem publish_run (h : Nat) (dir : Direction) (e : Nat) (c : Context) :
    (publish h dir e : DeviceM Unit).run.run c = .ok (.ok (), c.recorded h dir e) := rfl

/-- Recording a launch on each of its buffers in turn. -/
theorem run_publishAll (binds : List (Nat × Nat × Direction)) (e : Nat) (c : Context) :
    (List.foldlM (fun _ b => liftM (publish b.2.1 b.2.2 e)) PUnit.unit binds : DeviceM PUnit).run.run c =
      .ok (.ok (), binds.foldl (fun c b => c.recorded b.2.1 b.2.2 e) c) := by
  induction binds generalizing c with
  | nil => rfl
  | cons b binds ih =>
    simp only [List.foldlM_cons, List.foldl_cons, ExceptT.run_bind, StateT.run_bind]
    exact ih _

/-! ## The calls -/

/-- A launch whose checks and build pass runs at once on the context they leave, after the events
    its buffers wait on, and is recorded on each of its buffers. -/
theorem invoke_run_of_ok {spec : KernelSpec} {range : NdRange} {args : List KernelArg} {c c' : Context}
    {k : CompiledKernel} (hp : (prepareLaunch spec range args).run.run c = .ok (.ok k, c')) :
    (invoke spec range args).run.run c =
      .ok (.ok c'.events.size,
        let c₁ := (bufferBindings spec.signature args).foldl (fun c b => c.recorded b.2.1 b.2.2 c'.events.size)
          (c'.runCommand spec.name (c'.launchWaits (bufferBindings spec.signature args)) (launchWork k spec range args))
        { c₁ with metrics := c₁.metrics.recordKernelLaunch }) := by
  simp [invoke, ExceptT.run_bind, StateT.run_bind, hp, submit_run, run_publishAll]

theorem invoke_run_of_error {spec : KernelSpec} {range : NdRange} {args : List KernelArg} {c c' : Context}
    {e : Error} (hp : (prepareLaunch spec range args).run.run c = .ok (.error e, c')) :
    (invoke spec range args).run.run c = .ok (.error e, c') := by
  simp [invoke, ExceptT.run_bind, StateT.run_bind, hp]

/-- The context after host data is written into matrix `h` and the write is recorded on it. -/
def written (c : Context) (h : Nat) (data : Array Float) : Context :=
  let c₁ := c.runCommand "write_buffer" [] (writeWork h data)
  ({ c₁ with metrics := c₁.metrics.recordTransferToDevice (8 * data.size) } : Context).recorded h .output c.events.size

/-- A copy of a host matrix allocates, and unless it is empty, writes the data and records the
    write. -/
theorem fromHost_run (m : Matrix) (c : Context) :
    (fromHost m).run.run c = ((alloc m.rows m.cols).run.run c).map fun
      | (.ok h, c') => (.ok h, if m.size = 0 then c' else c'.written h m.data)
      | (.error e, c') => (.error e, c') := by
  cases ha : (alloc m.rows m.cols).run.run c with
  | error p => simp [fromHost, ExceptT.run_bind, StateT.run_bind, ha]
  | ok r =>
    obtain ⟨r, c'⟩ := r
    cases r with
    | error e => simp [fromHost, ExceptT.run_bind, StateT.run_bind, ha]
    | ok h =>
      by_cases hm : m.size = 0
      · simp [fromHost, ha, hm]
      · simp [fromHost, ExceptT.run_bind, StateT.run_bind, ha, hm, writeBuffer, submit_run, written, -events_runCommand]
        rfl

/-- How a copy back to the host ends once its read of matrix `h`, event `e`, ran: the read's
    failure, or the first failure among the matrix's events, or the matrix's contents, after
    which the matrix drops its completed events. -/
def finishRead (c : Context) (h e : Nat) : Except Error Matrix × Context :=
  let m := c.matrix h
  match c.failure? e with
  | some (_, msg) => (.error (.device msg), c)
  | none =>
    let c' := { c with metrics := c.metrics.recordTransferFromDevice (8 * (m.rows * m.cols)) }
    match c.firstFailure? m.readWrites with
    | some (_, msg) => (.error (.device msg), c')
    | none => (.ok ⟨m.rows, m.cols, m.data.extract 0 (m.rows * m.cols)⟩, c'.cleared h)

/-- A command with no writes leaves the matrices as they are. -/
theorem matrices_runCommand_nil (c : Context) (label : String) (waits : List Nat) :
    (c.runCommand label waits fun _ => .ok []).matrices = c.matrices := by
  cases ho : c.outcome waits (fun _ => .ok []) with
  | ok ws =>
    have hws : ws = [] := by
      unfold outcome at ho
      split at ho
      · cases ho
      · cases ho
        rfl
    subst hws
    rw [runCommand_of_ok ho]
    rfl
  | error m => rw [runCommand_of_error ho]

/-- A copy back to the host runs its read after the matrix's writers, then finishes. -/
theorem toHost_run (h : Nat) (c : Context) :
    (toHost h).run.run c =
      .ok ((c.runCommand "read_buffer" (c.matrix h).writes fun _ => .ok []).finishRead h c.events.size) := by
  have hm : (c.runCommand "read_buffer" (c.matrix h).writes fun _ => .ok []).matrix h = c.matrix h := by
    simp only [matrix, matrices_runCommand_nil]
  cases hf : (c.runCommand "read_buffer" (c.matrix h).writes fun _ => .ok []).failure? c.events.size with
  | some x => simp [toHost, finishRead, readBuffer, submit_run, ExceptT.run_bind, StateT.run_bind, hf]
  | none =>
    cases hw : (c.runCommand "read_buffer" (c.matrix h).writes fun _ => .ok []).firstFailure? (c.matrix h).readWrites with
    | some y =>
      simp [toHost, finishRead, readBuffer, submit_run, ExceptT.run_bind, StateT.run_bind, hm, hf, waitReadWrite,
        waitAll, hw, -events_runCommand]
    | none =>
      simp [toHost, finishRead, readBuffer, submit_run, ExceptT.run_bind, StateT.run_bind, hm, hf, waitReadWrite,
        waitAll, hw, -events_runCommand]
      rfl

/-! ## Events only grow -/

/-- Context `c'` keeps every event of `c`, perhaps with more after them. -/
def Grows (c' c : Context) : Prop := ∀ k < c.events.size, c'.events[k]? = c.events[k]?

namespace Grows

variable {c₁ c₂ c₃ : Context}

theorem refl (c : Context) : c.Grows c := fun _ _ => rfl

theorem of_events (h : c₂.events = c₁.events) : c₂.Grows c₁ := fun _ _ => by rw [h]

theorem size_le (h : c₂.Grows c₁) : c₁.events.size ≤ c₂.events.size := by
  refine Nat.le_of_not_lt fun hlt => ?_
  have hk := h c₂.events.size hlt
  rw [Array.getElem?_eq_none (Nat.le_refl _), Array.getElem?_eq_getElem hlt] at hk
  cases hk

theorem trans (h₂ : c₃.Grows c₂) (h₁ : c₂.Grows c₁) : c₃.Grows c₁ := fun k hk => by
  rw [h₂ k (Nat.lt_of_lt_of_le hk h₁.size_le), h₁ k hk]

end Grows

/-- Running a command appends its event. -/
theorem events_runCommand_lt (c : Context) (label : String) (waits : List Nat)
    (work : Context → Except Fault (List (Nat × Array Float))) {k : Nat} (hk : k < c.events.size) :
    (c.runCommand label waits work).events[k]? = c.events[k]? := by
  rw [events_runCommand, Array.getElem?_push_lt hk, Array.getElem?_eq_getElem hk]

theorem grows_runCommand (c : Context) (label : String) (waits : List Nat)
    (work : Context → Except Fault (List (Nat × Array Float))) : (c.runCommand label waits work).Grows c :=
  fun _ hk => events_runCommand_lt c label waits work hk

@[simp] theorem events_recorded (c : Context) (h : Nat) (dir : Direction) (e : Nat) :
    (c.recorded h dir e).events = c.events := rfl

@[simp] theorem events_foldl_recorded (binds : List (Nat × Nat × Direction)) (e : Nat) (c : Context) :
    (binds.foldl (fun c b => c.recorded b.2.1 b.2.2 e) c).events = c.events := by
  induction binds generalizing c with
  | nil => rfl
  | cons b binds ih => exact ih _

theorem events_finishRead (c : Context) (h e : Nat) : (c.finishRead h e).2.events = c.events := by
  unfold finishRead
  split
  · rfl
  · dsimp only
    split <;> rfl

/-- An allocation records no event: it fails and changes nothing, or it adds a matrix. -/
theorem grows_alloc {rows cols : Nat} {c c₁ : Context} {r : Except Error Nat}
    (ha : (alloc rows cols).run.run c = .ok (r, c₁)) : c₁.Grows c := by
  rcases alloc_run_cases ha with ⟨-, rfl, -⟩ | ⟨-, rfl, -⟩
  · exact .refl _
  · exact .of_events rfl

end Context

namespace Call

open Context

theorem run_zeros (rows cols : Nat) (c : Context) :
    (Call.zeros rows cols).run.run.run c =
      ((alloc rows cols).run.run c).map fun ((r, c') : Except Error Nat × Context) => (r.map .handle, c') :=
  run_map ..

theorem run_fromHost (m : Matrix) (c : Context) :
    (Call.fromHost m).run.run.run c =
      ((Context.fromHost m).run.run c).map fun ((r, c') : Except Error Nat × Context) => (r.map .handle, c') :=
  run_map ..

theorem run_invoke (spec : KernelSpec) (range : NdRange) (args : List KernelArg) (c : Context) :
    (Call.invoke spec range args).run.run.run c =
      ((Context.invoke spec range args).run.run c).map fun ((r, c') : Except Error Nat × Context) =>
        (r.map .event, c') :=
  run_map ..

theorem run_toHost (h : Nat) (c : Context) :
    (Call.toHost h).run.run.run c =
      ((Context.toHost h).run.run c).map fun ((r, c') : Except Error Matrix × Context) => (r.map .host, c') :=
  run_map ..

/-- A call keeps the events of the context it runs on. -/
theorem run_grows {call : Call} {c c' : Context} {r : Except Error Reply} (h : call.run.run.run c = .ok (r, c')) :
    c'.Grows c := by
  cases call with
  | zeros rows cols =>
    simp only [run, run_map] at h
    cases ha : (alloc rows cols).run.run c with
    | error p => simp [ha] at h
    | ok rc =>
      obtain ⟨r', c₁⟩ := rc
      simp only [ha, Except.map_ok, Except.ok.injEq, Prod.mk.injEq] at h
      rw [← h.2]
      exact grows_alloc ha
  | fromHost m =>
    simp only [run, run_map, fromHost_run] at h
    cases ha : (alloc m.rows m.cols).run.run c with
    | error p => simp [ha] at h
    | ok rc =>
      obtain ⟨r', c₁⟩ := rc
      have hc₁ : c₁.Grows c := grows_alloc ha
      cases r' with
      | error e =>
        simp only [ha, Except.map_ok, Except.ok.injEq, Prod.mk.injEq] at h
        rw [← h.2]
        exact hc₁
      | ok hd =>
        simp only [ha, Except.map_ok, Except.ok.injEq, Prod.mk.injEq] at h
        rw [← h.2]
        split
        · exact hc₁
        · exact (grows_runCommand c₁ _ _ _).trans hc₁
  | invoke spec range args =>
    simp only [run, run_map] at h
    obtain ⟨r', ks, f, hp⟩ := prepareLaunch_run_ok spec range args c
    have hc₁ : ({ c with kernels := ks, metrics := f c.metrics } : Context).Grows c := .of_events rfl
    cases r' with
    | error e =>
      rw [invoke_run_of_error hp] at h
      simp only [Except.map_ok, Except.ok.injEq, Prod.mk.injEq] at h
      rw [← h.2]
      exact hc₁
    | ok k =>
      rw [invoke_run_of_ok hp] at h
      simp only [Except.map_ok, Except.ok.injEq, Prod.mk.injEq] at h
      rw [← h.2]
      exact (Grows.of_events (events_foldl_recorded ..)).trans ((grows_runCommand _ _ _ _).trans hc₁)
  | toHost hd =>
    simp only [run, run_map, toHost_run, Except.map_ok, Except.ok.injEq, Prod.mk.injEq] at h
    rw [← h.2]
    exact (Grows.of_events (events_finishRead ..)).trans (grows_runCommand c _ _ _)

end Call

theorem runCalls_cons_ok {c c' : Context} {call : Call} {cs : List Call} {r : Except Error Reply}
    (h : call.run.run.run c = .ok (r, c')) :
    runCalls c (call :: cs) = (.ok r :: (runCalls c' cs).1, (runCalls c' cs).2) := by
  simp only [runCalls, h]

theorem runCalls_cons_panic {c : Context} {call : Call} {cs : List Call} {p : Panic}
    (h : call.run.run.run c = .error p) : runCalls c (call :: cs) = ([.error p], c) := by
  simp only [runCalls, h]

/-- Running calls keeps the events of the context they start from. -/
theorem runCalls_grows (c : Context) (cs : List Call) : (runCalls c cs).2.Grows c := by
  induction cs generalizing c with
  | nil => exact .refl c
  | cons call cs ih =>
    simp only [runCalls]
    split
    · exact .refl c
    · rename_i r c' hrun
      exact (ih c').trans (Call.run_grows hrun)

end OffloadAlgebra
