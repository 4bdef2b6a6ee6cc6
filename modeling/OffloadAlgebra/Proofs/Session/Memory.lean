import OffloadAlgebra.Proofs.Session.Footprint
/-!
  Device memory under writes and commands.

  A list of writes leaves in each matrix the contents of its last write to it
  (`matrices_applyWrites`); writes to different matrices commute.  Two contexts `Agree` when they
  hold the same memory and the same events: a command run on both keeps them agreeing, as long
  as its work sees the same on both, which a confined command does (`Agree.runCommand`).

  The key fact for running commands out of order: a confined command and writes to matrices it
  does not hold commute (`runCommand_applyWrites`).
-/

namespace OffloadAlgebra.Context

/-- The contents the writes `ws` leave in matrix `h` that held `d`: those of the last write to
    `h`, or `d`. -/
def writtenData (ws : List (Nat × Array Float)) (h : Nat) (d : Array Float) : Array Float :=
  ws.foldl (fun d w => if w.1 = h then w.2 else d) d

theorem writtenData_of_not_mem {ws : List (Nat × Array Float)} {h : Nat} (hws : ∀ w ∈ ws, w.1 ≠ h)
    (d : Array Float) : writtenData ws h d = d := by
  induction ws generalizing d with
  | nil => rfl
  | cons w ws ih =>
    simp only [writtenData, List.foldl_cons, if_neg (hws w List.mem_cons_self)]
    exact ih (fun w' hw' => hws w' (List.mem_cons_of_mem w hw')) d

/-- Writes to other matrices commute with the writes to `h`. -/
theorem writtenData_comm {ws₁ ws₂ : List (Nat × Array Float)} {h : Nat}
    (hdis : (∀ w ∈ ws₁, w.1 ≠ h) ∨ ∀ w ∈ ws₂, w.1 ≠ h) (d : Array Float) :
    writtenData ws₁ h (writtenData ws₂ h d) = writtenData ws₂ h (writtenData ws₁ h d) := by
  rcases hdis with h₁ | h₂
  · rw [writtenData_of_not_mem h₁, writtenData_of_not_mem h₁]
  · rw [writtenData_of_not_mem h₂, writtenData_of_not_mem h₂]

theorem getElem?_foldl_modify (ws : List (Nat × Array Float)) (ms : Array DeviceMatrix) (h : Nat) :
    (ws.foldl (fun ms w => ms.modify w.1 fun m => { m with data := w.2 }) ms)[h]? =
      ms[h]?.map fun m => { m with data := writtenData ws h m.data } := by
  induction ws generalizing ms with
  | nil =>
    simp only [List.foldl_nil, writtenData]
    cases ms[h]? <;> rfl
  | cons w ws ih =>
    rw [List.foldl_cons, ih, Array.getElem?_modify]
    by_cases hw : w.1 = h
    · cases hm : ms[h]? <;> simp [writtenData, hw]
    · cases hm : ms[h]? <;> simp [writtenData, hw]

/-- Each matrix keeps its shape and event lists under writes, and holds what its last write
    left. -/
theorem matrices_applyWrites (ctx : Context) (ws : List (Nat × Array Float)) (h : Nat) :
    (ctx.applyWrites ws).matrices[h]? = ctx.matrices[h]?.map fun m => { m with data := writtenData ws h m.data } :=
  getElem?_foldl_modify ws ctx.matrices h

theorem size_foldl_modify (ws : List (Nat × Array Float)) (ms : Array DeviceMatrix) :
    (ws.foldl (fun ms w => ms.modify w.1 fun m => { m with data := w.2 }) ms).size = ms.size := by
  induction ws generalizing ms with
  | nil => rfl
  | cons w ws ih => rw [List.foldl_cons, ih, Array.size_modify]

@[simp] theorem size_applyWrites (ctx : Context) (ws : List (Nat × Array Float)) :
    (ctx.applyWrites ws).matrices.size = ctx.matrices.size :=
  size_foldl_modify ws ctx.matrices

@[simp] theorem events_applyWrites (ctx : Context) (ws : List (Nat × Array Float)) :
    (ctx.applyWrites ws).events = ctx.events := rfl

/-- Writes change the contents of matrices and nothing else. -/
theorem matrix_applyWrites (ctx : Context) (ws : List (Nat × Array Float)) (h : Nat) :
    (ctx.applyWrites ws).matrix h =
      if h < ctx.matrices.size then { ctx.matrix h with data := writtenData ws h (ctx.matrix h).data }
      else ctx.matrix h := by
  simp only [matrix, matrices_applyWrites]
  by_cases hh : h < ctx.matrices.size
  · simp [hh]
  · simp [hh]

/-- A matrix no write goes to is left as it is. -/
theorem matrix_applyWrites_of_not_mem {ws : List (Nat × Array Float)} {h : Nat} (hws : ∀ w ∈ ws, w.1 ≠ h)
    (ctx : Context) : (ctx.applyWrites ws).matrix h = ctx.matrix h := by
  rw [matrix_applyWrites, writtenData_of_not_mem hws]
  split <;> rfl

/-- A context with one more matrix, after the others. -/
def pushMatrix (ctx : Context) (m : DeviceMatrix) : Context := { ctx with matrices := ctx.matrices.push m }

@[simp] theorem size_pushMatrix (ctx : Context) (m : DeviceMatrix) :
    (ctx.pushMatrix m).matrices.size = ctx.matrices.size + 1 := by
  simp [pushMatrix]

@[simp] theorem events_pushMatrix (ctx : Context) (m : DeviceMatrix) : (ctx.pushMatrix m).events = ctx.events := rfl

theorem matrix_pushMatrix (ctx : Context) (m : DeviceMatrix) (h : Nat) :
    (ctx.pushMatrix m).matrix h =
      if h < ctx.matrices.size then ctx.matrix h else if h = ctx.matrices.size then m else default := by
  simp only [pushMatrix, matrix, Array.getElem?_push]
  by_cases hlt : h < ctx.matrices.size
  · simp [hlt, Nat.ne_of_lt hlt]
  · by_cases he : h = ctx.matrices.size
    · simp [he]
    · simp [hlt, he]

theorem matrix_pushMatrix_of_lt (ctx : Context) (m : DeviceMatrix) {h : Nat} (hh : h < ctx.matrices.size) :
    (ctx.pushMatrix m).matrix h = ctx.matrix h := by
  rw [matrix_pushMatrix, if_pos hh]

@[simp] theorem matrix_pushMatrix_self (ctx : Context) (m : DeviceMatrix) :
    (ctx.pushMatrix m).matrix ctx.matrices.size = m := by
  rw [matrix_pushMatrix, if_neg (Nat.lt_irrefl _), if_pos rfl]

/-- The first failed event of a list depends on the events only. -/
theorem firstFailure_congr {c₁ c₂ : Context} (h : c₁.events = c₂.events) (waits : List Nat) :
    c₁.firstFailure? waits = c₂.firstFailure? waits := by
  have hf : c₁.failure? = c₂.failure? := by
    funext e
    simp only [failure?, event?, h]
  simp only [firstFailure?, hf]

/-- A command whose wait lists fail alike and whose work sees the same on two contexts ends the
    same on both. -/
theorem outcome_congr {c₁ c₂ : Context} {w₁ w₂ : List Nat} {work : Context → Except Fault (List (Nat × Array Float))}
    (hf : c₁.firstFailure? w₁ = c₂.firstFailure? w₂) (hw : work c₁ = work c₂) :
    c₁.outcome w₁ work = c₂.outcome w₂ work := by
  simp only [Context.outcome, hf, hw]

theorem runCommand_of_ok {ctx : Context} {label : String} {waits : List Nat}
    {work : Context → Except Fault (List (Nat × Array Float))} {ws : List (Nat × Array Float)}
    (ho : ctx.outcome waits work = .ok ws) :
    ctx.runCommand label waits work =
      { ctx.applyWrites ws with events := ctx.events.push ⟨label, .complete⟩, metrics := ctx.metrics.countCommand } := by
  simp only [runCommand, ho]
  rfl

theorem runCommand_of_error {ctx : Context} {label : String} {waits : List Nat}
    {work : Context → Except Fault (List (Nat × Array Float))} {m : String}
    (ho : ctx.outcome waits work = .error m) :
    ctx.runCommand label waits work =
      { ctx with events := ctx.events.push ⟨label, .failed (label ++ ": " ++ m)⟩,
                 metrics := ctx.metrics.recordCommandFailed } := by
  simp only [runCommand, ho]

/-! ## Contexts that hold the same memory and events -/

/-- Two contexts hold the same device memory and the same events. -/
structure Agree (c₁ c₂ : Context) : Prop where
  size : c₁.matrices.size = c₂.matrices.size
  data : ∀ h, (c₁.matrix h).data = (c₂.matrix h).data
  events : c₁.events = c₂.events

namespace Agree

variable {c₁ c₂ c₃ : Context}

theorem refl (c : Context) : Agree c c := ⟨rfl, fun _ => rfl, rfl⟩

theorem symm (h : Agree c₁ c₂) : Agree c₂ c₁ := ⟨h.size.symm, fun k => (h.data k).symm, h.events.symm⟩

theorem trans (h₁ : Agree c₁ c₂) (h₂ : Agree c₂ c₃) : Agree c₁ c₃ :=
  ⟨h₁.size.trans h₂.size, fun k => (h₁.data k).trans (h₂.data k), h₁.events.trans h₂.events⟩

theorem pushMatrix (h : Agree c₁ c₂) (m : DeviceMatrix) : Agree (c₁.pushMatrix m) (c₂.pushMatrix m) where
  size := by simp [h.size]
  data k := by
    rw [matrix_pushMatrix, matrix_pushMatrix, h.size]
    split
    · exact h.data k
    · rfl
  events := h.events

theorem applyWrites (h : Agree c₁ c₂) (ws : List (Nat × Array Float)) :
    Agree (c₁.applyWrites ws) (c₂.applyWrites ws) where
  size := by simp [h.size]
  data k := by
    rw [matrix_applyWrites, matrix_applyWrites, h.size]
    split
    · simp only [h.data k]
    · exact h.data k
  events := h.events

theorem runCommand (h : Agree c₁ c₂) (label : String) {w₁ w₂ : List Nat}
    {work : Context → Except Fault (List (Nat × Array Float))} (hf : c₁.firstFailure? w₁ = c₂.firstFailure? w₂)
    (hw : work c₁ = work c₂) : Agree (c₁.runCommand label w₁ work) (c₂.runCommand label w₂ work) := by
  have ho : c₁.outcome w₁ work = c₂.outcome w₂ work := outcome_congr hf hw
  cases ho₂ : c₂.outcome w₂ work with
  | ok ws =>
    rw [runCommand_of_ok (ho.trans ho₂), runCommand_of_ok ho₂]
    have hws := h.applyWrites ws
    exact ⟨hws.size, hws.data, by simp [h.events]⟩
  | error m =>
    rw [runCommand_of_error (ho.trans ho₂), runCommand_of_error ho₂]
    exact ⟨h.size, h.data, by simp [h.events]⟩

/-- A confined command's work sees the same on agreeing contexts. -/
theorem work {cmd : Command} (hc : cmd.Confined) (h : Agree c₁ c₂) : cmd.work c₁ = cmd.work c₂ :=
  hc.work_congr c₁ c₂ fun k _ => h.data k

end Agree

/-! ## Running a command and writes it does not see -/

@[simp] theorem events_runCommand (ctx : Context) (label : String) (waits : List Nat)
    (work : Context → Except Fault (List (Nat × Array Float))) :
    (ctx.runCommand label waits work).events =
      ctx.events.push ⟨label, match ctx.outcome waits work with
        | .ok _ => .complete
        | .error m => .failed (label ++ ": " ++ m)⟩ := by
  cases ho : ctx.outcome waits work with
  | ok ws => rw [runCommand_of_ok ho]
  | error m => rw [runCommand_of_error ho]

/-- A confined command that completes writes only matrices it holds for writing. -/
theorem writes_of_outcome {cmd : Command} (hc : cmd.Confined) {ctx : Context} {ws : List (Nat × Array Float)}
    (ho : ctx.outcome cmd.waits cmd.work = .ok ws) : ∀ w ∈ ws, cmd.Writes w.1 := by
  unfold Context.outcome at ho
  split at ho
  · cases ho
  · cases hwk : cmd.work ctx with
    | error f =>
      rw [hwk] at ho
      cases ho
    | ok ws' =>
      rw [hwk] at ho
      cases ho
      exact hc.writes ctx _ hwk

/-- A confined command commutes with writes to matrices it does not hold. -/
theorem runCommand_applyWrites {cmd : Command} (hc : cmd.Confined) {ws : List (Nat × Array Float)}
    (hws : ∀ w ∈ ws, ¬ cmd.Touches w.1) (ctx : Context) :
    Agree ((ctx.applyWrites ws).runCommand cmd.label cmd.waits cmd.work)
      ((ctx.runCommand cmd.label cmd.waits cmd.work).applyWrites ws) := by
  have hne : ∀ k, cmd.Touches k → ∀ w ∈ ws, w.1 ≠ k := fun k hk w hw he => hws w hw (he ▸ hk)
  -- the work sees nothing of the writes
  have hwork : cmd.work (ctx.applyWrites ws) = cmd.work ctx :=
    hc.work_congr _ _ fun k hk => by rw [matrix_applyWrites_of_not_mem (hne k hk)]
  have ho : (ctx.applyWrites ws).outcome cmd.waits cmd.work = ctx.outcome cmd.waits cmd.work :=
    outcome_congr (firstFailure_congr (events_applyWrites ctx ws) _) hwork
  cases ho' : ctx.outcome cmd.waits cmd.work with
  | ok ws' =>
    rw [runCommand_of_ok (ho.trans ho'), runCommand_of_ok ho']
    -- what the command writes it holds, so the two lists of writes go to different matrices
    have hw' : ∀ w ∈ ws', cmd.Touches w.1 := fun w hw => (writes_of_outcome hc ho' w hw).touches
    refine ⟨by simp, fun k => ?_, by simp⟩
    show (((ctx.applyWrites ws).applyWrites ws').matrix k).data = (((ctx.applyWrites ws').applyWrites ws).matrix k).data
    simp only [matrix_applyWrites, size_applyWrites]
    split
    · simp only
      rw [writtenData_comm]
      by_cases hk : cmd.Touches k
      · exact .inr (hne k hk)
      · exact .inl fun w hw he => hk (he ▸ hw' w hw)
    · rfl
  | error m =>
    rw [runCommand_of_error (ho.trans ho'), runCommand_of_error ho']
    exact ⟨by simp, fun k => rfl, by simp⟩

/-- A confined command on matrices below the last commutes with a new matrix. -/
theorem runCommand_pushMatrix {cmd : Command} (hc : cmd.Confined) {ctx : Context}
    (ht : ∀ h, cmd.Touches h → h < ctx.matrices.size) (m : DeviceMatrix) :
    Agree ((ctx.pushMatrix m).runCommand cmd.label cmd.waits cmd.work)
      ((ctx.runCommand cmd.label cmd.waits cmd.work).pushMatrix m) := by
  have hwork : cmd.work (ctx.pushMatrix m) = cmd.work ctx :=
    hc.work_congr _ _ fun k hk => by rw [matrix_pushMatrix_of_lt ctx m (ht k hk)]
  have ho : (ctx.pushMatrix m).outcome cmd.waits cmd.work = ctx.outcome cmd.waits cmd.work :=
    outcome_congr (firstFailure_congr (events_pushMatrix ctx m) _) hwork
  cases ho' : ctx.outcome cmd.waits cmd.work with
  | ok ws =>
    rw [runCommand_of_ok (ho.trans ho'), runCommand_of_ok ho']
    -- the command writes below the new matrix
    have hws : ∀ w ∈ ws, w.1 ≠ ctx.matrices.size :=
      fun w hw => Nat.ne_of_lt (ht _ (writes_of_outcome hc ho' w hw).touches)
    refine ⟨by simp [pushMatrix], fun k => ?_, rfl⟩
    show (((ctx.pushMatrix m).applyWrites ws).matrix k).data = (((ctx.applyWrites ws).pushMatrix m).matrix k).data
    simp only [matrix_applyWrites, matrix_pushMatrix, size_pushMatrix, size_applyWrites]
    by_cases hk : k < ctx.matrices.size
    · simp [hk, Nat.lt_succ_of_lt hk]
    · by_cases he : k = ctx.matrices.size
      · subst he
        simp [writtenData_of_not_mem hws]
      · simp [hk, he, show ¬ k < ctx.matrices.size + 1 by omega]
  | error e =>
    rw [runCommand_of_error (ho.trans ho'), runCommand_of_error ho']
    exact Agree.refl _

end OffloadAlgebra.Context
