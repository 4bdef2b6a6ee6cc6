import Mathlib
import OffloadAlgebra.Proofs.Dispatch.DevicePath
/-!
  Only a dispatch decision counts a dispatch.

  The operations on device matrices (allocating, copying in and back, building kernels and
  launching them) change other counters but never the two dispatch counters: every run of them
  that ends, with an answer or with an error, keeps both (`KeepsDispatches`).  The property is
  closed under binding, so each operation is checked step by step from its parts; the loop that
  records a launch on its buffers is an induction on the list.  The product's device path is
  therefore counted once, by the decision that sent it there.
-/

namespace OffloadAlgebra.Context

/-- A context operation that counts no dispatch: every run of it that ends, whatever its answer,
    keeps both dispatch counters. -/
def KeepsDispatches {α : Type} (x : DeviceM α) : Prop :=
  ∀ c r c', x.run.run c = .ok (r, c') → c'.dispatches = c.dispatches

section Keeps

variable {α β : Type}

theorem run_bind_error {x : DeviceM α} {f : α → DeviceM β} {c c₁ : Context} {e : Error}
    (hx : x.run.run c = .ok (.error e, c₁)) : (x >>= f).run.run c = .ok (.error e, c₁) := by
  simp only [ExceptT.run_bind, StateT.run_bind, hx]
  rfl

theorem run_bind_panic {x : DeviceM α} {f : α → DeviceM β} {c : Context} {p : Panic}
    (hx : x.run.run c = .error p) : (x >>= f).run.run c = .error p := by
  simp only [ExceptT.run_bind, StateT.run_bind, hx]
  rfl

theorem keepsDispatches_pure (a : α) : KeepsDispatches (pure a : DeviceM α) := by
  intro c r c' h
  cases h
  rfl

theorem keepsDispatches_get : KeepsDispatches (get : DeviceM Context) := by
  intro c r c' h
  cases h
  rfl

theorem keepsDispatches_throw (e : Error) : KeepsDispatches (throw e : DeviceM α) := by
  intro c r c' h
  cases h
  rfl

theorem keepsDispatches_modify {f : Context → Context} (hf : ∀ c, (f c).dispatches = c.dispatches) :
    KeepsDispatches (modify f : DeviceM Unit) := by
  intro c r c' h
  cases h
  exact hf c

theorem keepsDispatches_check (r : Except Error α) : KeepsDispatches (DeviceM.check r) := by
  cases r with
  | error e => exact keepsDispatches_throw e
  | ok a => exact keepsDispatches_pure a

/-- A failure stops the computation there. -/
theorem keepsDispatches_throw_bind (e : Error) (f : α → DeviceM β) : KeepsDispatches (throw e >>= f) := by
  intro c r c' h
  rw [run_bind_error (rfl : (throw e : DeviceM α).run.run c = .ok (.error e, c))] at h
  cases h
  rfl

theorem keepsDispatches_bind {x : DeviceM α} {f : α → DeviceM β} (hx : KeepsDispatches x)
    (hf : ∀ a, KeepsDispatches (f a)) : KeepsDispatches (x >>= f) := by
  intro c r c' h
  cases hrun : x.run.run c with
  | error p => rw [run_bind_panic hrun] at h; cases h
  | ok rc =>
    obtain ⟨r₁, c₁⟩ := rc
    cases r₁ with
    | ok a =>
      rw [run_bind_ok hrun] at h
      exact (hf a c₁ r c' h).trans (hx c _ _ hrun)
    | error e =>
      rw [run_bind_error hrun] at h
      cases h
      exact hx c _ _ hrun

/-- A change of the context that may panic, lifted, counts no dispatch when it keeps the counters. -/
theorem keepsDispatches_lift {y : ContextM α}
    (hy : ∀ c a c', y.run c = .ok (a, c') → c'.dispatches = c.dispatches) :
    KeepsDispatches (liftM y : DeviceM α) := by
  intro c r c' h
  cases hrun : y.run c with
  | error p =>
    have : (liftM y : DeviceM α).run.run c = .error p := by
      simp [liftM, monadLift, MonadLift.monadLift, ExceptT.lift, hrun]
    rw [this] at h
    cases h
  | ok ac =>
    have : (liftM y : DeviceM α).run.run c = .ok (.ok ac.1, ac.2) := by
      simp [liftM, monadLift, MonadLift.monadLift, ExceptT.lift, hrun]
    rw [this] at h
    cases h
    exact hy c _ _ hrun

end Keeps

/-! ## The operations on device matrices -/

theorem keepsDispatches_submit (label : String) (waits : List Nat)
    (work : Context → Except Fault (List (Nat × Array Float))) :
    KeepsDispatches (liftM (submit label waits work) : DeviceM Nat) :=
  keepsDispatches_lift fun c _ _ h => by
    rw [submit_run] at h
    cases h
    exact dispatches_runCommand ..

theorem keepsDispatches_publish (h : Nat) (dir : Direction) (e : Nat) :
    KeepsDispatches (liftM (publish h dir e) : DeviceM Unit) :=
  keepsDispatches_lift fun c _ _ hr => by
    cases hr
    rfl

theorem keepsDispatches_alloc (rows cols : Nat) : KeepsDispatches (alloc rows cols) := by
  intro c r c' h
  rcases alloc_run_cases h with ⟨-, rfl, -⟩ | ⟨-, rfl, -⟩ <;> rfl

theorem writeBuffer_run (h : Nat) (data : Array Float) (c : Context) :
    (writeBuffer h data).run c =
      .ok (c.events.size, let c₁ := c.runCommand "write_buffer" [] (writeWork h data)
        { c₁ with metrics := c₁.metrics.recordTransferToDevice (8 * data.size) }) := rfl

theorem keepsDispatches_fromHost (m : Matrix) : KeepsDispatches (fromHost m) := by
  unfold fromHost
  refine keepsDispatches_bind (keepsDispatches_alloc _ _) fun h => ?_
  dsimp only
  split
  · refine keepsDispatches_bind (keepsDispatches_lift fun c _ _ hw => ?_) fun e =>
      keepsDispatches_bind (keepsDispatches_publish _ _ _) fun _ => keepsDispatches_pure _
    rw [writeBuffer_run] at hw
    cases hw
    exact dispatches_runCommand ..
  · exact keepsDispatches_pure _


theorem keepsDispatches_compile (spec : KernelSpec) : KeepsDispatches (compile spec) := by
  intro c r c' h
  rw [compile_run] at h
  cases hb : buildProgram spec.name spec.text (c.baseOptions.merge spec.requested).render spec.host <;>
    rw [hb] at h <;> cases h <;> rfl

theorem keepsDispatches_kernel (spec : KernelSpec) : KeepsDispatches (kernel spec) := by
  unfold kernel
  refine keepsDispatches_bind keepsDispatches_get fun s => ?_
  cases List.lookup (keyOf spec) s.kernels with
  | some k => exact keepsDispatches_pure k
  | none =>
    exact keepsDispatches_bind (keepsDispatches_compile spec) fun k =>
      keepsDispatches_bind (keepsDispatches_modify fun _ => rfl) fun _ => keepsDispatches_pure k

theorem keepsDispatches_prepareLaunch (spec : KernelSpec) (range : NdRange) (args : List KernelArg) :
    KeepsDispatches (prepareLaunch spec range args) := by
  unfold prepareLaunch
  dsimp only
  split
  · exact keepsDispatches_throw_bind _ _
  · split
    · exact keepsDispatches_throw_bind _ _
    · refine keepsDispatches_bind (keepsDispatches_kernel spec) fun k => ?_
      split
      · exact keepsDispatches_throw_bind _ _
      · exact keepsDispatches_pure k

theorem keepsDispatches_forIn {γ β : Type} (l : List γ) (b : β) {f : γ → β → DeviceM (ForInStep β)}
    (hf : ∀ a b, KeepsDispatches (f a b)) : KeepsDispatches (forIn l b f) := by
  induction l generalizing b with
  | nil => exact keepsDispatches_pure b
  | cons a l ih =>
    rw [List.forIn_cons]
    refine keepsDispatches_bind (hf a b) fun step => ?_
    cases step with
    | done b' => exact keepsDispatches_pure b'
    | yield b' => exact ih b'


theorem keepsDispatches_invoke (spec : KernelSpec) (range : NdRange) (args : List KernelArg) :
    KeepsDispatches (invoke spec range args) := by
  unfold invoke
  refine keepsDispatches_bind (keepsDispatches_prepareLaunch spec range args) fun k => ?_
  refine keepsDispatches_bind keepsDispatches_get fun s => ?_
  refine keepsDispatches_bind (keepsDispatches_submit _ _ _) fun e => ?_
  refine keepsDispatches_bind (keepsDispatches_forIn _ _ fun b _ => ?_) fun _ =>
    keepsDispatches_bind (keepsDispatches_modify fun _ => rfl) fun _ => keepsDispatches_pure e
  exact keepsDispatches_bind (keepsDispatches_publish _ _ _) fun _ => keepsDispatches_pure _

theorem keepsDispatches_multiplyOnDevice (x y : Nat) : KeepsDispatches (multiplyOnDevice x y) := by
  unfold multiplyOnDevice
  refine keepsDispatches_bind keepsDispatches_get fun s₁ => keepsDispatches_bind keepsDispatches_get fun s₂ => ?_
  refine keepsDispatches_bind (keepsDispatches_check _) fun _ => keepsDispatches_bind (keepsDispatches_alloc _ _) fun z => ?_
  split
  · exact keepsDispatches_pure z
  · refine keepsDispatches_bind (keepsDispatches_bind (keepsDispatches_kernel _) fun _ => keepsDispatches_pure _) fun t => ?_
    refine keepsDispatches_bind (keepsDispatches_check _) fun _ => keepsDispatches_bind (keepsDispatches_check _) fun _ =>
      keepsDispatches_bind (keepsDispatches_check _) fun _ => ?_
    exact keepsDispatches_bind (keepsDispatches_invoke _ _ _) fun _ => keepsDispatches_pure z

theorem dispatches_finishRead (c : Context) (h e : Nat) : (c.finishRead h e).2.dispatches = c.dispatches := by
  unfold finishRead
  split
  · rfl
  · dsimp only
    split <;> rfl

theorem keepsDispatches_toHost (h : Nat) : KeepsDispatches (toHost h) := by
  intro c r c' hr
  rw [toHost_run] at hr
  have hc' := congrArg Prod.snd (Except.ok.inj hr)
  dsimp only at hc'
  rw [← hc']
  exact (dispatches_finishRead ..).trans (dispatches_runCommand ..)

end OffloadAlgebra.Context
