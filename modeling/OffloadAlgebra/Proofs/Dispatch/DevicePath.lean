import Mathlib
import OffloadAlgebra.Proofs.Kernels.Standard
import OffloadAlgebra.Proofs.Session.Calls
import OffloadAlgebra.Dispatch
/-!
  Device work on a context where no event failed.

  On a `Clean` context every wait list is satisfied, so a command runs its work at once and
  completes when the work succeeds (`Clean.runCommand_eq`).  Along the product's device path the
  context stays clean and `Extends` the one it started from: the base options and the dispatch
  counters stay, every matrix keeps its shape and contents (`Holds`), and the kernel table keeps
  only kernels as their keys build them (`WellKept`), so asking for a kernel always answers what
  it builds on the base options.  The three stages:

  * a copy of a host matrix whose entries fill its shape and whose buffer can be reserved makes a
    new matrix holding them (`fromHost_clean`);
  * the product of two device matrices, every dimension a positive 32-bit integer, builds the
    product kernel on first use, launches it over the result's shape rounded up to square thread
    blocks, and makes a new matrix holding the kernel's product (`multiplyOnDevice_clean`);
  * a copy back to the host answers the matrix's entries (`toHost_clean`).
-/

namespace OffloadAlgebra

/-- Host matrices as the library keeps them: the entries fill the shape, and a buffer for them
    can be reserved. -/
structure Matrix.Stored (m : Matrix) : Prop where
  size : m.data.size = m.rows * m.cols
  reservable : Word.reserve (m.rows * m.cols) = .ok ()

namespace Context

/-! ## Clean contexts and the matrices they hold -/

/-- A context on which no recorded event failed. -/
def Clean (c : Context) : Prop := ∀ e, c.failure? e = none

/-- Matrix `h` of the context is a `rows × cols` matrix holding `data`. -/
def Holds (c : Context) (h rows cols : Nat) (data : Array Float) : Prop :=
  h < c.matrices.size ∧ (c.matrix h).rows = rows ∧ (c.matrix h).cols = cols ∧ (c.matrix h).data = data

/-- The dispatch decisions a context counted, to the host and to the device. -/
def dispatches (c : Context) : Nat × Nat := (c.metrics.hostDispatches, c.metrics.deviceDispatches)

/-- Context `c'` keeps what the device path relies on of `c`: the base options, the dispatch
    counters, every matrix with its shape and contents, and a kernel table that keeps only what
    its keys build. -/
structure Extends (c c' : Context) : Prop where
  baseOptions : c'.baseOptions = c.baseOptions
  dispatches : c'.dispatches = c.dispatches
  holds : ∀ {h rows cols data}, c.Holds h rows cols data → c'.Holds h rows cols data
  wellKept : c.WellKept → c'.WellKept

theorem Extends.refl (c : Context) : c.Extends c := ⟨rfl, rfl, id, id⟩

theorem Extends.trans {c₁ c₂ c₃ : Context} (h₁ : c₁.Extends c₂) (h₂ : c₂.Extends c₃) : c₁.Extends c₃ :=
  ⟨h₂.baseOptions.trans h₁.baseOptions, h₂.dispatches.trans h₁.dispatches, fun h => h₂.holds (h₁.holds h),
    fun h => h₂.wellKept (h₁.wellKept h)⟩

section Clean

variable {c : Context}

theorem Clean.firstFailure?_eq_none (hc : c.Clean) (l : List Nat) : c.firstFailure? l = none :=
  List.findSome?_eq_none_iff.mpr fun e _ => hc e

/-- A context with the events of a clean one is clean. -/
theorem Clean.of_events (hc : c.Clean) {c' : Context} (h : c'.events = c.events) : c'.Clean := by
  intro e
  unfold failure? event?
  rw [h]
  exact hc e

/-- On a clean context a command runs its work at once; when the work succeeds its writes land
    and its event completes. -/
theorem Clean.runCommand_eq (hc : c.Clean) {label : String} {waits : List Nat}
    {work : Context → Except Fault (List (Nat × Array Float))} {ws : List (Nat × Array Float)}
    (hw : work c = .ok ws) :
    c.runCommand label waits work =
      { c.applyWrites ws with events := c.events.push ⟨label, .complete⟩, metrics := c.metrics.countCommand } := by
  refine runCommand_of_ok ?_
  rw [outcome, hc.firstFailure?_eq_none, hw]
  rfl

/-- A command whose work succeeds keeps a clean context clean. -/
theorem Clean.runCommand (hc : c.Clean) {label : String} {waits : List Nat}
    {work : Context → Except Fault (List (Nat × Array Float))} {ws : List (Nat × Array Float)}
    (hw : work c = .ok ws) : (c.runCommand label waits work).Clean := by
  rw [hc.runCommand_eq hw]
  intro e
  unfold failure? event?
  rw [Array.getElem?_push]
  by_cases he : e = c.events.size
  · rw [if_pos he]
  · rw [if_neg he]
    exact hc e

end Clean

/-! ## What each change of a context keeps -/

theorem dispatches_runCommand (c : Context) (label : String) (waits : List Nat)
    (work : Context → Except Fault (List (Nat × Array Float))) :
    (c.runCommand label waits work).dispatches = c.dispatches := by
  cases ho : c.outcome waits work with
  | ok ws =>
    rw [runCommand_of_ok ho]
    rfl
  | error m =>
    rw [runCommand_of_error ho]
    rfl

section Holds

variable {c : Context} {k rows cols : Nat} {data : Array Float}

theorem holds_of_matrices {c' : Context} (hm : c'.matrices = c.matrices) :
    c'.Holds k rows cols data ↔ c.Holds k rows cols data := by
  unfold Holds matrix
  rw [hm]

theorem holds_recorded (h : Nat) (dir : Direction) (e : Nat) :
    (c.recorded h dir e).Holds k rows cols data ↔ c.Holds k rows cols data := by
  unfold Holds
  rw [recorded, matrix_modify, Array.size_modify]
  split <;> exact Iff.rfl

theorem holds_foldl_recorded (binds : List (Nat × Nat × Direction)) (e : Nat) :
    (binds.foldl (fun c b => c.recorded b.2.1 b.2.2 e) c).Holds k rows cols data ↔ c.Holds k rows cols data := by
  induction binds generalizing c with
  | nil => exact Iff.rfl
  | cons b binds ih => exact ih.trans (holds_recorded _ _ _)

theorem holds_cleared (h : Nat) : (c.cleared h).Holds k rows cols data ↔ c.Holds k rows cols data := by
  unfold Holds
  rw [cleared, matrix_modify, Array.size_modify]
  split <;> exact Iff.rfl

/-- Writes to other matrices keep a matrix. -/
theorem holds_applyWrites_of_ne {ws : List (Nat × Array Float)} (hws : ∀ w ∈ ws, w.1 ≠ k) :
    (c.applyWrites ws).Holds k rows cols data ↔ c.Holds k rows cols data := by
  unfold Holds
  rw [matrix_applyWrites_of_not_mem hws, size_applyWrites]

/-- A write to a matrix gives it the written contents. -/
theorem holds_applyWrites_self (hk : k < c.matrices.size) (d : Array Float) :
    (c.applyWrites [(k, d)]).Holds k (c.matrix k).rows (c.matrix k).cols d := by
  refine ⟨by rw [size_applyWrites]; exact hk, ?_⟩
  rw [matrix_applyWrites, if_pos hk]
  simp [writtenData]

theorem holds_pushMatrix_of_lt (m : DeviceMatrix) (hk : k < c.matrices.size) :
    (c.pushMatrix m).Holds k rows cols data ↔ c.Holds k rows cols data := by
  unfold Holds
  rw [matrix_pushMatrix_of_lt c m hk, size_pushMatrix]
  exact ⟨fun h => ⟨hk, h.2⟩, fun h => ⟨by omega, h.2⟩⟩

theorem holds_pushMatrix_new (m : DeviceMatrix) : (c.pushMatrix m).Holds c.matrices.size m.rows m.cols m.data := by
  refine ⟨by rw [size_pushMatrix]; omega, ?_⟩
  rw [matrix_pushMatrix_self]
  exact ⟨rfl, rfl, rfl⟩

theorem extends_pushMatrix (c : Context) (m : DeviceMatrix) : c.Extends (c.pushMatrix m) :=
  ⟨rfl, rfl, fun hh => (holds_pushMatrix_of_lt _ hh.1).mpr hh, fun hwk => hwk.of_eq rfl rfl⟩

end Holds

/-! ## Copying a host matrix in -/

theorem reserve_max_one {n : Nat} (h : Word.reserve n = .ok ()) : Word.reserve (max 1 n) = .ok () := by
  rcases Nat.eq_zero_or_pos n with rfl | hpos
  · rfl
  · rwa [Nat.max_eq_right hpos]

/-- An allocation whose element count can be reserved adds a zero matrix after the others. -/
theorem alloc_run_of_reserve {rows cols : Nat} (hres : Word.reserve (rows * cols) = .ok ()) (c : Context) :
    (alloc rows cols).run.run c = .ok (.ok c.matrices.size, c.pushMatrix (zeroMatrix rows cols)) := by
  rw [alloc_run, if_neg (Nat.not_le.mpr (Word.lt_of_reserve hres)), reserve_max_one hres]
  rfl

section Written

variable {c : Context} {h k rows cols : Nat} {data d : Array Float}

theorem Clean.written (hc : c.Clean) (h : Nat) (data : Array Float) : (c.written h data).Clean :=
  (hc.runCommand rfl).of_events rfl

theorem dispatches_written (c : Context) (h : Nat) (data : Array Float) :
    (c.written h data).dispatches = c.dispatches :=
  dispatches_runCommand ..

theorem kernels_written (c : Context) (h : Nat) (data : Array Float) : (c.written h data).kernels = c.kernels :=
  (keeps_runCommand c "write_buffer" [] (writeWork h data)).frame.kernels

theorem baseOptions_written (c : Context) (h : Nat) (data : Array Float) :
    (c.written h data).baseOptions = c.baseOptions :=
  (keeps_runCommand c "write_buffer" [] (writeWork h data)).frame.baseOptions

theorem size_written (c : Context) (h : Nat) (data : Array Float) :
    (c.written h data).matrices.size = c.matrices.size := by
  unfold written
  dsimp only
  rw [recorded, Array.size_modify]
  exact (keeps_runCommand c "write_buffer" [] (writeWork h data)).frame.size

/-- A copy waits on no event, so it lands on every context: the data goes over the front of the
    buffer, and the copy is recorded on the matrix. -/
theorem written_eq (c : Context) (h : Nat) (data : Array Float) :
    c.written h data =
      ({ c.applyWrites [(h, data ++ (c.matrix h).data.extract data.size (c.matrix h).data.size)] with
          events := c.events.push ⟨"write_buffer", .complete⟩,
          metrics := c.metrics.countCommand.recordTransferToDevice (8 * data.size) } : Context).recorded
        h .output c.events.size := by
  have ho : c.outcome [] (writeWork h data) =
      .ok [(h, data ++ (c.matrix h).data.extract data.size (c.matrix h).data.size)] := rfl
  unfold Context.written
  rw [runCommand_of_ok ho]

/-- A copy into matrix `h` keeps every other matrix. -/
theorem holds_written_of_ne (hk : k ≠ h) :
    (c.written h data).Holds k rows cols d ↔ c.Holds k rows cols d := by
  rw [written_eq, holds_recorded]
  exact holds_applyWrites_of_ne (by simpa using Ne.symm hk)

/-- A copy into matrix `h` puts the data over the front of its buffer. -/
theorem holds_written (hh : h < c.matrices.size) :
    (c.written h data).Holds h (c.matrix h).rows (c.matrix h).cols
      (data ++ (c.matrix h).data.extract data.size (c.matrix h).data.size) := by
  rw [written_eq, holds_recorded]
  exact holds_applyWrites_self hh _

end Written

/-- A copy of a stored, non-empty host matrix into a clean context makes a new matrix holding its
    entries, after the others; the context stays clean and keeps its kernel table. -/
theorem fromHost_clean {c : Context} (hc : c.Clean) {m : Matrix} (hm : m.Stored) (hne : m.size ≠ 0) :
    ∃ c', (fromHost m).run.run c = .ok (.ok c.matrices.size, c') ∧ c'.Clean ∧ c.Extends c' ∧
      c'.kernels = c.kernels ∧ c'.matrices.size = c.matrices.size + 1 ∧
      c'.Holds c.matrices.size m.rows m.cols m.data := by
  have hpos : max 1 (m.rows * m.cols) = m.rows * m.cols := Nat.max_eq_right (Nat.pos_of_ne_zero hne)
  -- the copy allocates a zero matrix after the others, then writes the entries over it
  let c₁ := c.pushMatrix (zeroMatrix m.rows m.cols)
  have hc₁ : c₁.Clean := hc.of_events rfl
  have hX : c.matrices.size < c₁.matrices.size := by simp [c₁]
  refine ⟨c₁.written c.matrices.size m.data, ?_, hc₁.written _ _,
    ⟨baseOptions_written .., dispatches_written .., ?_,
      fun hw => hw.of_eq (kernels_written ..) (baseOptions_written ..)⟩,
    kernels_written .., by rw [size_written, size_pushMatrix], ?_⟩
  · rw [fromHost_run, alloc_run_of_reserve hm.reservable]
    simp only [Except.map_ok, if_neg hne]
    rfl
  · intro k rows cols d hk
    rw [holds_written_of_ne (Nat.ne_of_lt hk.1), holds_pushMatrix_of_lt _ hk.1]
    exact hk
  · have hnew : (c₁.written c.matrices.size m.data).Holds c.matrices.size (c₁.matrix c.matrices.size).rows
        (c₁.matrix c.matrices.size).cols (m.data ++ (c₁.matrix c.matrices.size).data.extract m.data.size
          (c₁.matrix c.matrices.size).data.size) := holds_written hX
    have hz : c₁.matrix c.matrices.size = zeroMatrix m.rows m.cols := by
      simp [c₁, matrix_pushMatrix]
    have hfill : m.data ++ (zeroMatrix m.rows m.cols).data.extract m.data.size (zeroMatrix m.rows m.cols).data.size =
        m.data := by
      simp [zeroMatrix, hm.size, hpos]
    rwa [hz, hfill] at hnew

/-! ## Running step by step -/

/-- A step that answers lets the rest of the computation run on the context it leaves. -/
theorem run_bind_ok {α β : Type} {x : DeviceM α} {f : α → DeviceM β} {c c₁ : Context} {a : α}
    (hx : x.run.run c = .ok (.ok a, c₁)) : (x >>= f).run.run c = (f a).run.run c₁ := by
  simp only [ExceptT.run_bind, StateT.run_bind, hx]
  rfl

theorem run_check_ok {α : Type} (a : α) (c : Context) :
    (DeviceM.check (.ok a : Except Error α)).run.run c = .ok (.ok a, c) := rfl

/-! ## Launches -/

theorem extends_recorded (c : Context) (h : Nat) (dir : Direction) (e : Nat) : c.Extends (c.recorded h dir e) :=
  ⟨rfl, rfl, fun hk => (holds_recorded h dir e).mpr hk, fun hw => hw.of_eq rfl rfl⟩

theorem extends_foldl_recorded (binds : List (Nat × Nat × Direction)) (e : Nat) (c : Context) :
    c.Extends (binds.foldl (fun c b => c.recorded b.2.1 b.2.2 e) c) := by
  induction binds generalizing c with
  | nil => exact .refl c
  | cons b binds ih => exact (extends_recorded c _ _ _).trans (ih _)

/-- The checks of a launch pass when each of them does, and the build answers the kernel. -/
theorem prepareLaunch_run_of_checks {spec : KernelSpec} {range : NdRange} {args : List KernelArg} {c c' : Context}
    {K : CompiledKernel} (hsig : signatureFault? spec.name spec.signature args = none)
    (hval : range.validate spec.name = .ok ()) (hk : (kernel spec).run.run c = .ok (.ok K, c'))
    (hal : aliasFault? spec.name (bufferBindings spec.signature args) = none) :
    (prepareLaunch spec range args).run.run c = .ok (.ok K, c') := by
  simp only [prepareLaunch, hsig, hval, run_bind_ok hk, hal]
  rfl

/-- A launch whose checks pass and leave a clean context `c`, whose work writes `d` into matrix
    `z`: it completes and the context stays clean, matrix `z` holds `d`, and the base options,
    the dispatch counters, the kernel table and every other matrix stay. -/
theorem invoke_clean {spec : KernelSpec} {range : NdRange} {args : List KernelArg} {c₀ c : Context}
    {K : CompiledKernel} (hp : (prepareLaunch spec range args).run.run c₀ = .ok (.ok K, c)) (hc : c.Clean)
    {z : Nat} {d : Array Float} (hz : z < c.matrices.size) (hw : launchWork K spec range args c = .ok [(z, d)]) :
    ∃ c', (invoke spec range args).run.run c₀ = .ok (.ok c.events.size, c') ∧ c'.Clean ∧
      c'.baseOptions = c.baseOptions ∧ c'.dispatches = c.dispatches ∧ (c.WellKept → c'.WellKept) ∧
      (∀ {h rows cols data}, h ≠ z → (c'.Holds h rows cols data ↔ c.Holds h rows cols data)) ∧
      c'.Holds z (c.matrix z).rows (c.matrix z).cols d := by
  -- the launch runs at once; recording it on its buffers changes only their event lists
  have hext := extends_foldl_recorded (bufferBindings spec.signature args) c.events.size
    (c.runCommand spec.name (c.launchWaits (bufferBindings spec.signature args)) (launchWork K spec range args))
  have hkeep := keeps_runCommand c spec.name (c.launchWaits (bufferBindings spec.signature args))
    (launchWork K spec range args)
  refine ⟨_, invoke_run_of_ok hp, (hc.runCommand hw).of_events (events_foldl_recorded _ _ _), ?_, ?_, ?_, ?_, ?_⟩
  · exact hext.baseOptions.trans hkeep.frame.baseOptions
  · exact hext.dispatches.trans (dispatches_runCommand ..)
  · exact fun hwk => hext.wellKept (hwk.of_eq hkeep.frame.kernels hkeep.frame.baseOptions)
  · intro h rows cols data hne
    refine (holds_foldl_recorded _ _).trans ?_
    rw [hc.runCommand_eq hw]
    exact holds_applyWrites_of_ne (by simpa using Ne.symm hne)
  · refine (holds_foldl_recorded _ _).mpr ?_
    rw [hc.runCommand_eq hw]
    exact holds_applyWrites_self hz d

/-! ## Building kernels -/

section Build

variable {c : Context} {spec : KernelSpec} {f : HostFn}

@[simp] theorem matrix_withKernel (h : Nat) : (c.withKernel spec f).matrix h = c.matrix h := by
  unfold matrix
  rw [matrices_withKernel]

theorem dispatches_withKernel : (c.withKernel spec f).dispatches = c.dispatches := by
  unfold withKernel
  split <;> rfl

end Build

/-! ## The product on the device -/

theorem roundUp_pos {r t : Nat} (hr : 0 < r) (ht : 0 < t) : 0 < roundUp r t := by
  unfold roundUp
  rw [if_neg (Nat.ne_of_gt ht)]
  exact Nat.mul_pos (Nat.div_pos (by omega) ht) ht

theorem roundUp_mod (r : Nat) {t : Nat} (ht : 0 < t) : roundUp r t % t = 0 := by
  unfold roundUp
  rw [if_neg (Nat.ne_of_gt ht)]
  exact Nat.mul_mod_left _ _

/-- Square tiles of a positive side over a non-empty rectangle, each side rounded up to whole
    tiles, make a valid range. -/
theorem validate_tiles {r n t : Nat} (hr : 0 < r) (hn : 0 < n) (ht : 0 < t) (name : String) :
    NdRange.validate ⟨⟨[roundUp r t, roundUp n t]⟩, some ⟨[t, t]⟩⟩ name = .ok () := by
  have h1 := roundUp_pos hr ht
  have h2 := roundUp_pos hn ht
  simp [NdRange.validate, WorkSize.dims, Nat.ne_of_lt h1, Nat.ne_of_lt h2, Nat.ne_of_gt ht, roundUp_mod _ ht]

theorem intDim_ok {n : Nat} (h : n ≤ int32Max) (function : String) : intDim function n = .ok n := by
  unfold intDim
  exact if_pos h

/-- A size past the 32-bit integers is refused, the message naming it. -/
theorem intDim_error {n : Nat} (h : int32Max < n) (function : String) :
    intDim function n = .error (.invalidArgument function ("dimension " ++ toString n ++ " exceeds the int range")) := by
  unfold intDim
  exact if_neg (Nat.not_le.mpr h)

/-- The product's arguments fit the product kernel's signature. -/
theorem signatureFault_product (x y z : Nat) (a b d : Int) :
    signatureFault? Standard.matrixMultiply.name Standard.matrixMultiply.signature
      [.matrix x, .matrix y, .matrix z, .int a, .int b, .int d] = none := rfl

/-- The product's output is neither of its inputs, which may be one matrix. -/
theorem aliasFault_product {x y z : Nat} (hxz : x ≠ z) (hyz : y ≠ z) (a b d : Int) :
    aliasFault? Standard.matrixMultiply.name (bufferBindings Standard.matrixMultiply.signature
      [.matrix x, .matrix y, .matrix z, .int a, .int b, .int d]) = none := by
  simp [aliasFault?, bufferBindings, Standard.matrixMultiply, hxz, hyz, Direction.writes]

/-- The product kernel's launch, with buffers long enough for its sizes, writes the product's
    columns over the front of the output. -/
theorem launchWork_matrixMultiply (K : CompiledKernel) (range : NdRange)
    {c : Context} {x y z r n k : Nat} {A B C : Array Float}
    (hx : (c.matrix x).data = A) (hy : (c.matrix y).data = B) (hz : (c.matrix z).data = C)
    (hA : r * k ≤ A.size) (hB : k * n ≤ B.size) (hC : r * n ≤ C.size) :
    launchWork K Standard.matrixMultiply range [.matrix x, .matrix y, .matrix z, .int r, .int n, .int k] c =
      .ok [(z, Builtin.multiplyColumns A B r n k ++ C.extract (r * n) C.size)] := by
  have h0 : ∀ m : Nat, ¬ ((m : Int) < 0) := fun m => Int.not_lt.mpr (Int.natCast_nonneg m)
  unfold launchWork
  rw [KernelSpec.hostRun_of_host (rfl : Standard.matrixMultiply.host = some .matrixMultiply), HostFn.matrixMultiply_run]
  simp [h0, Builtin.matrixMultiply, Launch.size, Launch.int, Launch.arg, Launch.read, Launch.write,
    Launch.ensureLen, lower, Standard.matrixMultiply, hx, hy, hz, Direction.writes, Nat.not_lt.mpr hA,
    Nat.not_lt.mpr hB, Nat.not_lt.mpr hC]

/-- Asking for the product kernel's thread block builds the kernel on first use; the side is at
    least 1. -/
theorem threadBlockSize_run {c : Context} (hb : c.baseOptions.Sound) (hw : c.WellKept) :
    ∃ t, 0 < t ∧ threadBlockSize.run.run c =
      .ok (.ok t, c.withKernel Standard.matrixMultiply .matrixMultiply) := by
  unfold threadBlockSize
  rw [run_bind_ok (kernel_run_wellKept Standard.matrixMultiply_buildable rfl hb hw)]
  cases hopt : (Standard.matrixMultiply.builtOn .matrixMultiply c.baseOptions).options.get? "THREAD_BLOCK_SIZE" with
  | none => exact ⟨1, Nat.one_pos, rfl⟩
  | some v => exact ⟨max 1 v.toNat, by omega, rfl⟩

/-- The product of two device matrices on a clean context with a well-kept kernel table, every
    dimension a positive 32-bit integer and the result reservable: the result is a new matrix after
    the others holding the product kernel's columns, and the context stays clean. -/
theorem multiplyOnDevice_clean {c : Context} (hc : c.Clean) (hb : c.baseOptions.Sound) (hw : c.WellKept)
    {x y r k n : Nat} {A B : Array Float} (hA : c.Holds x r k A) (hB : c.Holds y k n B)
    (hAsize : r * k ≤ A.size) (hBsize : k * n ≤ B.size)
    (hr : 0 < r) (hk0 : 0 < k) (hn : 0 < n) (hr32 : r ≤ int32Max) (hk32 : k ≤ int32Max) (hn32 : n ≤ int32Max)
    (hres : Word.reserve (r * n) = .ok ()) :
    ∃ c', (multiplyOnDevice x y).run.run c = .ok (.ok c.matrices.size, c') ∧ c'.Clean ∧ c.Extends c' ∧
      c'.Holds c.matrices.size r n (Builtin.multiplyColumns A B r n k) := by
  -- the result is allocated after the other matrices, which keep their data
  have hpos : max 1 (r * n) = r * n := Nat.max_eq_right (Nat.mul_pos hr hn)
  have halloc := alloc_run_of_reserve hres c
  have hext₁ := extends_pushMatrix c (zeroMatrix r n)
  have hA₁ := hext₁.holds hA
  have hB₁ := hext₁.holds hB
  obtain ⟨hx, hxr, hxc, -⟩ := hA
  obtain ⟨hy, hyr, hyc, -⟩ := hB
  have hmz := matrix_pushMatrix_self c (zeroMatrix r n)
  have hc₁ : (c.pushMatrix (zeroMatrix r n)).Clean := hc.of_events rfl
  have hz₁ : c.matrices.size < (c.pushMatrix (zeroMatrix r n)).matrices.size := by simp
  generalize c.pushMatrix (zeroMatrix r n) = c₁ at halloc hext₁ hA₁ hB₁ hmz hc₁ hz₁
  -- the thread block builds the product kernel; the launch then finds it kept and passes its checks
  obtain ⟨t, ht, htbs⟩ := threadBlockSize_run (hext₁.baseOptions ▸ hb) (hext₁.wellKept hw)
  have hK := lookup_withKernel (hext₁.wellKept hw) (rfl : Standard.matrixMultiply.host = some .matrixMultiply)
  have hprep : (prepareLaunch Standard.matrixMultiply ⟨⟨[roundUp r t, roundUp n t]⟩, some ⟨[t, t]⟩⟩
      [.matrix x, .matrix y, .matrix c.matrices.size, .int r, .int n, .int k]).run.run
        (c₁.withKernel Standard.matrixMultiply .matrixMultiply) =
      .ok (.ok (Standard.matrixMultiply.builtOn .matrixMultiply c₁.baseOptions),
        c₁.withKernel Standard.matrixMultiply .matrixMultiply) :=
    prepareLaunch_run_of_checks (signatureFault_product ..) (validate_tiles hr hn ht _) (kernel_run_kept hK)
      (aliasFault_product (Nat.ne_of_lt hx) (Nat.ne_of_lt hy) ..)
  -- the launch reads the two operands and writes the product over the zeros of the result
  have hzero : (zeroMatrix r n).data.extract (r * n) (zeroMatrix r n).data.size = #[] :=
    Array.extract_empty_of_size_le_start (by simp [zeroMatrix, hpos])
  have hA₂ : (c₁.withKernel Standard.matrixMultiply .matrixMultiply).Holds x r k A :=
    (holds_of_matrices matrices_withKernel).mpr hA₁
  have hB₂ : (c₁.withKernel Standard.matrixMultiply .matrixMultiply).Holds y k n B :=
    (holds_of_matrices matrices_withKernel).mpr hB₁
  have hmz₂ : ((c₁.withKernel Standard.matrixMultiply .matrixMultiply).matrix c.matrices.size).data =
      (zeroMatrix r n).data := by
    rw [matrix_withKernel, hmz]
  have hwork := launchWork_matrixMultiply (Standard.matrixMultiply.builtOn .matrixMultiply c₁.baseOptions)
    ⟨⟨[roundUp r t, roundUp n t]⟩, some ⟨[t, t]⟩⟩ hA₂.2.2.2 hB₂.2.2.2 hmz₂ hAsize hBsize
    (by simp [zeroMatrix, hpos])
  rw [hzero, Array.append_empty] at hwork
  have hz₂ : c.matrices.size < (c₁.withKernel Standard.matrixMultiply .matrixMultiply).matrices.size := by
    rw [matrices_withKernel]
    exact hz₁
  obtain ⟨c₃, hinv, hc₃, hb₃, hd₃, hw₃, hold₃, hnew₃⟩ :=
    invoke_clean hprep (hc₁.of_events events_withKernel) hz₂ hwork
  have hshape : Shape.checkMultiplicable "multiply" "A" ⟨r, k⟩ "B" ⟨k, n⟩ = .ok () := by
    simp [Shape.checkMultiplicable, Shape.checkSizeMatch]
  have hne : ¬ (r * k = 0 ∨ k * n = 0) := by
    simp only [Nat.mul_eq_zero]
    omega
  refine ⟨c₃, ?_, hc₃, ⟨?_, ?_, fun hh => ?_, fun hwk => ?_⟩, ?_⟩
  · unfold multiplyOnDevice
    rw [run_bind_ok (run_get c), run_bind_ok (run_get c)]
    dsimp only
    rw [hxr, hxc, hyr, hyc, hshape, run_bind_ok (run_check_ok () c), run_bind_ok halloc, if_neg hne,
      run_bind_ok htbs]
    rw [intDim_ok hr32, intDim_ok hn32, intDim_ok hk32, run_bind_ok (run_check_ok _ _), run_bind_ok (run_check_ok _ _),
      run_bind_ok (run_check_ok _ _), run_bind_ok hinv]
    rfl
  · rw [hb₃, baseOptions_withKernel, hext₁.baseOptions]
  · rw [hd₃, dispatches_withKernel, hext₁.dispatches]
  · -- every matrix of `c` comes before the result
    refine (hold₃ (Nat.ne_of_lt hh.1)).mpr ?_
    rw [holds_of_matrices matrices_withKernel]
    exact hext₁.holds hh
  · exact hw₃ ((hext₁.wellKept hwk).withKernel rfl)
  · rw [matrix_withKernel, hmz] at hnew₃
    exact hnew₃

/-- A product on the device whose second operand has more columns than a 32-bit integer holds is
    refused when the launch's sizes are converted: the result is allocated and the kernel built,
    and nothing is launched. -/
theorem multiplyOnDevice_wide {c : Context} (hb : c.baseOptions.Sound) (hw : c.WellKept)
    {x y r k n : Nat} {A B : Array Float} (hA : c.Holds x r k A) (hB : c.Holds y k n B)
    (hr : 0 < r) (hk0 : 0 < k) (hr32 : r ≤ int32Max) (hn32 : int32Max < n)
    (hres : Word.reserve (r * n) = .ok ()) :
    ∃ c', (multiplyOnDevice x y).run.run c =
      .ok (.error (.invalidArgument "multiply" ("dimension " ++ toString n ++ " exceeds the int range")), c') := by
  obtain ⟨-, hxr, hxc, -⟩ := hA
  obtain ⟨-, hyr, hyc, -⟩ := hB
  have hn : 0 < n := Nat.lt_of_le_of_lt (Nat.zero_le _) hn32
  -- the result is allocated and the thread block builds the product kernel, as on any launch
  have halloc := alloc_run_of_reserve hres c
  have hext₁ := extends_pushMatrix c (zeroMatrix r n)
  obtain ⟨t, -, htbs⟩ := threadBlockSize_run (hext₁.baseOptions ▸ hb) (hext₁.wellKept hw)
  have hshape : Shape.checkMultiplicable "multiply" "A" ⟨r, k⟩ "B" ⟨k, n⟩ = .ok () := by
    simp [Shape.checkMultiplicable, Shape.checkSizeMatch]
  have hne : ¬ (r * k = 0 ∨ k * n = 0) := by
    simp only [Nat.mul_eq_zero]
    omega
  refine ⟨(c.pushMatrix (zeroMatrix r n)).withKernel Standard.matrixMultiply .matrixMultiply, ?_⟩
  unfold multiplyOnDevice
  rw [run_bind_ok (run_get c), run_bind_ok (run_get c)]
  dsimp only
  rw [hxr, hxc, hyr, hyc, hshape, run_bind_ok (run_check_ok () c), run_bind_ok halloc, if_neg hne,
    run_bind_ok htbs, intDim_ok hr32, run_bind_ok (run_check_ok _ _), intDim_error hn32]
  rfl

/-! ## Copying back -/

/-- A copy back to the host from a clean context answers the matrix's entries, and the context
    stays clean. -/
theorem toHost_clean {c : Context} (hc : c.Clean) {h rows cols : Nat} {data : Array Float}
    (hh : c.Holds h rows cols data) :
    ∃ c', (toHost h).run.run c = .ok (.ok ⟨rows, cols, data.extract 0 (rows * cols)⟩, c') ∧ c'.Clean ∧
      c.Extends c' := by
  -- the read runs at once and completes; it writes nothing
  let c₁ := c.runCommand "read_buffer" (c.matrix h).writes fun _ => .ok []
  have hnone : (fun _ : Context => (.ok [] : Except Fault (List (Nat × Array Float)))) c = .ok [] := rfl
  have hc₁ : (c.runCommand "read_buffer" (c.matrix h).writes fun _ => .ok []).Clean := hc.runCommand rfl
  have hm : (c.runCommand "read_buffer" (c.matrix h).writes fun _ => .ok []).matrix h = c.matrix h := by
    simp only [matrix, matrices_runCommand_nil]
  obtain ⟨-, hr, hcl, hd⟩ := hh
  refine ⟨({ c₁ with metrics := c₁.metrics.recordTransferFromDevice (8 * (rows * cols)) } : Context).cleared h,
    ?_, hc₁.of_events rfl, ⟨(keeps_runCommand ..).frame.baseOptions, dispatches_runCommand .., fun hk => ?_,
      fun hw => hw.of_eq (keeps_runCommand ..).frame.kernels (keeps_runCommand ..).frame.baseOptions⟩⟩
  · rw [toHost_run]
    simp only [finishRead, hc₁ _, hc₁.firstFailure?_eq_none, hm, hr, hcl, hd]
    rfl
  · refine (holds_cleared h).mpr ?_
    show (c.runCommand "read_buffer" (c.matrix h).writes fun _ => .ok []).Holds _ _ _ _
    rw [hc.runCommand_eq hnone]
    exact (holds_applyWrites_of_ne (by simp)).mpr hk

end Context

end OffloadAlgebra
