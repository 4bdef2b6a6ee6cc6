import Mathlib
import OffloadAlgebra.Proofs.Dispatch.Counting
import OffloadAlgebra.Proofs.Exact.HostAlgebra
/-!
  The product of two host matrices, decided between the host and the device.

  On a context made from a configuration (`ProductContract`): shapes are checked first and a
  mismatch changes nothing; an empty operand gives the zero matrix without a decision, or
  panics when its buffer cannot be reserved; otherwise exactly one dispatch is counted, to the
  device when the saturated size `rows(a) * cols(a) * cols(b)` exceeds the context's threshold,
  and the answer is the product kernel's columns on the device and the host library's product on
  the host, which panics when its result cannot be reserved.  The kernel is written over any
  `Scalar`; in exact arithmetic its columns are the matrix product (`multiplyColumns_exact`), and
  so is whatever a lawful host library answers (`HostAlgebra.Lawful`).

  The device path needs the product kernel to build and its launch to pass every check on every
  such context: the kernel builds with any sound base options (`Standard.matrixMultiply_buildable`),
  its range is whole square tiles of a positive side, and each stage keeps the context clean
  (`DevicePath`).  That no other step counts a dispatch is `Counting`.
-/

namespace OffloadAlgebra

open ColumnMajor

/-! ## The product kernel's storage -/

section Storage

variable {α : Type} [Scalar α]

theorem Builtin.size_multiplyColumn (a b : Array α) (m k j : Nat) : (Builtin.multiplyColumn a b m k j).size = m := by
  unfold Builtin.multiplyColumn
  generalize List.range k = l
  generalize hcol : Array.replicate m _ = col
  have hinit : col.size = m := hcol ▸ Array.size_replicate
  clear hcol
  -- each term keeps the length of the column
  induction l generalizing col with
  | nil => exact hinit
  | cons p l ih =>
    rw [List.foldl_cons]
    refine ih _ ?_
    dsimp only
    split
    · exact hinit
    · rw [Array.size_map, Array.size_zipIdx, hinit]

theorem Builtin.size_multiplyColumns (a b : Array α) (m n k : Nat) :
    (Builtin.multiplyColumns a b m n k).size = m * n := by
  unfold Builtin.multiplyColumns
  rw [foldl_append_columns m n _ (fun j _ => Builtin.size_multiplyColumn a b m k j), size_ofFn]

end Storage

namespace Context

/-! ## The steps of a product -/

theorem run_unwind {α : Type} (r : Except Panic α) (c : Context) :
    (DeviceM.unwind r).run.run c = r.map fun a => (.ok a, c) := by
  cases r <;> rfl

theorem run_recordDispatch (offloaded : Bool) (c : Context) :
    (recordDispatch offloaded).run.run c = .ok (.ok (), { c with metrics := c.metrics.recordDispatch offloaded }) :=
  rfl

/-- The shapes are checked first: a mismatch is answered at once, with nothing changed. -/
theorem multiply_run_of_check {host : HostAlgebra} {a b : Matrix} {e : Error}
    (h : Shape.checkMultiplicable "multiply" "m1" a.shape "m2" b.shape = .error e) (c : Context) :
    (multiply host a b).run.run c = .ok (.error e, c) := by
  unfold multiply
  rw [h]
  rfl

theorem checkMultiplicable_ok {a b : Matrix} (h : a.cols = b.rows) :
    Shape.checkMultiplicable "multiply" "m1" a.shape "m2" b.shape = .ok () := by
  simp [Shape.checkMultiplicable, Shape.checkSizeMatch, Matrix.shape, h]

/-- An empty operand gives the zero matrix as the host allocates it, with nothing changed. -/
theorem multiply_run_empty {host : HostAlgebra} {a b : Matrix} (h : a.cols = b.rows)
    (he : (a.isEmpty || b.isEmpty) = true) (c : Context) :
    (multiply host a b).run.run c = (Matrix.hostZeros a.rows b.cols).map fun z => (.ok z, c) := by
  unfold multiply
  rw [checkMultiplicable_ok h, run_bind_ok (run_check_ok () c), if_pos he, run_unwind]

/-- The device path of a product: both operands copied in, the product launched, the result
    copied back. -/
def productOnDevice (a b : Matrix) : DeviceM Matrix :=
  fromHost a >>= fun x => fromHost b >>= fun y => multiplyOnDevice x y >>= toHost

/-- Whether a product of `a` and `b` goes to the device on `c`: its saturated size exceeds the
    threshold the context holds. -/
def offloadsProduct (c : Context) (a b : Matrix) : Bool :=
  shouldOffload (min (a.rows * a.cols * b.cols) wordMax) c.tuning.multiplyWorth

/-- Otherwise the decision is counted, and the product runs on the path it chose. -/
theorem multiply_run_decided {host : HostAlgebra} {a b : Matrix} (h : a.cols = b.rows)
    (he : ¬ (a.isEmpty || b.isEmpty) = true) (c : Context) :
    (multiply host a b).run.run c =
      if c.offloadsProduct a b then
        (productOnDevice a b).run.run { c with metrics := c.metrics.recordDispatch true }
      else (host.product a b).map fun m => (.ok m, { c with metrics := c.metrics.recordDispatch false }) := by
  unfold multiply
  rw [checkMultiplicable_ok h, run_bind_ok (run_check_ok () c), if_neg he, run_bind_ok (run_get c)]
  dsimp only
  rw [run_bind_ok (run_recordDispatch _ c)]
  unfold offloadsProduct
  cases shouldOffload (min (a.rows * a.cols * b.cols) wordMax) c.tuning.multiplyWorth
  · exact run_unwind _ _
  · rfl

/-! ## Zero matrices on the host -/

/-- A zero matrix whose buffer can be reserved is allocated. -/
theorem hostZeros_of_reserve {r c : Nat} (h : Word.reserve (r * c) = .ok ()) :
    Matrix.hostZeros r c = .ok (Matrix.zeros r c) := by
  have hmul : Word.mul r c = .ok (r * c) := if_pos (Word.lt_of_reserve h)
  unfold Matrix.hostZeros
  rw [hmul]
  show (Word.reserve (r * c) >>= fun _ => pure (Matrix.zeros r c)) = _
  rw [h]
  rfl

/-- One whose buffer cannot be reserved panics: its count is no machine word, or its bytes are
    too many. -/
theorem hostZeros_panic {r c : Nat} (h : Word.reserve (r * c) ≠ .ok ()) : ∃ p, Matrix.hostZeros r c = .error p := by
  unfold Matrix.hostZeros
  by_cases hw : r * c < Word.modulus
  · have hmul : Word.mul r c = .ok (r * c) := if_pos hw
    cases hres : Word.reserve (r * c) with
    | error p =>
      refine ⟨p, ?_⟩
      rw [hmul]
      show (Word.reserve (r * c) >>= fun _ => pure (Matrix.zeros r c)) = _
      rw [hres]
      rfl
    | ok u => exact absurd hres h
  · exact ⟨Word.mulOverflow, by rw [Word.mul_eq_error (Nat.le_of_not_lt hw)]; rfl⟩

theorem isEmpty_or_iff {a b : Matrix} (h : a.cols = b.rows) :
    (a.isEmpty || b.isEmpty) = true ↔ a.rows = 0 ∨ a.cols = 0 ∨ b.cols = 0 := by
  simp only [Matrix.isEmpty, Matrix.size, Bool.or_eq_true, beq_iff_eq, Nat.mul_eq_zero, ← h]
  omega

/-! ## The device path -/

/-- The device path of a product of two stored matrices with positive sides within the 32-bit
    integers and a result that can be reserved, on a clean context with sound base options and a
    well-kept kernel table: it answers the product kernel's columns and counts no dispatch. -/
theorem productOnDevice_run {c : Context} (hc : c.Clean) (hs : c.baseOptions.Sound) (hw : c.WellKept)
    {a b : Matrix} (ha : a.Stored) (hb : b.Stored)
    (h : a.cols = b.rows) (hr : 0 < a.rows) (hk0 : 0 < a.cols) (hn : 0 < b.cols)
    (hr32 : a.rows ≤ int32Max) (hk32 : a.cols ≤ int32Max) (hn32 : b.cols ≤ int32Max)
    (hres : Word.reserve (a.rows * b.cols) = .ok ()) :
    ∃ c', (productOnDevice a b).run.run c =
        .ok (.ok ⟨a.rows, b.cols, Builtin.multiplyColumns a.data b.data a.rows b.cols a.cols⟩, c') ∧
      c'.dispatches = c.dispatches := by
  have hane : a.size ≠ 0 := Nat.ne_of_gt (Nat.mul_pos hr hk0)
  have hbne : b.size ≠ 0 := by
    unfold Matrix.size
    rw [← h]
    exact Nat.ne_of_gt (Nat.mul_pos hk0 hn)
  -- the operands are copied in one after the other, and the product is launched on their copies
  obtain ⟨c₁, h₁, hc₁, he₁, -, -, hA₁⟩ := fromHost_clean hc ha hane
  obtain ⟨c₂, h₂, hc₂, he₂, -, -, hB₂⟩ := fromHost_clean hc₁ hb hbne
  rw [← h] at hB₂
  have hs₂ : c₂.baseOptions.Sound := by
    rw [he₂.baseOptions, he₁.baseOptions]
    exact hs
  have hBsize : a.cols * b.cols ≤ b.data.size := by rw [h, hb.size]
  obtain ⟨c₃, h₃, hc₃, he₃, hC₃⟩ := multiplyOnDevice_clean hc₂ hs₂ (he₂.wellKept (he₁.wellKept hw)) (he₂.holds hA₁) hB₂
    (Nat.le_of_eq ha.size.symm) hBsize hr hk0 hn hr32 hk32 hn32 hres
  obtain ⟨c₄, h₄, -, he₄⟩ := toHost_clean hc₃ hC₃
  -- the copy back reads the whole product
  have hall : (Builtin.multiplyColumns a.data b.data a.rows b.cols a.cols).extract 0 (a.rows * b.cols) =
      Builtin.multiplyColumns a.data b.data a.rows b.cols a.cols := by
    rw [← Builtin.size_multiplyColumns a.data b.data a.rows b.cols a.cols, Array.extract_size]
  refine ⟨c₄, ?_, (((he₁.trans he₂).trans he₃).trans he₄).dispatches⟩
  unfold productOnDevice
  rw [run_bind_ok h₁, run_bind_ok h₂, run_bind_ok h₃, h₄, hall]

/-- The device path counts no dispatch, however it ends. -/
theorem keepsDispatches_productOnDevice (a b : Matrix) : KeepsDispatches (productOnDevice a b) :=
  keepsDispatches_bind (keepsDispatches_fromHost a) fun _ => keepsDispatches_bind (keepsDispatches_fromHost b)
    fun _ => keepsDispatches_bind (keepsDispatches_multiplyOnDevice _ _) keepsDispatches_toHost

/-! ## Contexts made from a configuration -/

/-- A context as a configuration makes it: no event failed, no kernel is built, no dispatch is
    counted, and the base options are sound. -/
structure Fresh (c : Context) : Prop where
  clean : c.Clean
  sound : c.baseOptions.Sound
  noKernels : c.kernels = []
  noDispatches : c.dispatches = (0, 0)

theorem fresh_of_create {cfg : Config} {processors : Nat} {ctx : Context}
    (hctx : Context.create cfg processors = .ok (.ok ctx))
    (hvals : ∀ kv ∈ cfg.baseOptions.entries, kv.2 < Int.pow 2 63) : ctx.Fresh := by
  have hs := sound_of_create hctx hvals
  obtain ⟨-, rfl⟩ := create_eq_ok hctx
  exact ⟨fun _ => rfl, hs, rfl, rfl⟩

theorem Fresh.wellKept {c : Context} (hc : c.Fresh) : c.WellKept := wellKept_of_kernels_nil hc.noKernels

/-- New thresholds keep a context fresh. -/
theorem Fresh.setTuning {c : Context} (hc : c.Fresh) (t : Tuning) : (c.setTuning t).Fresh :=
  ⟨hc.clean.of_events rfl, hc.sound, hc.noKernels, hc.noDispatches⟩

/-- The first decision on a fresh context is its only dispatch. -/
theorem Fresh.dispatches_recorded {c : Context} (hc : c.Fresh) (offloaded : Bool) :
    ({ c with metrics := c.metrics.recordDispatch offloaded } : Context).dispatches =
      if offloaded then (0, 1) else (1, 0) := by
  obtain ⟨hh, hd⟩ := Prod.mk.inj hc.noDispatches
  cases offloaded
  · simp [dispatches, Telemetry.Metrics.recordDispatch, Telemetry.Metrics.bumpBy, hh, hd,
      Telemetry.counterModulus]
  · simp [dispatches, Telemetry.Metrics.recordDispatch, Telemetry.Metrics.bumpBy, hh, hd,
      Telemetry.counterModulus]

/-- A configuration that makes a context, found by running it. -/
theorem create_ok_of_isSome {cfg : Config} {processors : Nat}
    (h : ((Context.create cfg processors).toOption.bind Except.toOption).isSome = true) :
    ∃ ctx, Context.create cfg processors = .ok (.ok ctx) := by
  cases hc : Context.create cfg processors with
  | error p => rw [hc] at h; cases h
  | ok r =>
    cases r with
    | error e => rw [hc] at h; cases h
    | ok ctx => exact ⟨ctx, rfl⟩

/-! ## The host path -/

/-- The host library's product is its answer as a matrix of the first operand's rows and the
    second operand's columns. -/
theorem HostAlgebra.product_eq (host : HostAlgebra) (a b : Matrix) :
    host.product a b = (host.mul a.data b.data a.rows a.cols b.rows b.cols).map fun d => ⟨a.rows, b.cols, d⟩ := by
  unfold HostAlgebra.product
  cases host.mul a.data b.data a.rows a.cols b.rows b.cols <;> rfl

section HostPath

variable {host : HostAlgebra} {a b : Matrix}

/-- A product kept on the host answers the host library's product, after counting its decision. -/
theorem multiply_run_onHost (h : a.cols = b.rows) (he : ¬ (a.isEmpty || b.isEmpty) = true) {c : Context}
    (hoff : c.offloadsProduct a b = false) {d : Array Float} (hd : host.mul a.data b.data a.rows a.cols b.rows b.cols = .ok d) :
    (multiply host a b).run.run c = .ok (.ok ⟨a.rows, b.cols, d⟩, { c with metrics := c.metrics.recordDispatch false }) := by
  rw [multiply_run_decided h he, hoff, if_neg Bool.false_ne_true, HostAlgebra.product_eq, hd]
  rfl

/-- A product kept on the host panics when the host library does. -/
theorem multiply_run_hostPanics (h : a.cols = b.rows) (he : ¬ (a.isEmpty || b.isEmpty) = true) {c : Context}
    (hoff : c.offloadsProduct a b = false) {p : Panic} (hp : host.mul a.data b.data a.rows a.cols b.rows b.cols = .error p) :
    (multiply host a b).run.run c = .error p := by
  rw [multiply_run_decided h he, hoff, if_neg Bool.false_ne_true, HostAlgebra.product_eq, hp]
  rfl

/-- With a lawful host library, a product kept on the host panics exactly when its result cannot
    be reserved. -/
theorem multiply_hostPanics (hh : host.Lawful) (h : a.cols = b.rows) (he : ¬ (a.isEmpty || b.isEmpty) = true)
    {c : Context} (hoff : c.offloadsProduct a b = false) (hres : Word.reserve (a.rows * b.cols) ≠ .ok ()) :
    ∃ p, (multiply host a b).run.run c = .error p := by
  cases hm : host.mul a.data b.data a.rows a.cols b.rows b.cols with
  | ok d => exact absurd ((hh.mul_ok_iff _ _ _ _ _ _).mp ⟨d, hm⟩) hres
  | error p => exact ⟨p, multiply_run_hostPanics h he hoff hm⟩

end HostPath

/-! ## The contract of a product -/

/-- What a product of `a` and `b` does on the context `c`, whose counters start at zero, with the
    host library `host`.  The shapes are checked before anything else; an empty operand gives
    the zero matrix with nothing changed, or panics when its buffer cannot be reserved; otherwise
    exactly one dispatch is counted, to the device as `offloadsProduct` decides.  On the host the
    answer is the host library's product, or its panic when the result cannot be reserved; on the
    device it is the product kernel's columns.  In exact arithmetic the kernel's columns are the
    matrix product, and they are what the host library answers. -/
structure ProductContract (host : HostAlgebra) (c : Context) (a b : Matrix) : Prop where
  mismatch : (∃ msg, (multiply host a b).run.run c = .ok (.error (.shapeMismatch "multiply" msg), c)) ↔
    a.cols ≠ b.rows
  empty : a.cols = b.rows → (a.rows = 0 ∨ a.cols = 0 ∨ b.cols = 0) → Word.reserve (a.rows * b.cols) = .ok () →
    (multiply host a b).run.run c = .ok (.ok (Matrix.zeros a.rows b.cols), c)
  emptyPanics : a.cols = b.rows → (a.rows = 0 ∨ a.cols = 0 ∨ b.cols = 0) → Word.reserve (a.rows * b.cols) ≠ .ok () →
    ∃ p, (multiply host a b).run.run c = .error p
  onHost : a.cols = b.rows → 0 < a.rows → 0 < a.cols → 0 < b.cols → c.offloadsProduct a b = false →
    Word.reserve (a.rows * b.cols) = .ok () →
    ∃ d c', host.mul a.data b.data a.rows a.cols b.rows b.cols = .ok d ∧
      (multiply host a b).run.run c = .ok (.ok ⟨a.rows, b.cols, d⟩, c') ∧ c'.dispatches = (1, 0)
  hostPanics : a.cols = b.rows → 0 < a.rows → 0 < a.cols → 0 < b.cols → c.offloadsProduct a b = false →
    Word.reserve (a.rows * b.cols) ≠ .ok () → ∃ p, (multiply host a b).run.run c = .error p
  onDevice : a.cols = b.rows → 0 < a.rows → 0 < a.cols → 0 < b.cols →
    a.rows ≤ int32Max → a.cols ≤ int32Max → b.cols ≤ int32Max → Word.reserve (a.rows * b.cols) = .ok () →
    c.offloadsProduct a b = true →
    ∃ c', (multiply host a b).run.run c =
        .ok (.ok ⟨a.rows, b.cols, Builtin.multiplyColumns a.data b.data a.rows b.cols a.cols⟩, c') ∧
      c'.dispatches = (0, 1)
  exact : a.cols = b.rows → 0 < a.cols → ∀ A B : Array ℚ,
    Builtin.multiplyColumns A B a.rows b.cols a.cols = exactProduct A B a.rows a.cols b.cols ∧
      ∀ d, host.mul A B a.rows a.cols b.rows b.cols = .ok d → d = Builtin.multiplyColumns A B a.rows b.cols a.cols

section Contract

variable {host : HostAlgebra} {a b : Matrix}

theorem multiply_mismatch (hne : a.cols ≠ b.rows) (c : Context) :
    ∃ msg, (multiply host a b).run.run c = .ok (.error (.shapeMismatch "multiply" msg), c) :=
  ⟨_, multiply_run_of_check (if_neg hne) c⟩

theorem multiply_empty (h : a.cols = b.rows) (hz : a.rows = 0 ∨ a.cols = 0 ∨ b.cols = 0)
    (hres : Word.reserve (a.rows * b.cols) = .ok ()) (c : Context) :
    (multiply host a b).run.run c = .ok (.ok (Matrix.zeros a.rows b.cols), c) := by
  rw [multiply_run_empty h ((isEmpty_or_iff h).mpr hz) c, hostZeros_of_reserve hres]
  rfl

theorem multiply_empty_panics (h : a.cols = b.rows) (hz : a.rows = 0 ∨ a.cols = 0 ∨ b.cols = 0)
    (hres : Word.reserve (a.rows * b.cols) ≠ .ok ()) (c : Context) :
    ∃ p, (multiply host a b).run.run c = .error p := by
  obtain ⟨p, hp⟩ := hostZeros_panic hres
  refine ⟨p, ?_⟩
  rw [multiply_run_empty h ((isEmpty_or_iff h).mpr hz) c, hp]
  rfl

variable {c : Context}

theorem nonempty_of_pos (h : a.cols = b.rows) (hr : 0 < a.rows) (hk : 0 < a.cols) (hn : 0 < b.cols) :
    ¬ (a.isEmpty || b.isEmpty) = true := by
  rw [isEmpty_or_iff h]
  omega

/-- On a fresh context a product of operands that fit is never answered with a shape mismatch
    and the context as it was. -/
theorem Fresh.multiply_ne_mismatch (hc : c.Fresh) (h : a.cols = b.rows) (msg : String) :
    (multiply host a b).run.run c ≠ .ok (.error (.shapeMismatch "multiply" msg), c) := by
  intro hrun
  by_cases he : (a.isEmpty || b.isEmpty) = true
  · rw [multiply_run_empty h he] at hrun
    cases hz : Matrix.hostZeros a.rows b.cols with
    | error p => rw [hz] at hrun; cases hrun
    | ok z => rw [hz] at hrun; cases hrun
  · rw [multiply_run_decided h he] at hrun
    split at hrun
    · -- the device path keeps the dispatch counted before it, so the context has changed
      have hd := keepsDispatches_productOnDevice a b _ _ _ hrun
      rw [hc.dispatches_recorded true, hc.noDispatches, if_pos rfl] at hd
      exact absurd hd (by decide)
    · -- the host path answers a matrix or panics
      rw [HostAlgebra.product_eq] at hrun
      cases hm : host.mul a.data b.data a.rows a.cols b.rows b.cols with
      | error p => rw [hm] at hrun; cases hrun
      | ok d => rw [hm] at hrun; cases hrun

theorem Fresh.multiply_onHost (hh : host.Lawful) (hc : c.Fresh) (h : a.cols = b.rows) (hr : 0 < a.rows)
    (hk : 0 < a.cols) (hn : 0 < b.cols) (hoff : c.offloadsProduct a b = false)
    (hres : Word.reserve (a.rows * b.cols) = .ok ()) :
    ∃ d c', host.mul a.data b.data a.rows a.cols b.rows b.cols = .ok d ∧
      (multiply host a b).run.run c = .ok (.ok ⟨a.rows, b.cols, d⟩, c') ∧ c'.dispatches = (1, 0) := by
  -- a lawful library answers a product whose result can be reserved
  obtain ⟨d, hd⟩ := (hh.mul_ok_iff a.data b.data a.rows a.cols b.rows b.cols).mpr hres
  exact ⟨d, _, hd, multiply_run_onHost h (nonempty_of_pos h hr hk hn) hoff hd, hc.dispatches_recorded false⟩

theorem Fresh.multiply_onDevice (hc : c.Fresh) (ha : a.Stored) (hb : b.Stored) (h : a.cols = b.rows)
    (hr : 0 < a.rows) (hk0 : 0 < a.cols) (hn : 0 < b.cols)
    (hr32 : a.rows ≤ int32Max) (hk32 : a.cols ≤ int32Max) (hn32 : b.cols ≤ int32Max)
    (hres : Word.reserve (a.rows * b.cols) = .ok ()) (hoff : c.offloadsProduct a b = true) :
    ∃ c', (multiply host a b).run.run c =
        .ok (.ok ⟨a.rows, b.cols, Builtin.multiplyColumns a.data b.data a.rows b.cols a.cols⟩, c') ∧
      c'.dispatches = (0, 1) := by
  -- the decision changes only the counters
  have hc₀ : ({ c with metrics := c.metrics.recordDispatch true } : Context).Clean := hc.clean.of_events rfl
  obtain ⟨c', hrun, hd⟩ :=
    productOnDevice_run hc₀ hc.sound (hc.wellKept.of_eq rfl rfl) ha hb h hr hk0 hn hr32 hk32 hn32 hres
  refine ⟨c', ?_, ?_⟩
  · rw [multiply_run_decided h (nonempty_of_pos h hr hk0 hn), if_pos hoff, hrun]
  · rw [hd, hc.dispatches_recorded true]
    rfl

/-- The contract holds on every fresh context, for every pair of stored matrices and every lawful
    host library. -/
theorem Fresh.productContract (hh : host.Lawful) (hc : c.Fresh) (ha : a.Stored) (hb : b.Stored) :
    c.ProductContract host a b where
  mismatch := by
    constructor
    · rintro ⟨msg, hrun⟩ h
      exact hc.multiply_ne_mismatch h msg hrun
    · intro hne
      exact multiply_mismatch hne c
  empty h hz hres := multiply_empty h hz hres c
  emptyPanics h hz hres := multiply_empty_panics h hz hres c
  onHost := hc.multiply_onHost hh
  hostPanics h hr hk hn hoff hres := multiply_hostPanics hh h (nonempty_of_pos h hr hk hn) hoff hres
  onDevice := hc.multiply_onDevice ha hb
  exact h hk A B := by
    refine ⟨multiplyColumns_exact A B a.rows b.cols a.cols, fun d hd => ?_⟩
    -- both the library's answer and the kernel's columns are the matrix product
    rw [← h] at hd
    rw [hh.mul_exact A B a.rows a.cols b.cols d hk hd, multiplyColumns_exact]

end Contract

/-- On every context a configuration makes, whatever thresholds it is given, a product of two
    stored matrices keeps the contract with every lawful host library. -/
theorem product_contract_of_create {host : HostAlgebra} (hh : host.Lawful) {cfg : Config} {processors : Nat}
    {ctx : Context} (hctx : Context.create cfg processors = .ok (.ok ctx))
    (hvals : ∀ kv ∈ cfg.baseOptions.entries, kv.2 < Int.pow 2 63) (t : Tuning) {a b : Matrix}
    (ha : a.Stored) (hb : b.Stored) : (ctx.setTuning t).ProductContract host a b :=
  ((fresh_of_create hctx hvals).setTuning t).productContract hh ha hb

/-- The default configuration on two processors, its own thresholds, the blocked host algebra and
    two stored `2 × 2` matrices. -/
theorem default_product_contract : ∃ ctx, Context.create {} 2 = .ok (.ok ctx) ∧
    (∀ kv ∈ ({} : Config).baseOptions.entries, kv.2 < Int.pow 2 63) ∧ HostAlgebra.blocked.Lawful ∧
    Matrix.Stored ⟨2, 2, #[1, 2, 3, 4]⟩ ∧ Matrix.Stored ⟨2, 2, #[5, 6, 7, 8]⟩ ∧
    (ctx.setTuning Tuning.defaults).ProductContract HostAlgebra.blocked ⟨2, 2, #[1, 2, 3, 4]⟩ ⟨2, 2, #[5, 6, 7, 8]⟩ := by
  obtain ⟨ctx, hctx⟩ := create_ok_of_isSome (by decide +kernel : ((Context.create {} 2).toOption.bind
    Except.toOption).isSome = true)
  have hvals : ∀ kv ∈ ({} : Config).baseOptions.entries, kv.2 < Int.pow 2 63 := by decide +kernel
  have ha : Matrix.Stored ⟨2, 2, #[1, 2, 3, 4]⟩ := ⟨rfl, rfl⟩
  have hb : Matrix.Stored ⟨2, 2, #[5, 6, 7, 8]⟩ := ⟨rfl, rfl⟩
  exact ⟨ctx, hctx, hvals, HostAlgebra.blocked_lawful, ha, hb,
    product_contract_of_create HostAlgebra.blocked_lawful hctx hvals Tuning.defaults ha hb⟩

/-- An empty product is not always the zero matrix: `2^60` rows of no columns times a row of one
    column would be a zero matrix of `2^63` bytes, and allocating it panics. -/
theorem empty_product_beyond_reserve_panics : ∃ ctx p, Context.create {} 2 = .ok (.ok ctx) ∧
    (multiply HostAlgebra.blocked ⟨1152921504606846976, 0, #[]⟩ ⟨0, 1, #[]⟩).run.run ctx = .error p := by
  obtain ⟨ctx, hctx⟩ := create_ok_of_isSome (by decide +kernel : ((Context.create {} 2).toOption.bind
    Except.toOption).isSome = true)
  have hres : Word.reserve (1152921504606846976 * 1) ≠ .ok () := by decide
  obtain ⟨p, hp⟩ := @multiply_empty_panics HostAlgebra.blocked ⟨1152921504606846976, 0, #[]⟩ ⟨0, 1, #[]⟩ rfl
    (Or.inr (Or.inl rfl)) hres ctx
  exact ⟨ctx, p, hctx, hp⟩

end Context

end OffloadAlgebra
