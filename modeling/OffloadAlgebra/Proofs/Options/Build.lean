import Mathlib.Data.Nat.Sqrt
import OffloadAlgebra.Proofs.Options.Map
import OffloadAlgebra.Proofs.Options.SquareRoot
import OffloadAlgebra.Proofs.Session.Sequential
/-!
  The options a kernel is built with.

  A context made from a configuration keeps the configuration's base options fitted to the
  square root of its work-group limit (`create_eq_ok`): when the configured thread block is
  wider than that root (capped at the largest 32-bit integer), it becomes the root and
  `WORK_PER_THREAD` becomes 1, and nothing else changes.  A kernel is built with the requested
  options merged into the base options (`compile_run`), and a merge never raises a base value.
  So when the base options bind `THREAD_BLOCK_SIZE`, every kernel built on them has a thread
  block within the root, and a square work group of that side fits the limit
  (`Config.block_fits_of_merge`).  The kernel table carries this along every run of the context.
-/

namespace OffloadAlgebra

/-! ## Making a context -/

/-- The machine-word square root, when it does not panic, is the floor of the square root. -/
theorem isqrtWord_eq_ok {n r : Nat} (h : isqrtWord n = .ok r) : r = Nat.sqrt n := by
  rw [isqrtWord_eq] at h
  split at h
  · cases h
    rfl
  · cases h

/-- The side of the largest square work group, when it does not panic. -/
theorem blockSide_eq_ok {n s : Nat} (h : blockSide n = .ok s) : s = min (Nat.sqrt n) int32Max := by
  unfold blockSide at h
  cases hr : isqrtWord n with
  | error p => simp [hr] at h
  | ok r =>
    simp only [hr] at h
    cases h
    rw [isqrtWord_eq_ok hr]

/-- A configuration that passes its checks has a positive work-group limit and no invalid base
    option. -/
theorem validate_eq_ok {cfg : Config} (h : cfg.validate = .ok ()) :
    0 < cfg.maxWorkGroupSize ∧ cfg.baseOptions.firstInvalid? = none := by
  unfold Config.validate at h
  -- a failed check answers its error: only the path through every check answers `ok`
  repeat' split at h
  all_goals first
    | exact ⟨Nat.pos_of_ne_zero ‹_›, ‹_›⟩
    | cases h

/-- The base options fitted to a work-group limit, when fitting does not panic. -/
theorem fitThreadBlock_eq_ok {opts opts' : OptionMap} {limit : Nat} (h : fitThreadBlock opts limit = .ok opts') :
    opts' = fitThreadBlockTo opts (min (Nat.sqrt limit) int32Max) := by
  obtain ⟨s, hs, h⟩ := Except.bind_eq_ok h
  cases h
  rw [blockSide_eq_ok hs]

/-- A context made from a configuration: the configuration passed its checks, and the context
    starts with no kernel, matrix or event, with the configuration's work-group limit and
    thresholds, and with its base options fitted to the side of the largest square work group. -/
theorem create_eq_ok {cfg : Config} {processors : Nat} {ctx : Context}
    (h : Context.create cfg processors = .ok (.ok ctx)) :
    cfg.validate = .ok () ∧
      ctx = { info := ⟨"host (" ++ toString (cfg.workerThreads processors) ++ " queue threads)",
                cfg.maxWorkGroupSize, cfg.workerThreads processors⟩,
              baseOptions := fitThreadBlockTo cfg.baseOptions (min (Nat.sqrt cfg.maxWorkGroupSize) int32Max),
              tuning := cfg.tuning } := by
  unfold Context.create at h
  split at h
  · cases h
  · rename_i hv
    obtain ⟨_, -, h⟩ := Except.bind_eq_ok h
    obtain ⟨opts, hopts, h⟩ := Except.bind_eq_ok h
    cases h
    exact ⟨hv, by rw [fitThreadBlock_eq_ok hopts]⟩

/-! ## Building a kernel -/

/-- A build merges the requested options into the base options and runs the front end with them
    as flags; a successful build counts one compiled kernel and changes nothing else. -/
theorem compile_run (spec : KernelSpec) (c : Context) :
    (Context.compile spec).run.run c =
      match buildProgram spec.name spec.text (c.baseOptions.merge spec.requested).render spec.host with
      | .error e => .ok (.error e, c)
      | .ok p => .ok (.ok ⟨spec.name, c.baseOptions.merge spec.requested, p⟩,
          { c with metrics := c.metrics.recordKernelCompiled }) := by
  cases hb : buildProgram spec.name spec.text (c.baseOptions.merge spec.requested).render spec.host <;>
    simp [Context.compile, ExceptT.run_bind, StateT.run_bind, hb]

/-- A kernel is built with the requested options merged into the base options. -/
theorem options_of_compile {spec : KernelSpec} {c c' : Context} {k : CompiledKernel}
    (h : (Context.compile spec).run.run c = .ok (.ok k, c')) : k.options = c.baseOptions.merge spec.requested := by
  rw [compile_run] at h
  split at h
  · cases h
  · cases h
    rfl

/-- A square block whose side is a thread block within the square root of a positive limit, and
    at least 1, fits the limit. -/
theorem block_mul_self_le {t : Int} {limit : Nat} (hpos : 0 < limit) (ht : t ≤ Nat.sqrt limit) :
    max 1 t.toNat * max 1 t.toNat ≤ limit := by
  have hs : max 1 t.toNat ≤ max 1 (Nat.sqrt limit) := by omega
  have hroot : max 1 (Nat.sqrt limit) * max 1 (Nat.sqrt limit) ≤ limit := by
    rcases Nat.eq_zero_or_pos (Nat.sqrt limit) with h0 | hp
    · rw [h0]
      exact hpos
    · rw [Nat.max_eq_right hp]
      exact Nat.sqrt_le limit
  exact Nat.le_trans (Nat.mul_le_mul hs hs) hroot

/-- The side a context made from `cfg` fits its thread block to: the floor of the square root
    of the work-group limit, capped at the largest 32-bit integer. -/
def Config.fittedSide (cfg : Config) : Nat := min (Nat.sqrt cfg.maxWorkGroupSize) int32Max

/-- A thread block that a merge into the fitted base options gives stays within the square root
    of the work-group limit when the configuration binds one, and its square work group (of side
    at least 1) fits the limit. -/
theorem Config.block_fits_of_merge {cfg : Config} (hpos : 0 < cfg.maxWorkGroupSize)
    (hbound : (cfg.baseOptions.get? "THREAD_BLOCK_SIZE").isSome) (req : OptionMap) {t : Int}
    (ht : ((fitThreadBlockTo cfg.baseOptions cfg.fittedSide).merge req).get? "THREAD_BLOCK_SIZE" = some t) :
    t ≤ Nat.sqrt cfg.maxWorkGroupSize ∧ max 1 t.toNat * max 1 t.toNat ≤ cfg.maxWorkGroupSize := by
  -- the fitted base binds the thread block within the side, and a merge only lowers it
  obtain ⟨b, hb⟩ := Option.isSome_iff_exists.mp
    (by rwa [isSome_get?_fitThreadBlockTo] : ((fitThreadBlockTo cfg.baseOptions cfg.fittedSide).get?
      "THREAD_BLOCK_SIZE").isSome)
  have hbside := get?_fitThreadBlockTo_le hb
  obtain ⟨t', ht', hle⟩ := OptionMap.get?_merge_le req hb
  rw [ht] at ht'
  cases ht'
  have hroot : t ≤ Nat.sqrt cfg.maxWorkGroupSize := by
    unfold Config.fittedSide at hbside
    omega
  exact ⟨hroot, block_mul_self_le hpos hroot⟩

end OffloadAlgebra
