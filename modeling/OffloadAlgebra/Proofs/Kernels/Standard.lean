import Mathlib
import OffloadAlgebra.Proofs.Options.Flags
import OffloadAlgebra.Kernel.Standard
/-!
  The standard kernels build on every context made from a configuration.

  A kernel is `Buildable` when its text scans without a complaint and defines it, a host
  implementation is bound, and the options it requests are sound (macro names with values that
  are signed 64-bit integers).  Built on a context whose base options are sound too, it builds
  with the merged options and counts one compiled kernel (`compile_buildable`).

  The three standard kernels are buildable.  Their texts are checked by running the scanner on
  their bytes, the text cut at its fragments so that the bytes of each literal are read once
  (`bytes_append`).  A context made from a configuration whose base values are signed 64-bit
  integers has sound base options (`sound_of_create`): the configuration's checks admit only
  macro names and values of at least 0, and fitting the thread block puts in a side of at most
  the largest 32-bit integer and a `WORK_PER_THREAD` of 1.
-/

namespace OffloadAlgebra

/-! ## Kernels that build -/

/-- A kernel that builds on every context with sound base options. -/
structure KernelSpec.Buildable (spec : KernelSpec) : Prop where
  clean : (Source.scan spec.text).complaints = []
  defines : spec.name ∈ Source.kernelNames (Source.scan spec.text).tokens
  bound : spec.host.isSome
  requested : spec.requested.Sound

/-- What a kernel bound to the host implementation `f` builds into on base options `base`: the
    merged options, and the kernels its text defines. -/
def KernelSpec.builtOn (spec : KernelSpec) (f : HostFn) (base : OptionMap) : CompiledKernel :=
  ⟨spec.name, base.merge spec.requested, ⟨Source.kernelNames (Source.scan spec.text).tokens, f.addr⟩⟩

section Build

variable {spec : KernelSpec} {f : HostFn} {c : Context}

/-- A buildable kernel builds on a context with sound base options; the build counts one
    compiled kernel and changes nothing else. -/
theorem compile_buildable (hs : spec.Buildable) (hf : spec.host = some f) (hb : c.baseOptions.Sound) :
    (Context.compile spec).run.run c =
      .ok (.ok (spec.builtOn f c.baseOptions), { c with metrics := c.metrics.recordKernelCompiled }) := by
  rw [compile_run, hf, buildProgram_of_wellFormed hs.clean hs.defines,
    if_pos (OptionMap.flagLog_render_of_sound (hb.merge hs.requested))]
  rfl

/-- The first use of a buildable kernel on a context builds it and keeps it in the table. -/
theorem kernel_run_new (hs : spec.Buildable) (hf : spec.host = some f) (hb : c.baseOptions.Sound)
    (hk : c.kernels.lookup (Context.keyOf spec) = none) :
    (Context.kernel spec).run.run c =
      .ok (.ok (spec.builtOn f c.baseOptions),
        { c with kernels := c.kernels ++ [(Context.keyOf spec, spec.builtOn f c.baseOptions)],
                 metrics := c.metrics.recordKernelCompiled }) := by
  simp [Context.kernel, ExceptT.run_bind, StateT.run_bind, hk, compile_buildable hs hf hb]

/-- A kernel kept in the table is used as it is. -/
theorem kernel_run_kept {k : CompiledKernel} (hk : c.kernels.lookup (Context.keyOf spec) = some k) :
    (Context.kernel spec).run.run c = .ok (.ok k, c) := by
  simp [Context.kernel, ExceptT.run_bind, StateT.run_bind, hk]

end Build

/-! ## Kernel tables -/

/-- Two kernels under one key build the same on the same base options: the key holds the name,
    the text, the address of the host implementation and the requested options. -/
theorem KernelSpec.builtOn_eq_of_keyOf {spec spec' : KernelSpec} {f f' : HostFn}
    (h : Context.keyOf spec = Context.keyOf spec') (hf : spec.host = some f) (hf' : spec'.host = some f')
    (base : OptionMap) : spec.builtOn f base = spec'.builtOn f' base := by
  simp only [Context.keyOf, Prod.mk.injEq] at h
  obtain ⟨hn, ht, hh, hr⟩ := h
  rw [hf, hf', Option.map_some, Option.map_some] at hh
  have hff : f.addr = f'.addr := Option.some.inj hh
  have hreq : spec.requested = spec'.requested := OptionMap.eq_of_entries_eq hr
  unfold KernelSpec.builtOn
  rw [hn, ht, hff, hreq]

namespace Context

/-- Every kernel the table keeps is what its key's kernel builds on the context's base options. -/
def WellKept (c : Context) : Prop :=
  ∀ spec f, spec.host = some f → ∀ k, c.kernels.lookup (keyOf spec) = some k → k = spec.builtOn f c.baseOptions

/-- The context after the kernel of `spec`, bound to `f`, is asked for: as it was when the table
    keeps the kernel, and with the kernel built and kept otherwise. -/
def withKernel (c : Context) (spec : KernelSpec) (f : HostFn) : Context :=
  if (c.kernels.lookup (keyOf spec)).isSome then c
  else { c with kernels := c.kernels ++ [(keyOf spec, spec.builtOn f c.baseOptions)],
                metrics := c.metrics.recordKernelCompiled }

section Table

variable {spec : KernelSpec} {f : HostFn} {c : Context}

theorem wellKept_of_kernels_nil (h : c.kernels = []) : c.WellKept := by
  intro spec f _ k hk
  rw [h] at hk
  cases hk

theorem WellKept.of_eq (hw : c.WellKept) {c' : Context} (hk : c'.kernels = c.kernels)
    (hb : c'.baseOptions = c.baseOptions) : c'.WellKept := by
  intro spec f hf k hlk
  rw [hb]
  exact hw spec f hf k (hk ▸ hlk)

@[simp] theorem matrices_withKernel : (c.withKernel spec f).matrices = c.matrices := by
  unfold withKernel
  split <;> rfl

@[simp] theorem events_withKernel : (c.withKernel spec f).events = c.events := by
  unfold withKernel
  split <;> rfl

@[simp] theorem baseOptions_withKernel : (c.withKernel spec f).baseOptions = c.baseOptions := by
  unfold withKernel
  split <;> rfl

@[simp] theorem tuning_withKernel : (c.withKernel spec f).tuning = c.tuning := by
  unfold withKernel
  split <;> rfl

/-- After the kernel is asked for, the table keeps it as built on the base options. -/
theorem lookup_withKernel (hw : c.WellKept) (hf : spec.host = some f) :
    (c.withKernel spec f).kernels.lookup (keyOf spec) = some (spec.builtOn f c.baseOptions) := by
  unfold withKernel
  split
  · rename_i hsome
    obtain ⟨k, hk⟩ := Option.isSome_iff_exists.mp hsome
    rw [hk, hw spec f hf k hk]
  · rename_i hnone
    rw [List.lookup_append, Option.not_isSome_iff_eq_none.mp hnone]
    simp

/-- Building a kernel keeps every kernel of the table as its key builds it. -/
theorem WellKept.withKernel (hw : c.WellKept) (hf : spec.host = some f) : (c.withKernel spec f).WellKept := by
  unfold Context.withKernel
  split
  · exact hw
  · intro spec' f' hf' k hk
    show k = spec'.builtOn f' c.baseOptions
    rw [List.lookup_append] at hk
    cases h₁ : c.kernels.lookup (keyOf spec') with
    | some k₁ =>
      rw [h₁] at hk
      cases hk
      exact hw spec' f' hf' k h₁
    | none =>
      -- the key is the new kernel's
      rw [h₁, Option.none_or] at hk
      by_cases hkey : keyOf spec' = keyOf spec
      · simp only [List.lookup, hkey, beq_self_eq_true, Option.some.injEq] at hk
        rw [← hk]
        exact KernelSpec.builtOn_eq_of_keyOf hkey.symm hf hf' _
      · simp only [List.lookup, beq_eq_false_iff_ne.mpr hkey] at hk
        cases hk

/-- On a well-kept table a buildable kernel always answers what it builds on the base options. -/
theorem kernel_run_wellKept (hs : spec.Buildable) (hf : spec.host = some f) (hb : c.baseOptions.Sound)
    (hw : c.WellKept) : (kernel spec).run.run c = .ok (.ok (spec.builtOn f c.baseOptions), c.withKernel spec f) := by
  cases hk : c.kernels.lookup (keyOf spec) with
  | none =>
    rw [kernel_run_new hs hf hb hk]
    unfold withKernel
    rw [hk]
    rfl
  | some k =>
    rw [kernel_run_kept hk, hw spec f hf k hk]
    unfold withKernel
    rw [hk]
    rfl

end Table

end Context

/-! ## The texts of the standard kernels -/

namespace Source

/-- The bytes of a joined text are the bytes of its parts. -/
theorem bytes_append (s t : String) :
    (s ++ t).toUTF8.data.toList = s.toUTF8.data.toList ++ t.toUTF8.data.toList := by
  rw [String.toUTF8_eq_toByteArray, String.toUTF8_eq_toByteArray, String.toUTF8_eq_toByteArray,
    String.toByteArray_append, ByteArray.data_append, Array.toList_append]

/-- The scan of a text, as the scanner's state after its bytes. -/
theorem scan_eq (s : String) :
    scan s = let st := scanFrom s.toUTF8.data.toList {}
      ⟨st.tokens.reverse, st.complaints.reverse ++ st.opened.reverse.map .neverClosed⟩ := by
  rw [scan, byteArray_toList]

/-- A text that leaves the scanner no complaint and nothing open, with a kernel keyword before
    `name`, is clean and defines `name`. -/
theorem wellFormed_of_scanFrom {s name : String} (h : (scanFrom s.toUTF8.data.toList {}).complaints = [] ∧
    (scanFrom s.toUTF8.data.toList {}).opened = [] ∧
    name ∈ kernelNames (scanFrom s.toUTF8.data.toList {}).tokens.reverse) :
    (scan s).complaints = [] ∧ name ∈ kernelNames (scan s).tokens := by
  obtain ⟨hc, ho, hn⟩ := h
  rw [scan_eq]
  exact ⟨by simp only [hc, ho, List.reverse_nil, List.map_nil, List.append_nil], hn⟩

end Source

namespace Standard

open Source

theorem matrixMultiply_text_wellFormed :
    (scan matrixMultiply.text).complaints = [] ∧ matrixMultiply.name ∈ kernelNames (scan matrixMultiply.text).tokens := by
  refine wellFormed_of_scanFrom ?_
  unfold KernelSpec.text matrixMultiply doublePragma multiplySource
  rw [String.join_cons, String.join_cons, String.join_nil]
  repeat rw [bytes_append]
  decide +kernel

theorem transpose_text_wellFormed :
    (scan transpose.text).complaints = [] ∧ transpose.name ∈ kernelNames (scan transpose.text).tokens := by
  refine wellFormed_of_scanFrom ?_
  unfold KernelSpec.text transpose doublePragma transposeSource
  rw [String.join_cons, String.join_cons, String.join_nil]
  repeat rw [bytes_append]
  decide +kernel

theorem lowerTriInverse_text_wellFormed :
    (scan lowerTriInverse.text).complaints = [] ∧
      lowerTriInverse.name ∈ kernelNames (scan lowerTriInverse.text).tokens := by
  refine wellFormed_of_scanFrom ?_
  unfold KernelSpec.text lowerTriInverse doublePragma lowerTriInverseSource
  rw [String.join_cons, String.join_cons, String.join_nil]
  repeat rw [bytes_append]
  decide +kernel

/-- The product kernel requests a thread block of 32. -/
theorem matrixMultiply_requested_sound : matrixMultiply.requested.Sound := by
  intro kv hkv
  have hkv : kv = ("THREAD_BLOCK_SIZE", 32) := by simpa [matrixMultiply, KernelSpec.requested,
    OptionMap.ofList, OptionMap.insert, OptionMap.insertEntry, OptionMap.empty] using hkv
  subst hkv
  exact ⟨by decide, by decide, by decide⟩

theorem matrixMultiply_buildable : matrixMultiply.Buildable :=
  ⟨matrixMultiply_text_wellFormed.1, matrixMultiply_text_wellFormed.2, rfl, matrixMultiply_requested_sound⟩

theorem transpose_buildable : transpose.Buildable :=
  ⟨transpose_text_wellFormed.1, transpose_text_wellFormed.2, rfl, fun _ h => nomatch h⟩

theorem lowerTriInverse_buildable : lowerTriInverse.Buildable :=
  ⟨lowerTriInverse_text_wellFormed.1, lowerTriInverse_text_wellFormed.2, rfl, fun _ h => nomatch h⟩

end Standard

/-! ## Contexts made from a configuration -/

/-- Fitting the thread block keeps options sound: it puts in a side within the 32-bit integers
    and a `WORK_PER_THREAD` of 1. -/
theorem OptionMap.Sound.fitThreadBlockTo {opts : OptionMap} (h : opts.Sound) {side : Nat}
    (hside : side ≤ int32Max) : (fitThreadBlockTo opts side).Sound := by
  unfold OffloadAlgebra.fitThreadBlockTo
  split
  · split
    · intro kv hkv
      rcases OptionMap.mem_insertEntry hkv with rfl | hkv
      · exact ⟨by decide, by decide, by decide⟩
      rcases OptionMap.mem_insertEntry hkv with rfl | hkv
      · have hs : side ≤ 2147483647 := hside
        have h63 : Int.pow 2 63 = 9223372036854775808 := rfl
        refine ⟨(by decide : Text.isMacroName "THREAD_BLOCK_SIZE" = true), ?_, ?_⟩ <;>
        · dsimp only
          omega
      · exact h kv hkv
    · exact h
  · exact h

/-- A context made from a configuration whose base values are signed 64-bit integers has sound
    base options. -/
theorem sound_of_create {cfg : Config} {processors : Nat} {ctx : Context}
    (hctx : Context.create cfg processors = .ok (.ok ctx))
    (hvals : ∀ kv ∈ cfg.baseOptions.entries, kv.2 < Int.pow 2 63) : ctx.baseOptions.Sound := by
  obtain ⟨hv, rfl⟩ := create_eq_ok hctx
  -- the checks admit only macro names with values of at least 0
  have hbase : cfg.baseOptions.Sound := fun kv hkv => by
    obtain ⟨hname, hnonneg⟩ := OptionMap.entries_of_firstInvalid?_eq_none (validate_eq_ok hv).2 kv hkv
    exact ⟨hname, Int.le_trans (by decide) hnonneg, hvals kv hkv⟩
  exact hbase.fitThreadBlockTo (Nat.min_le_right _ _)

end OffloadAlgebra
