import OffloadAlgebra.Proofs.Kernels.Standard
/-!
  The kernel table of a context.

  A context keeps each kernel it built under its key: the kernel's name, its whole source text,
  the host implementation bound to it and the options it requests.  Asking for a kernel is one
  section under the table's lock, and it ends in one of three ways (`kernel_run_cases`): the
  kernel kept under the key, with nothing changed; a kernel not kept yet, built once and kept
  under its key because the build succeeded; or a build that failed, with nothing kept.  Threads
  that ask at the same time take the lock in turn, so a run of the context is a sequence of such
  sections with other steps between them, and those other steps leave the table and the base
  options alone (`KernelRun`).

  Along every run from an empty table the table stays sound (`TableSound`): no key is kept twice,
  and under each key is what a kernel with that key builds into on the base options, named as
  the kernel and built with its requested options merged into the base ones.  The keys kept are
  the keys asked for whose build succeeds (`KernelRun.keySet`), so the number of kernels kept is
  the number of such distinct keys; two kernels that differ only in their text or their host
  implementation have two keys, and two entries.

  So the thread block of a context made from a configuration stays fitted along every run: the
  base options never change, and every kernel the table answers was built on them
  (`built_block_fits`).  A configuration whose base options leave `THREAD_BLOCK_SIZE` out bounds
  nothing: a kernel gets the thread block it requests (`unbounded_requested_block`).
-/

namespace OffloadAlgebra

/-- What a kernel builds into on base options `base`: its text built with the requested options
    merged into `base` as flags, named as the kernel and carrying the merged options. -/
def KernelSpec.build (spec : KernelSpec) (base : OptionMap) : Except Error CompiledKernel :=
  (buildProgram spec.name spec.text (base.merge spec.requested).render spec.host).map
    fun p => ⟨spec.name, base.merge spec.requested, p⟩

/-- A build sees the host implementation only through its address. -/
theorem buildProgram_congr_host {kernel source flags : String} {host host' : Option HostFn}
    (h : host.map (·.addr) = host'.map (·.addr)) :
    buildProgram kernel source flags host = buildProgram kernel source flags host' := by
  cases host with
  | none =>
    cases host' with
    | none => rfl
    | some f' => cases h
  | some f =>
    cases host' with
    | none => cases h
    | some f' =>
      have ha : f.addr = f'.addr := Option.some.inj h
      simp only [buildProgram, ha]

namespace KernelSpec

variable {spec spec' : KernelSpec} {base : OptionMap} {k : CompiledKernel}

/-- A built kernel is named as the kernel and carries the requested options merged into the
    base ones. -/
theorem name_options_of_build (h : spec.build base = .ok k) :
    k.name = spec.name ∧ k.options = base.merge spec.requested := by
  unfold build at h
  cases hb : buildProgram spec.name spec.text (base.merge spec.requested).render spec.host with
  | error e =>
    rw [hb, Except.map_error] at h
    cases h
  | ok p =>
    rw [hb, Except.map_ok] at h
    cases h
    exact ⟨rfl, rfl⟩

/-- A build depends on the kernel only through its key. -/
theorem build_eq_of_keyOf (h : Context.keyOf spec = Context.keyOf spec') (base : OptionMap) :
    spec.build base = spec'.build base := by
  simp only [Context.keyOf, Prod.mk.injEq] at h
  obtain ⟨hn, ht, hh, hr⟩ := h
  have hreq : spec.requested = spec'.requested := OptionMap.eq_of_entries_eq hr
  unfold build
  rw [hn, ht, hreq, buildProgram_congr_host hh]

/-- A buildable kernel bound to `f` builds, on sound base options, into what `builtOn` names. -/
theorem build_of_buildable {f : HostFn} (hs : spec.Buildable) (hf : spec.host = some f) (hb : base.Sound) :
    spec.build base = .ok (spec.builtOn f base) := by
  unfold build
  rw [hf, buildProgram_of_wellFormed hs.clean hs.defines,
    if_pos (OptionMap.flagLog_render_of_sound (hb.merge hs.requested))]
  rfl

end KernelSpec

namespace Context

/-- The context with kernel `k` kept under the key of `spec`, one more kernel counted as
    compiled. -/
def keepKernel (c : Context) (spec : KernelSpec) (k : CompiledKernel) : Context :=
  { c with kernels := c.kernels ++ [(keyOf spec, k)], metrics := c.metrics.recordKernelCompiled }

/-- The keys the table keeps. -/
def keySet (c : Context) : Finset KernelKey := (c.kernels.map Prod.fst).toFinset

/-! ## One section -/

section Section

variable {spec : KernelSpec} {c : Context} {k : CompiledKernel} {e : Error}

theorem compile_run_of_build_ok (hb : spec.build c.baseOptions = .ok k) :
    (compile spec).run.run c = .ok (.ok k, { c with metrics := c.metrics.recordKernelCompiled }) := by
  unfold KernelSpec.build at hb
  rw [compile_run]
  cases hp : buildProgram spec.name spec.text (c.baseOptions.merge spec.requested).render spec.host with
  | error e =>
    rw [hp, Except.map_error] at hb
    cases hb
  | ok p =>
    rw [hp, Except.map_ok] at hb
    cases hb
    rfl

theorem compile_run_of_build_error (hb : spec.build c.baseOptions = .error e) :
    (compile spec).run.run c = .ok (.error e, c) := by
  unfold KernelSpec.build at hb
  rw [compile_run]
  cases hp : buildProgram spec.name spec.text (c.baseOptions.merge spec.requested).render spec.host with
  | error e' =>
    rw [hp, Except.map_error] at hb
    cases hb
    rfl
  | ok p =>
    rw [hp, Except.map_ok] at hb
    cases hb

/-- A kernel the table does not keep is built once; when the build succeeds the kernel is kept
    under its key and counted. -/
theorem kernel_run_built (hk : c.kernels.lookup (keyOf spec) = none) (hb : spec.build c.baseOptions = .ok k) :
    (kernel spec).run.run c = .ok (.ok k, c.keepKernel spec k) := by
  simp [kernel, ExceptT.run_bind, StateT.run_bind, hk, compile_run_of_build_ok hb, keepKernel]

/-- A failed build is not kept: the context is as it was. -/
theorem kernel_run_refused (hk : c.kernels.lookup (keyOf spec) = none) (hb : spec.build c.baseOptions = .error e) :
    (kernel spec).run.run c = .ok (.error e, c) := by
  simp [kernel, ExceptT.run_bind, StateT.run_bind, hk, compile_run_of_build_error hb]

/-- Asking the table for a kernel never panics, and ends in one of three ways: the kernel kept
    under its key, with the context unchanged; a kernel not kept, built and kept; or a kernel not
    kept whose build fails, with the context unchanged. -/
theorem kernel_run_cases (spec : KernelSpec) (c : Context) :
    ∃ r c', (kernel spec).run.run c = .ok (r, c') ∧
      ((∃ k, c.kernels.lookup (keyOf spec) = some k ∧ r = .ok k ∧ c' = c) ∨
        (c.kernels.lookup (keyOf spec) = none ∧
          ∃ k, spec.build c.baseOptions = .ok k ∧ r = .ok k ∧ c' = c.keepKernel spec k) ∨
        (c.kernels.lookup (keyOf spec) = none ∧
          ∃ e, spec.build c.baseOptions = .error e ∧ r = .error e ∧ c' = c)) := by
  cases hk : c.kernels.lookup (keyOf spec) with
  | some k => exact ⟨_, _, kernel_run_kept hk, .inl ⟨k, rfl, rfl, rfl⟩⟩
  | none =>
    cases hb : spec.build c.baseOptions with
    | ok k => exact ⟨_, _, kernel_run_built hk hb, .inr (.inl ⟨rfl, k, rfl, rfl, rfl⟩)⟩
    | error e => exact ⟨_, _, kernel_run_refused hk hb, .inr (.inr ⟨rfl, e, rfl, rfl, rfl⟩)⟩

theorem baseOptions_of_kernel_run {r : Except Error CompiledKernel} {c' : Context}
    (h : (kernel spec).run.run c = .ok (r, c')) : c'.baseOptions = c.baseOptions := by
  obtain ⟨r₀, c₀, h₀, hcases⟩ := kernel_run_cases spec c
  rw [h₀, Except.ok.injEq, Prod.mk.injEq] at h
  obtain ⟨-, rfl⟩ := h
  rcases hcases with ⟨_, _, _, rfl⟩ | ⟨_, _, _, _, rfl⟩ | ⟨_, _, _, _, rfl⟩ <;> rfl

theorem mem_keySet_of_lookup (hk : c.kernels.lookup (keyOf spec) = some k) : keyOf spec ∈ c.keySet := by
  obtain ⟨l₁, l₂, hl, -⟩ := List.lookup_eq_some_iff.mp hk
  simp [keySet, hl]

/-- One section adds the kernel's key to the keys kept exactly when its build succeeds. -/
theorem keySet_of_kernel_run {r : Except Error CompiledKernel} {c' : Context}
    (h : (kernel spec).run.run c = .ok (r, c')) :
    c'.keySet = c.keySet ∪ if (spec.build c.baseOptions).isOk then {keyOf spec} else ∅ := by
  obtain ⟨r₀, c₀, h₀, hcases⟩ := kernel_run_cases spec c
  rw [h₀, Except.ok.injEq, Prod.mk.injEq] at h
  obtain ⟨-, rfl⟩ := h
  rcases hcases with ⟨k, hk, -, rfl⟩ | ⟨-, k, hb, -, rfl⟩ | ⟨-, e, hb, -, rfl⟩
  · -- the key is kept already
    have hmem := mem_keySet_of_lookup hk
    split <;> simp [hmem]
  · rw [hb, Except.isOk, Except.toBool, if_pos rfl, Finset.union_comm, ← Finset.insert_eq]
    simp [keySet, keepKernel]
  · rw [hb, Except.isOk, Except.toBool, if_neg Bool.false_ne_true, Finset.union_empty]

end Section

/-! ## Sound tables -/

/-- The table as asking for kernels keeps it: no key twice, and each entry what some kernel with
    its key builds into on the base options. -/
structure TableSound (c : Context) : Prop where
  nodup : (c.kernels.map Prod.fst).Nodup
  built : ∀ entry ∈ c.kernels, ∃ spec, entry.1 = keyOf spec ∧ spec.build c.baseOptions = .ok entry.2

namespace TableSound

variable {spec : KernelSpec} {c : Context} {k : CompiledKernel}

theorem of_nil (h : c.kernels = []) : c.TableSound where
  nodup := by simp [h]
  built entry hmem := by simp [h] at hmem

theorem of_eq (hs : c.TableSound) {c' : Context} (hk : c'.kernels = c.kernels)
    (hb : c'.baseOptions = c.baseOptions) : c'.TableSound where
  nodup := hk ▸ hs.nodup
  built entry hmem := hb ▸ hs.built entry (hk ▸ hmem)

/-- Under the key of a kernel the table keeps what that kernel builds into. -/
theorem lookup (hs : c.TableSound) (hk : c.kernels.lookup (keyOf spec) = some k) :
    spec.build c.baseOptions = .ok k := by
  obtain ⟨l₁, l₂, hl, -⟩ := List.lookup_eq_some_iff.mp hk
  obtain ⟨spec', hkey, hb⟩ := hs.built (keyOf spec, k) (by simp [hl])
  rw [KernelSpec.build_eq_of_keyOf hkey]
  exact hb

/-- Keeping a new key's build keeps the table sound. -/
theorem keepKernel (hs : c.TableSound) (hk : c.kernels.lookup (keyOf spec) = none)
    (hb : spec.build c.baseOptions = .ok k) : (c.keepKernel spec k).TableSound where
  nodup := by
    have hnew : keyOf spec ∉ c.kernels.map Prod.fst := by
      intro hmem
      obtain ⟨p, hp, hkey⟩ := List.mem_map.mp hmem
      have hne := List.lookup_eq_none_iff.mp hk p hp
      rw [hkey] at hne
      exact absurd rfl (bne_iff_ne.mp hne)
    simp only [Context.keepKernel, List.map_append, List.map_cons, List.map_nil]
    exact List.nodup_append.mpr ⟨hs.nodup, List.nodup_singleton _,
      fun a ha b hb' => by rw [List.mem_singleton.mp hb']; exact fun h => hnew (h ▸ ha)⟩
  built entry hmem := by
    rcases List.mem_append.mp hmem with hold | hnew
    · exact hs.built entry hold
    · rw [List.mem_singleton.mp hnew]
      exact ⟨spec, rfl, hb⟩

/-- A section keeps the table sound. -/
theorem kernel_run (hs : c.TableSound) {r : Except Error CompiledKernel} {c' : Context}
    (h : (Context.kernel spec).run.run c = .ok (r, c')) : c'.TableSound := by
  obtain ⟨r₀, c₀, h₀, hcases⟩ := kernel_run_cases spec c
  rw [h₀, Except.ok.injEq, Prod.mk.injEq] at h
  obtain ⟨-, rfl⟩ := h
  rcases hcases with ⟨_, _, _, rfl⟩ | ⟨hk, k, hb, -, rfl⟩ | ⟨_, _, _, _, rfl⟩
  · exact hs
  · exact hs.keepKernel hk hb
  · exact hs

/-- The answer of a section is what the table keeps under the kernel's key after it. -/
theorem lookup_of_kernel_run (hs : c.TableSound) {c' : Context}
    (h : (Context.kernel spec).run.run c = .ok (.ok k, c')) : c'.kernels.lookup (keyOf spec) = some k := by
  obtain ⟨r₀, c₀, h₀, hcases⟩ := kernel_run_cases spec c
  rw [h₀, Except.ok.injEq, Prod.mk.injEq] at h
  obtain ⟨rfl, rfl⟩ := h
  rcases hcases with ⟨k', hk, hr, rfl⟩ | ⟨hk, k', -, hr, rfl⟩ | ⟨-, e, -, hr, -⟩
  · cases hr
    exact hk
  · cases hr
    simp [Context.keepKernel, List.lookup_append, hk]
  · cases hr

/-- The number of kernels kept is the number of keys kept. -/
theorem compiledKernels_eq (hs : c.TableSound) : c.compiledKernels = c.keySet.card := by
  rw [keySet, List.toFinset_card_of_nodup hs.nodup, List.length_map]
  rfl

/-- A kernel a request answers is built with its requested options merged into the base ones,
    whether the table kept it or the request built it. -/
theorem options_of_kernel_run (hs : c.TableSound) {c' : Context}
    (h : (Context.kernel spec).run.run c = .ok (.ok k, c')) : k.options = c.baseOptions.merge spec.requested := by
  have hb := (hs.kernel_run h).lookup (hs.lookup_of_kernel_run h)
  rw [baseOptions_of_kernel_run h] at hb
  exact (KernelSpec.name_options_of_build hb).2

end TableSound

/-! ## Runs -/

/-- A run of a context as far as its kernel table goes: the sections that ask the table for the
    kernels `specs`, in the order they took its lock, with any steps between them that leave the
    table and the base options as they are. -/
inductive KernelRun : Context → List KernelSpec → Context → Prop
  | nil (c : Context) : KernelRun c [] c
  | other {c c₁ c' : Context} {specs : List KernelSpec} (hk : c₁.kernels = c.kernels)
      (hb : c₁.baseOptions = c.baseOptions) (hrun : KernelRun c₁ specs c') : KernelRun c specs c'
  | request {c c₁ c' : Context} {spec : KernelSpec} {specs : List KernelSpec}
      {r : Except Error CompiledKernel} (h : (kernel spec).run.run c = .ok (r, c₁))
      (hrun : KernelRun c₁ specs c') : KernelRun c (spec :: specs) c'

namespace KernelRun

variable {c c' : Context} {specs : List KernelSpec}

theorem baseOptions (hrun : KernelRun c specs c') : c'.baseOptions = c.baseOptions := by
  induction hrun with
  | nil => rfl
  | other _ hb _ ih => rw [ih, hb]
  | request h _ ih => rw [ih, baseOptions_of_kernel_run h]

theorem tableSound (hrun : KernelRun c specs c') (hs : c.TableSound) : c'.TableSound := by
  induction hrun with
  | nil => exact hs
  | other hk hb _ ih => exact ih (hs.of_eq hk hb)
  | request h _ ih => exact ih (hs.kernel_run h)

/-- The keys kept after a run are those kept before it and those of the kernels asked for whose
    build succeeds. -/
theorem keySet (hrun : KernelRun c specs c') :
    c'.keySet = c.keySet ∪ ((specs.filter fun s => (s.build c.baseOptions).isOk).map keyOf).toFinset := by
  induction hrun with
  | nil => simp
  | other hk hb _ ih =>
    rw [ih, hb]
    simp only [Context.keySet, hk]
  | @request c c₁ c' spec specs r h _ ih =>
    rw [ih, keySet_of_kernel_run h, baseOptions_of_kernel_run h, List.filter_cons]
    split <;> simp

end KernelRun

/-- Along every run of a context from an empty table, whatever order its sections take the lock
    in: no key is kept twice, and under each key is what a kernel with that key builds into on the
    base options, named as the kernel and built with its requested options merged into the base
    ones; the kernels kept number the distinct keys asked for whose build succeeds; and the next
    request answers the kernel kept under its key with nothing changed, or else builds it once,
    keeping it and counting it only when the build succeeds. -/
theorem kernel_table_contract {c c' : Context} {specs : List KernelSpec} (hc : c.kernels = [])
    (hrun : KernelRun c specs c') :
    (c'.kernels.map Prod.fst).Nodup ∧
      (∀ spec k, c'.kernels.lookup (keyOf spec) = some k →
        spec.build c.baseOptions = .ok k ∧ k.name = spec.name ∧ k.options = c.baseOptions.merge spec.requested) ∧
      c'.compiledKernels = ((specs.filter fun s => (s.build c.baseOptions).isOk).map keyOf).toFinset.card ∧
      ∀ spec, ∃ r c'', (kernel spec).run.run c' = .ok (r, c'') ∧
        ((∃ k, c'.kernels.lookup (keyOf spec) = some k ∧ r = .ok k ∧ c'' = c') ∨
          (c'.kernels.lookup (keyOf spec) = none ∧
            ∃ k, spec.build c.baseOptions = .ok k ∧ r = .ok k ∧ c'' = c'.keepKernel spec k) ∨
          (c'.kernels.lookup (keyOf spec) = none ∧
            ∃ e, spec.build c.baseOptions = .error e ∧ r = .error e ∧ c'' = c')) := by
  have hs : c'.TableSound := hrun.tableSound (TableSound.of_nil hc)
  have hb : c'.baseOptions = c.baseOptions := hrun.baseOptions
  refine ⟨hs.nodup, fun spec k hk => ?_, ?_, fun spec => hb ▸ kernel_run_cases spec c'⟩
  · have hbuild := hb ▸ hs.lookup hk
    exact ⟨hbuild, KernelSpec.name_options_of_build hbuild⟩
  · rw [hs.compiledKernels_eq, hrun.keySet, keySet, hc]
    simp

/-- The transpose kernel asked for twice on a context with an empty table and no base options is
    built and kept once. -/
theorem transpose_kept_once :
    ∃ c c', c.kernels = [] ∧ KernelRun c [Standard.transpose, Standard.transpose] c' ∧ c'.compiledKernels = 1 := by
  let c : Context := { info := ⟨"host", 1024, 1⟩, baseOptions := OptionMap.empty, tuning := Tuning.defaults }
  have hsound : c.baseOptions.Sound := fun _ h => nomatch h
  have hb := KernelSpec.build_of_buildable Standard.transpose_buildable rfl hsound
  have h₁ := kernel_run_built (c := c) rfl hb
  let c₁ := c.keepKernel Standard.transpose (Standard.transpose.builtOn .transpose c.baseOptions)
  have h₂ : (kernel Standard.transpose).run.run c₁ =
      .ok (.ok (Standard.transpose.builtOn .transpose c.baseOptions), c₁) :=
    kernel_run_kept (by simp [c₁, keepKernel, c])
  have hrun := KernelRun.request h₁ (.request h₂ (.nil _))
  refine ⟨c, _, rfl, hrun, ?_⟩
  rw [(kernel_table_contract rfl hrun).2.2.1]
  simp [hb, Except.isOk, Except.toBool]

end Context

/-! ## Thread blocks along a run -/

/-- What making a context from `cfg` does to the thread block, and what building a kernel on it
    can give: the base options differ from the configuration's only by the fitting, and when the
    configuration binds `THREAD_BLOCK_SIZE`, on every context a run reaches from it, every kernel
    built and every kernel the table answers has a thread block within the square root of the
    limit, whose square work group (of side at least 1) fits the limit. -/
structure BlockFitted (cfg : Config) (ctx : Context) : Prop where
  /-- A configured thread block within the side, or none at all, leaves the options as they are. -/
  kept : (∀ t, cfg.baseOptions.get? "THREAD_BLOCK_SIZE" = some t → t ≤ cfg.fittedSide) →
    ctx.baseOptions = cfg.baseOptions
  /-- A wider one becomes the side, `WORK_PER_THREAD` becomes 1, and nothing else changes. -/
  cut : ∀ t, cfg.baseOptions.get? "THREAD_BLOCK_SIZE" = some t → (cfg.fittedSide : Int) < t → ∀ k,
    ctx.baseOptions.get? k =
      if k = "WORK_PER_THREAD" then some 1
      else if k = "THREAD_BLOCK_SIZE" then some (cfg.fittedSide : Int) else cfg.baseOptions.get? k
  /-- On every context a run reaches, every kernel built or answered by the table has a thread
      block whose square work group fits. -/
  bounded : (cfg.baseOptions.get? "THREAD_BLOCK_SIZE").isSome →
    ∀ (specs : List KernelSpec) (c : Context), Context.KernelRun ctx specs c →
      ∀ (spec : KernelSpec) (k : CompiledKernel) (c' : Context) (t : Int),
        ((Context.compile spec).run.run c = .ok (.ok k, c') ∨ (Context.kernel spec).run.run c = .ok (.ok k, c')) →
        k.options.get? "THREAD_BLOCK_SIZE" = some t →
        t ≤ Nat.sqrt cfg.maxWorkGroupSize ∧ max 1 t.toNat * max 1 t.toNat ≤ cfg.maxWorkGroupSize

/-- Every context made from a configuration has its thread block fitted, and along every run of
    it every kernel built or answered by the table stays within the square root of the work-group
    limit when the configuration binds a thread block. -/
theorem built_block_fits {cfg : Config} {processors : Nat} {ctx : Context}
    (hctx : Context.create cfg processors = .ok (.ok ctx)) : BlockFitted cfg ctx := by
  obtain ⟨hv, rfl⟩ := create_eq_ok hctx
  refine ⟨fun hle => fitThreadBlockTo_of_le hle, fun t ht hlt k => get?_fitThreadBlockTo_of_lt ht hlt k, ?_⟩
  intro hbound specs c hrun spec k c' t hk ht
  -- along the run the base options stay the fitted ones, and the table, empty at first, stays sound
  have hbase := hrun.baseOptions
  have hs : c.TableSound := hrun.tableSound (Context.TableSound.of_nil rfl)
  have hopts : k.options = c.baseOptions.merge spec.requested := by
    rcases hk with hk | hk
    · exact options_of_compile hk
    · exact hs.options_of_kernel_run hk
  rw [hopts, hbase] at ht
  exact Config.block_fits_of_merge (validate_eq_ok hv).1 hbound spec.requested ht

/-- The default configuration on two processors makes a context with its thread block fitted. -/
theorem default_block_fitted : ∃ ctx, Context.create {} 2 = .ok (.ok ctx) ∧ BlockFitted {} ctx := by
  have h : (match Context.create {} 2 with
      | .ok (.ok _) => true
      | _ => false) = true := by decide +kernel
  split at h
  · rename_i ctx hc
    exact ⟨ctx, hc, built_block_fits hc⟩
  · cases h

/-- With base options that leave `THREAD_BLOCK_SIZE` out, a kernel is built with the thread block
    it requests: on a device that runs at most 4 work items in a group, a kernel asking for a
    block of 32 gets 32, above the square root 2 of the limit. -/
theorem unbounded_requested_block :
    ∃ ctx k ctx', Context.create { baseOptions := OptionMap.empty, maxWorkGroupSize := 4 } 2 = .ok (.ok ctx) ∧
      (Context.compile ⟨"k", ["__kernel void k() \x7b\x7d"], [("THREAD_BLOCK_SIZE", 32)], [], some .increment⟩).run.run ctx =
        .ok (.ok k, ctx') ∧
      k.options.get? "THREAD_BLOCK_SIZE" = some 32 ∧ Nat.sqrt 4 < 32 := by
  have h : (match Context.create { baseOptions := OptionMap.empty, maxWorkGroupSize := 4 } 2 with
      | .ok (.ok ctx) =>
        match (Context.compile ⟨"k", ["__kernel void k() \x7b\x7d"], [("THREAD_BLOCK_SIZE", 32)], [],
            some .increment⟩).run.run ctx with
        | .ok (.ok k, _) => decide (k.options.get? "THREAD_BLOCK_SIZE" = some 32)
        | _ => false
      | _ => false) = true := by decide +kernel
  split at h
  · rename_i ctx hc
    split at h
    · rename_i k ctx' hk
      exact ⟨ctx, k, ctx', hc, hk, of_decide_eq_true h, Nat.lt_of_le_of_lt (Nat.sqrt_le_self 4) (by decide)⟩
    · cases h
  · cases h

end OffloadAlgebra
