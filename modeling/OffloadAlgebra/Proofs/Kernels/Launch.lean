import OffloadAlgebra.Proofs.Kernels.Table
import OffloadAlgebra.Proofs.Dispatch.DevicePath
/-!
  Which check refuses a launch, and what a refused launch leaves behind.

  A launch checks, in this order: that each argument is of the kind its slot of the signature
  takes, the range, the build of the kernel (through the context's table, so a kernel kept there
  is not built again), and that no buffer is bound twice where one of the two bindings writes.
  It is refused exactly when one of these fails (`LaunchChecks.refused_iff`), and the first
  check that fails names the error: the least position whose argument does not fit, the range's
  own error, the build's error, and for two bindings of one buffer the least later position
  with, for it, the least earlier one.  Two bindings that only read a buffer pass.

  A refused launch submits nothing and counts no launch: the context is as it was, but for a
  kernel built on the way, which stays in the table (`LaunchChecks.keeps`).

  Both searches for a first failing position scan a list whose positions increase, so what they
  find is the least failing position (`findSome?_of_least`, `find?_of_least`).
-/

namespace OffloadAlgebra

/-! ## Searches over increasing positions -/

section Search

variable {α β : Type} {κ : α → Nat}

/-- In a list whose keys increase, a search from the left answers for the element of least key
    among those it accepts. -/
theorem findSome?_of_least {f : α → Option β} {l : List α} (hs : l.Pairwise (κ · < κ ·)) {a : α} {b : β}
    (ha : a ∈ l) (hf : f a = some b) (hmin : ∀ x ∈ l, κ x < κ a → f x = none) : l.findSome? f = some b := by
  induction l with
  | nil => cases ha
  | cons x l ih =>
    obtain ⟨hx, hl⟩ := List.pairwise_cons.mp hs
    rcases List.mem_cons.mp ha with rfl | ha'
    · rw [List.findSome?_cons, hf]
    · -- the head comes before `a`, so the search passes it
      rw [List.findSome?_cons, hmin x List.mem_cons_self (hx a ha')]
      exact ih hl ha' fun y hy => hmin y (List.mem_cons_of_mem x hy)

theorem find?_of_least {p : α → Bool} {l : List α} (hs : l.Pairwise (κ · < κ ·)) {a : α}
    (ha : a ∈ l) (hp : p a = true) (hmin : ∀ x ∈ l, κ x < κ a → p x = false) : l.find? p = some a := by
  induction l with
  | nil => cases ha
  | cons x l ih =>
    obtain ⟨hx, hl⟩ := List.pairwise_cons.mp hs
    rcases List.mem_cons.mp ha with rfl | ha'
    · rw [List.find?_cons_of_pos hp]
    · rw [List.find?_cons_of_neg (by rw [hmin x List.mem_cons_self (hx a ha')]; decide)]
      exact ih hl ha' fun y hy => hmin y (List.mem_cons_of_mem x hy)

end Search

theorem zipIdx_pairwise {α : Type} (l : List α) : l.zipIdx.Pairwise (·.2 < ·.2) := by
  rw [← List.pairwise_map (R := (· < ·)), List.zipIdx_map_snd]
  exact List.pairwise_lt_range'

/-- The buffers of a launch come in increasing order of their positions. -/
theorem bufferBindings_pairwise (sig : List ArgSpec) (args : List KernelArg) :
    (bufferBindings sig args).Pairwise (·.1 < ·.1) := by
  unfold bufferBindings
  refine (zipIdx_pairwise (args.zip sig)).filterMap _ ?_
  rintro ⟨⟨a, s⟩, i⟩ ⟨⟨a', s'⟩, i'⟩ hlt b hb b' hb'
  cases a <;> cases s <;> cases a' <;> cases s' <;> simp only [reduceCtorEq, Option.some.injEq] at hb hb'
  subst hb hb'
  exact hlt

/-! ## The two argument checks -/

/-- Position `i` holds an argument of another kind than its slot of the signature takes. -/
def Misfit (sig : List ArgSpec) (args : List KernelArg) (i : Nat) : Prop :=
  ∃ a s, args[i]? = some a ∧ sig[i]? = some s ∧ a.fits s = false

/-- Positions `j < i` both bind one matrix as a buffer, and one of the two bindings writes it. -/
def Aliases (sig : List ArgSpec) (args : List KernelArg) (j i : Nat) : Prop :=
  j < i ∧ ∃ h dj di, args[j]? = some (.matrix h) ∧ sig[j]? = some (.buffer dj) ∧
    args[i]? = some (.matrix h) ∧ sig[i]? = some (.buffer di) ∧ (di.writes || dj.writes) = true

/-- The aliasing pair a launch reports: the least later position, and for it the least earlier
    one. -/
def FirstAlias (sig : List ArgSpec) (args : List KernelArg) (j i : Nat) : Prop :=
  Aliases sig args j i ∧ (∀ i' < i, ∀ j', ¬ Aliases sig args j' i') ∧ ∀ j' < j, ¬ Aliases sig args j' i

section Checks

variable {name : String} {sig : List ArgSpec} {args : List KernelArg}

theorem signatureFault?_eq_none_iff : signatureFault? name sig args = none ↔ ∀ i, ¬ Misfit sig args i := by
  rw [signatureFault?_eq_none]
  constructor
  · rintro h i ⟨a, s, ha, hs, hfit⟩
    have hmem : (a, s) ∈ args.zip sig := List.mem_iff_getElem?.mpr ⟨i, List.getElem?_zip_eq_some.mpr ⟨ha, hs⟩⟩
    rw [h _ hmem] at hfit
    cases hfit
  · intro h p hp
    obtain ⟨i, hi⟩ := List.mem_iff_getElem?.mp hp
    obtain ⟨ha, hs⟩ := List.getElem?_zip_eq_some.mp hi
    cases hfit : p.1.fits p.2
    · exact absurd ⟨p.1, p.2, ha, hs, hfit⟩ (h i)
    · rfl

/-- The signature check names the least position whose argument does not fit. -/
theorem signatureFault?_of_least (name : String) {i : Nat} (hi : Misfit sig args i) (hmin : ∀ i' < i, ¬ Misfit sig args i') :
    ∃ a s, args[i]? = some a ∧ sig[i]? = some s ∧ signatureFault? name sig args =
      some (.invalidArgument name ("argument " ++ toString i ++ " expects " ++ s.describe ++ ", got " ++ a.kind)) := by
  obtain ⟨a, s, ha, hs, hfit⟩ := hi
  refine ⟨a, s, ha, hs, ?_⟩
  have hmem : ((a, s), i) ∈ (args.zip sig).zipIdx :=
    List.mem_zipIdx_iff_getElem?.mpr (List.getElem?_zip_eq_some.mpr ⟨ha, hs⟩)
  -- the search over the positions stops at `i`
  unfold signatureFault?
  rw [find?_of_least (zipIdx_pairwise _) hmem ?_ ?_]
  · rfl
  · simp [hfit]
  · rintro ⟨⟨a', s'⟩, i'⟩ hmem hlt
    obtain ⟨ha', hs'⟩ := List.getElem?_zip_eq_some.mp (List.mem_zipIdx_iff_getElem?.mp hmem)
    cases hfit' : a'.fits s'
    · exact absurd ⟨a', s', ha', hs', hfit'⟩ (hmin i' hlt)
    · simp [hfit']

/-- A buffer binding is a position holding a matrix whose slot takes a buffer. -/
theorem mem_bufferBindings_iff {i h : Nat} {d : Direction} :
    (i, h, d) ∈ bufferBindings sig args ↔ args[i]? = some (.matrix h) ∧ sig[i]? = some (.buffer d) :=
  mem_bufferBindings.trans List.getElem?_zip_eq_some

theorem aliasFault?_eq_none_iff :
    aliasFault? name (bufferBindings sig args) = none ↔ ∀ j i, ¬ Aliases sig args j i := by
  simp only [aliasFault?, List.findSome?_eq_none_iff, Option.map_eq_none_iff, List.find?_eq_none,
    decide_eq_true_eq, not_and]
  constructor
  · rintro h j i ⟨hji, hb, dj, di, hja, hjs, hia, his, hw⟩
    exact h (i, hb, di) (mem_bufferBindings_iff.mpr ⟨hia, his⟩) (j, hb, dj)
      (mem_bufferBindings_iff.mpr ⟨hja, hjs⟩) hji rfl hw
  · rintro h ⟨i, hb, di⟩ hi ⟨j, hb', dj⟩ hj hji rfl hw
    obtain ⟨hia, his⟩ := mem_bufferBindings_iff.mp hi
    obtain ⟨hja, hjs⟩ := mem_bufferBindings_iff.mp hj
    exact h j i ⟨hji, hb', dj, di, hja, hjs, hia, his, hw⟩

/-- The alias check names the least later position of an aliasing pair and, for it, the least
    earlier one. -/
theorem aliasFault?_of_first {j i : Nat} (hfirst : FirstAlias sig args j i) :
    aliasFault? name (bufferBindings sig args) =
      some (.invalidArgument name ("arguments " ++ toString j ++ " and " ++ toString i ++ " alias the same buffer")) := by
  obtain ⟨⟨hji, hb, dj, di, hja, hjs, hia, his, hw⟩, hmin_i, hmin_j⟩ := hfirst
  have hs := bufferBindings_pairwise sig args
  refine findSome?_of_least hs (mem_bufferBindings_iff.mpr ⟨hia, his⟩) ?_ ?_
  · -- for position `i`, the search over earlier bindings stops at `j`
    dsimp only
    rw [find?_of_least hs (mem_bufferBindings_iff.mpr ⟨hja, hjs⟩) ?_ ?_]
    · rfl
    · simp [hji, hw]
    · rintro ⟨j', h', d'⟩ hmem hlt
      obtain ⟨hja', hjs'⟩ := mem_bufferBindings_iff.mp hmem
      simp only [decide_eq_false_iff_not, not_and]
      rintro hj'i rfl hw'
      exact hmin_j j' hlt ⟨hj'i, h', d', di, hja', hjs', hia, his, hw'⟩
  · -- no binding before position `i` aliases an earlier one
    rintro ⟨i', h', d'⟩ hmem hlt
    obtain ⟨hia', his'⟩ := mem_bufferBindings_iff.mp hmem
    simp only [Option.map_eq_none_iff, List.find?_eq_none, decide_eq_true_eq, not_and]
    rintro ⟨j', h'', d''⟩ hmem' hj' rfl hw'
    obtain ⟨hja', hjs'⟩ := mem_bufferBindings_iff.mp hmem'
    exact hmin_i i' hlt j' ⟨hj', h'', d'', d', hja', hjs', hia', his', hw'⟩

end Checks

namespace Context

/-! ## The checks of a launch, stage by stage -/

/-- The build a launch asks the table for fails: no kernel is kept under the key, and building
    it fails with `e`. -/
def BuildFails (c : Context) (spec : KernelSpec) (e : Error) : Prop :=
  c.kernels.lookup (keyOf spec) = none ∧ spec.build c.baseOptions = .error e

section Stages

variable {spec : KernelSpec} {range : NdRange} {args : List KernelArg} {c c₁ : Context} {e : Error}
  {k : CompiledKernel}

theorem prepareLaunch_run_of_signatureFault (h : signatureFault? spec.name spec.signature args = some e) :
    (prepareLaunch spec range args).run.run c = .ok (.error e, c) := by
  simp [prepareLaunch, h]

theorem prepareLaunch_run_of_validate (hsig : signatureFault? spec.name spec.signature args = none)
    (hv : range.validate spec.name = .error e) : (prepareLaunch spec range args).run.run c = .ok (.error e, c) := by
  simp [prepareLaunch, hsig, hv]

theorem prepareLaunch_run_of_kernel_error (hsig : signatureFault? spec.name spec.signature args = none)
    (hv : range.validate spec.name = .ok ()) (hk : (kernel spec).run.run c = .ok (.error e, c₁)) :
    (prepareLaunch spec range args).run.run c = .ok (.error e, c₁) := by
  simp [prepareLaunch, ExceptT.run_bind, StateT.run_bind, hsig, hv, hk]

theorem prepareLaunch_run_of_aliasFault (hsig : signatureFault? spec.name spec.signature args = none)
    (hv : range.validate spec.name = .ok ()) (hk : (kernel spec).run.run c = .ok (.ok k, c₁))
    (ha : aliasFault? spec.name (bufferBindings spec.signature args) = some e) :
    (prepareLaunch spec range args).run.run c = .ok (.error e, c₁) := by
  simp [prepareLaunch, ExceptT.run_bind, StateT.run_bind, hsig, hv, hk, ha]

/-- A launch whose checks pass is never refused. -/
theorem invoke_run_of_checks (hsig : signatureFault? spec.name spec.signature args = none)
    (hv : range.validate spec.name = .ok ()) (hk : (kernel spec).run.run c = .ok (.ok k, c₁))
    (ha : aliasFault? spec.name (bufferBindings spec.signature args) = none) :
    ∃ c', (invoke spec range args).run.run c = .ok (.ok c₁.events.size, c') :=
  ⟨_, invoke_run_of_ok (prepareLaunch_run_of_checks hsig hv hk ha)⟩

/-- A refused launch ends where its checks ended. -/
theorem prepareLaunch_of_invoke_error {c' : Context} (h : (invoke spec range args).run.run c = .ok (.error e, c')) :
    (prepareLaunch spec range args).run.run c = .ok (.error e, c') := by
  obtain ⟨r, ks, f, hp⟩ := prepareLaunch_run_ok spec range args c
  cases r with
  | error e' =>
    rw [invoke_run_of_error hp, Except.ok.injEq, Prod.mk.injEq, Except.error.injEq] at h
    obtain ⟨rfl, rfl⟩ := h
    exact hp
  | ok k' =>
    rw [invoke_run_of_ok hp] at h
    cases h

end Stages

/-! ## The contract -/

/-- How a launch of `spec` over `range` with `args` ends on context `c`, check by check. -/
structure LaunchChecks (spec : KernelSpec) (range : NdRange) (args : List KernelArg) (c : Context) : Prop where
  /-- The launch is refused exactly when one of its checks fails. -/
  refused_iff : (∃ e c', (invoke spec range args).run.run c = .ok (.error e, c')) ↔
    (∃ i, Misfit spec.signature args i) ∨ (∃ e, range.validate spec.name = .error e) ∨
      (∃ e, c.BuildFails spec e) ∨ ∃ j i, Aliases spec.signature args j i
  /-- An argument of the wrong kind: the least such position is named, and nothing is built. -/
  misfit : ∀ i, Misfit spec.signature args i → (∀ i' < i, ¬ Misfit spec.signature args i') →
    ∃ a s, args[i]? = some a ∧ spec.signature[i]? = some s ∧ (invoke spec range args).run.run c =
      .ok (.error (.invalidArgument spec.name
        ("argument " ++ toString i ++ " expects " ++ s.describe ++ ", got " ++ a.kind)), c)
  /-- Next, the range's own error. -/
  badRange : (∀ i, ¬ Misfit spec.signature args i) → ∀ e, range.validate spec.name = .error e →
    (invoke spec range args).run.run c = .ok (.error e, c)
  /-- Next, the build's error, when the table does not keep the kernel. -/
  badBuild : (∀ i, ¬ Misfit spec.signature args i) → range.validate spec.name = .ok () → ∀ e, c.BuildFails spec e →
    (invoke spec range args).run.run c = .ok (.error e, c)
  /-- Last, two bindings of one buffer where one writes: the least later position, with the least
      earlier one for it, on the context the build left. -/
  aliased : (∀ i, ¬ Misfit spec.signature args i) → range.validate spec.name = .ok () →
    ∀ k c₁, (kernel spec).run.run c = .ok (.ok k, c₁) → ∀ j i, FirstAlias spec.signature args j i →
      (invoke spec range args).run.run c = .ok (.error (.invalidArgument spec.name
        ("arguments " ++ toString j ++ " and " ++ toString i ++ " alias the same buffer")), c₁)
  /-- A refused launch leaves the context as it was, but for a kernel built and kept on the way. -/
  keeps : ∀ e c', (invoke spec range args).run.run c = .ok (.error e, c') →
    c' = c ∨ ∃ k, spec.build c.baseOptions = .ok k ∧ c' = c.keepKernel spec k

section Contract

variable {spec : KernelSpec} {range : NdRange} {args : List KernelArg} {c : Context}

/-- Where a launch's checks end: refused by the signature, the range or the build with the
    context unchanged, refused by the alias check on the context the build left, or accepted. -/
theorem prepareLaunch_refusal {e : Error} {c' : Context} (h : (prepareLaunch spec range args).run.run c = .ok (.error e, c')) :
    ((∃ i, Misfit spec.signature args i) ∨ (∃ e, range.validate spec.name = .error e) ∨
      (∃ e, c.BuildFails spec e) ∨ ∃ j i, Aliases spec.signature args j i) ∧
    (c' = c ∨ ∃ k, spec.build c.baseOptions = .ok k ∧ c' = c.keepKernel spec k) := by
  cases hsig : signatureFault? spec.name spec.signature args with
  | some e' =>
    rw [prepareLaunch_run_of_signatureFault hsig] at h
    have hmis : ∃ i, Misfit spec.signature args i := by
      by_contra hno
      rw [signatureFault?_eq_none_iff.mpr fun i hi => hno ⟨i, hi⟩] at hsig
      cases hsig
    cases h
    exact ⟨.inl hmis, .inl rfl⟩
  | none =>
    cases hv : range.validate spec.name with
    | error e' =>
      rw [prepareLaunch_run_of_validate hsig hv] at h
      cases h
      exact ⟨.inr (.inl ⟨_, rfl⟩), .inl rfl⟩
    | ok u =>
      obtain ⟨r, c₁, hk, hcases⟩ := kernel_run_cases spec c
      -- the build refuses, or the alias check does on the context the build left
      have hstage : ∀ k, r = .ok k → (c₁ = c ∨ ∃ k, spec.build c.baseOptions = .ok k ∧ c₁ = c.keepKernel spec k) := by
        rintro k rfl
        rcases hcases with ⟨_, _, _, rfl⟩ | ⟨_, k', hb, _, rfl⟩ | ⟨_, _, _, hr, _⟩
        · exact .inl rfl
        · exact .inr ⟨k', hb, rfl⟩
        · cases hr
      cases r with
      | error e' =>
        rw [prepareLaunch_run_of_kernel_error hsig hv hk] at h
        cases h
        rcases hcases with ⟨_, _, hr, _⟩ | ⟨_, _, _, hr, _⟩ | ⟨hlook, e'', hb, hr, rfl⟩
        · cases hr
        · cases hr
        · cases hr
          exact ⟨.inr (.inr (.inl ⟨_, hlook, hb⟩)), .inl rfl⟩
      | ok k =>
        cases ha : aliasFault? spec.name (bufferBindings spec.signature args) with
        | none =>
          rw [prepareLaunch_run_of_checks hsig hv hk ha] at h
          cases h
        | some e' =>
          rw [prepareLaunch_run_of_aliasFault hsig hv hk ha] at h
          cases h
          have hal : ∃ j i, Aliases spec.signature args j i := by
            by_contra hno
            rw [aliasFault?_eq_none_iff.mpr fun j i hji => hno ⟨j, i, hji⟩] at ha
            cases ha
          exact ⟨.inr (.inr (.inr hal)), hstage k rfl⟩

theorem invoke_refused_of_check (hcheck : (∃ i, Misfit spec.signature args i) ∨ (∃ e, range.validate spec.name = .error e) ∨
      (∃ e, c.BuildFails spec e) ∨ ∃ j i, Aliases spec.signature args j i) :
    ∃ e c', (invoke spec range args).run.run c = .ok (.error e, c') := by
  cases hsig : signatureFault? spec.name spec.signature args with
  | some e => exact ⟨e, c, invoke_run_of_error (prepareLaunch_run_of_signatureFault hsig)⟩
  | none =>
    have hfit := signatureFault?_eq_none_iff.mp hsig
    cases hv : range.validate spec.name with
    | error e => exact ⟨e, c, invoke_run_of_error (prepareLaunch_run_of_validate hsig hv)⟩
    | ok u =>
      obtain ⟨r, c₁, hk, hcases⟩ := kernel_run_cases spec c
      cases r with
      | error e => exact ⟨e, c₁, invoke_run_of_error (prepareLaunch_run_of_kernel_error hsig hv hk)⟩
      | ok k =>
        cases ha : aliasFault? spec.name (bufferBindings spec.signature args) with
        | some e => exact ⟨e, c₁, invoke_run_of_error (prepareLaunch_run_of_aliasFault hsig hv hk ha)⟩
        | none =>
          -- every check passed, against the assumption
          exfalso
          rcases hcheck with ⟨i, hi⟩ | ⟨e, he⟩ | ⟨e, hlook, hb⟩ | ⟨j, i, hji⟩
          · exact hfit i hi
          · rw [hv] at he
            cases he
          · rcases hcases with ⟨_, hlook', _, _⟩ | ⟨_, _, hb', _, _⟩ | ⟨_, _, _, hr, _⟩
            · rw [hlook] at hlook'
              cases hlook'
            · rw [hb] at hb'
              cases hb'
            · cases hr
          · exact aliasFault?_eq_none_iff.mp ha j i hji

/-- Every launch on every context ends as its checks say, in their order. -/
theorem launch_checks (spec : KernelSpec) (range : NdRange) (args : List KernelArg) (c : Context) :
    LaunchChecks spec range args c where
  refused_iff := by
    constructor
    · rintro ⟨e, c', h⟩
      exact (prepareLaunch_refusal (prepareLaunch_of_invoke_error h)).1
    · exact invoke_refused_of_check
  misfit i hi hmin := by
    obtain ⟨a, s, ha, hs, hsig⟩ := signatureFault?_of_least spec.name hi hmin
    exact ⟨a, s, ha, hs, invoke_run_of_error (prepareLaunch_run_of_signatureFault hsig)⟩
  badRange hfit e hv :=
    invoke_run_of_error (prepareLaunch_run_of_validate (signatureFault?_eq_none_iff.mpr hfit) hv)
  badBuild hfit hv e hb :=
    invoke_run_of_error (prepareLaunch_run_of_kernel_error (signatureFault?_eq_none_iff.mpr hfit) hv
      (kernel_run_refused hb.1 hb.2))
  aliased hfit hv k c₁ hk j i hfirst :=
    invoke_run_of_error (prepareLaunch_run_of_aliasFault (signatureFault?_eq_none_iff.mpr hfit) hv hk
      (aliasFault?_of_first hfirst))
  keeps e c' h := (prepareLaunch_refusal (prepareLaunch_of_invoke_error h)).2

end Contract

end Context

end OffloadAlgebra
