import OffloadAlgebra.Device.HostSession
/-!
  What a command touches.

  A command names the device matrices it holds and how it uses each (`Command.buffers`).  It is
  `Confined` when its work reads only the contents of the matrices it holds, writes only those
  it holds for writing, and copies out only a matrix it holds.  Two commands conflict when one
  writes a matrix the other holds.

  Every command a program submits is confined.  The write of host data and the read touch their
  one matrix.  A launch reads the buffers bound to it, and writes only through the slots its
  kernel may write: whatever host implementation the kernel is bound to, it carries the proof
  that it writes only slots holding a buffer passed for writing (`HostFn.writes_writable`).
-/

namespace OffloadAlgebra

namespace Command

/-- Command `cmd` holds matrix `h`. -/
def Touches (cmd : Command) (h : Nat) : Prop := ∃ d, (h, d) ∈ cmd.buffers

/-- Command `cmd` holds matrix `h` for writing. -/
def Writes (cmd : Command) (h : Nat) : Prop := ∃ d, (h, d) ∈ cmd.buffers ∧ d.writes = true

/-- One of two commands writes a matrix the other holds. -/
def Conflicts (a b : Command) : Prop := ∃ h, (a.Writes h ∧ b.Touches h) ∨ (a.Touches h ∧ b.Writes h)

theorem Writes.touches {cmd : Command} {h : Nat} (hw : cmd.Writes h) : cmd.Touches h := by
  obtain ⟨d, hd, -⟩ := hw
  exact ⟨d, hd⟩

/-- A command whose work reads only the contents of the matrices it holds and writes only those
    it holds for writing, and that copies out only a matrix it holds. -/
structure Confined (cmd : Command) : Prop where
  work_congr : ∀ c₁ c₂ : Context, (∀ h, cmd.Touches h → (c₁.matrix h).data = (c₂.matrix h).data) →
    cmd.work c₁ = cmd.work c₂
  writes : ∀ ctx ws, cmd.work ctx = .ok ws → ∀ w ∈ ws, cmd.Writes w.1
  copies : ∀ h len, cmd.copies = some (h, len) → cmd.Touches h

end Command

/-! ## A launch writes only through its writable slots -/

/-- Whatever implementation a kernel is bound to, a launch of it writes only slots that hold a
    buffer passed for writing. -/
theorem KernelSpec.hostRun_writes_writable (spec : KernelSpec) (l : Launch) {ws : Writes}
    (h : spec.hostRun l = .ok ws) : l.WritesWritable ws := by
  unfold KernelSpec.hostRun at h
  cases hf : spec.host with
  | none =>
    rw [hf] at h
    cases h
    intro w hw
    cases hw
  | some f =>
    rw [hf] at h
    exact f.writes_writable l ws h

/-! ## The commands a program submits -/

theorem mem_bufferBindings {sig : List ArgSpec} {args : List KernelArg} {i h : Nat} {d : Direction} :
    (i, h, d) ∈ bufferBindings sig args ↔ (args.zip sig)[i]? = some (.matrix h, .buffer d) := by
  simp only [bufferBindings, List.mem_filterMap]
  constructor
  · rintro ⟨⟨⟨a, s⟩, j⟩, hmem, hf⟩
    rw [List.mem_zipIdx_iff_getElem?] at hmem
    cases a <;> cases s <;> simp only [reduceCtorEq, Option.some.injEq, Prod.mk.injEq] at hf
    obtain ⟨rfl, rfl, rfl⟩ := hf
    exact hmem
  · intro hi
    exact ⟨⟨(.matrix h, .buffer d), i⟩, List.mem_zipIdx_iff_getElem?.mpr hi, rfl⟩

/-- The signature check passes exactly when every argument fits its place. -/
theorem signatureFault?_eq_none {name : String} {sig : List ArgSpec} {args : List KernelArg} :
    signatureFault? name sig args = none ↔ ∀ p ∈ args.zip sig, p.1.fits p.2 = true := by
  simp only [signatureFault?, Option.map_eq_none_iff, List.find?_eq_none, Bool.not_eq_true',
    Bool.not_eq_false]
  constructor
  · intro h p hp
    obtain ⟨i, hi⟩ := List.mem_iff_getElem?.mp hp
    exact h ⟨p, i⟩ (List.mem_zipIdx_iff_getElem?.mpr hi)
  · intro h x hx
    exact h x.1 (List.mem_iff_getElem?.mpr ⟨x.2, List.mem_zipIdx_iff_getElem?.mp hx⟩)

namespace HostQueue

theorem writeCommand_confined (h : Nat) (data : Array Float) : (writeCommand h data).Confined where
  work_congr c₁ c₂ hd := by
    have hh := hd h ⟨.output, List.mem_singleton_self _⟩
    simp only [writeCommand, Context.writeWork, hh]
  writes ctx ws hw w hmem := by
    simp only [writeCommand, Context.writeWork, Except.ok.injEq] at hw
    subst hw
    rw [List.mem_singleton] at hmem
    subst hmem
    exact ⟨.output, List.mem_singleton_self _, rfl⟩
  copies _ _ hc := by cases hc

theorem readCommand_confined (h len : Nat) (waits : List Nat) : (readCommand h len waits).Confined where
  work_congr _ _ _ := rfl
  writes ctx ws hw w hmem := by
    simp only [readCommand, Except.ok.injEq] at hw
    subst hw
    cases hmem
  copies h' len' hc := by
    simp only [readCommand, Option.some.injEq, Prod.mk.injEq] at hc
    obtain ⟨rfl, -⟩ := hc
    exact ⟨.input, List.mem_singleton_self _⟩

/-- A launch holds the matrix of each buffer binding, by its direction. -/
theorem launchCommand_buffers {k : CompiledKernel} {spec : KernelSpec} {range : NdRange}
    {args : List KernelArg} {waits : List Nat} {i h : Nat} {d : Direction}
    (hb : (i, h, d) ∈ bufferBindings spec.signature args) :
    (h, d) ∈ (launchCommand k spec range args waits).buffers :=
  List.mem_map.mpr ⟨(i, h, d), hb, rfl⟩

/-- A launch whose arguments fit the kernel's signature is confined: it reads its buffer
    arguments, and writes only those bound for writing. -/
theorem launchCommand_confined {k : CompiledKernel} {spec : KernelSpec} {range : NdRange}
    {args : List KernelArg} {waits : List Nat} (hsig : signatureFault? spec.name spec.signature args = none) :
    (launchCommand k spec range args waits).Confined where
  work_congr c₁ c₂ hd := by
    -- every matrix argument is a buffer binding, so the launch sees the same arguments
    have hslots : (args.zip spec.signature).map c₁.lower = (args.zip spec.signature).map c₂.lower := by
      apply List.map_congr_left
      rintro ⟨a, s⟩ hp
      have hfit := signatureFault?_eq_none.mp hsig _ hp
      cases a with
      | matrix h =>
        cases s with
        | buffer d =>
          obtain ⟨i, hi⟩ := List.mem_iff_getElem?.mp hp
          simp only [Context.lower, hd h ⟨d, launchCommand_buffers (mem_bufferBindings.mpr hi)⟩]
        | value => cases hfit
      | int v => rfl
      | double v => rfl
    simp only [launchCommand, Context.launchWork, hslots]
  writes ctx ws hw w hmem := by
    obtain ⟨ws₀, hrun, hpure⟩ := Except.bind_eq_ok hw
    simp only [pure, Except.pure, Except.ok.injEq] at hpure
    subst hpure
    obtain ⟨⟨slot, data⟩, hmem₀, hg⟩ := List.mem_filterMap.mp hmem
    obtain ⟨d, dir, harg, hdir⟩ := spec.hostRun_writes_writable _ hrun _ hmem₀
    simp only [List.getElem?_toArray, List.getElem?_map, Option.map_eq_some_iff] at harg
    obtain ⟨⟨a, s⟩, hslot, hlow⟩ := harg
    rw [List.getElem?_zip_eq_some] at hslot
    simp only [hslot.1] at hg
    -- the slot written holds a matrix bound as a buffer that may be written
    cases a with
    | matrix h =>
      simp only [Option.some.injEq] at hg
      subst hg
      cases s with
      | buffer d' =>
        simp only [Context.lower, LaunchArg.buffer.injEq] at hlow
        exact ⟨d', launchCommand_buffers (mem_bufferBindings.mpr
          (List.getElem?_zip_eq_some.mpr ⟨hslot.1, hslot.2⟩)), hlow.2 ▸ hdir⟩
      | value =>
        simp only [Context.lower, LaunchArg.buffer.injEq] at hlow
        obtain ⟨-, rfl⟩ := hlow
        cases hdir
    | int v => cases hg
    | double v => cases hg
  copies _ _ hc := by cases hc

end HostQueue

end OffloadAlgebra
