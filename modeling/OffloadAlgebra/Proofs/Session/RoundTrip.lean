import Mathlib
import OffloadAlgebra.Proofs.Dispatch.DevicePath
/-!
  A host matrix copied to the device and back.

  `fromHost` allocates a buffer of at least one element, so an empty matrix gets a buffer of one
  zero, and copies the entries of any other matrix over the head of its buffer; the copy is
  recorded on the new matrix as a write. `toHost` reads the first `rows * cols` elements after
  the matrix's writers, then drops the completed events from the matrix's lists.

  The round trip asks nothing of the context it runs on. The copy waits on no event, so no
  earlier failure reaches it, and the read waits only on the copy. What the read needs of a
  matrix is that every event recorded on it completed (`Settled`): it then answers the matrix's
  contents and leaves its three lists empty (`toHost_of_settled`). A copy to the device leaves
  its matrix settled (`fromHost_settled`), so the round trip answers the host matrix itself,
  element for element, with every bit of every element (`round_trip_keeps_bits`).
-/

namespace OffloadAlgebra

namespace Context

/-- Every event recorded on matrix `h` completed. -/
def Settled (c : Context) (h : Nat) : Prop :=
  ∀ e ∈ (c.matrix h).reads ++ (c.matrix h).writes ++ (c.matrix h).readWrites, c.isComplete e = true

section Events

variable {c c' : Context} {e h : Nat}

theorem failure?_of_isComplete (he : c.isComplete e = true) : c.failure? e = none := by
  unfold isComplete at he
  split at he
  · rename_i l hev
    simp [failure?, hev]
  · cases he

theorem lt_of_isComplete (he : c.isComplete e = true) : e < c.events.size := by
  by_contra hlt
  simp [isComplete, event?, Array.getElem?_eq_none (Nat.le_of_not_lt hlt)] at he

theorem Grows.isComplete (hg : c'.Grows c) (he : c.isComplete e = true) : c'.isComplete e = true := by
  have hlt := lt_of_isComplete he
  unfold Context.isComplete event? at he ⊢
  rw [hg e hlt]
  exact he

theorem pending_of_complete {l : List Nat} (hl : ∀ e ∈ l, c.isComplete e = true) : c.pending l = [] :=
  List.filter_eq_nil_iff.mpr fun e he => by simp [hl e he]

end Events

namespace Settled

variable {c c' : Context} {h : Nat}

theorem firstFailure? (hs : c.Settled h) {l : List Nat}
    (hl : ∀ e ∈ l, e ∈ (c.matrix h).reads ++ (c.matrix h).writes ++ (c.matrix h).readWrites) :
    c.firstFailure? l = none :=
  firstFailure_eq_none fun e he => failure?_of_isComplete (hs e (hl e he))

/-- A later context with the same matrix `h` keeps it settled. -/
theorem of_grows (hs : c.Settled h) (hg : c'.Grows c) (hm : c'.matrix h = c.matrix h) : c'.Settled h := by
  intro e he
  rw [hm] at he
  exact hg.isComplete (hs e he)

/-- Dropping the completed events of a settled matrix empties its lists. -/
theorem cleared (hs : c.Settled h) :
    ((c.cleared h).matrix h).reads = [] ∧ ((c.cleared h).matrix h).writes = [] ∧
      ((c.cleared h).matrix h).readWrites = [] := by
  rw [Context.cleared, matrix_modify]
  split
  · exact ⟨pending_of_complete fun e he => hs e (by simp [he]),
      pending_of_complete fun e he => hs e (by simp [he]),
      pending_of_complete fun e he => hs e (by simp [he])⟩
  · -- past the matrices, the default matrix has no events
    rename_i hh
    have hdef : c.matrix h = default := by
      simp only [matrix, Array.getElem?_eq_none (Nat.le_of_not_lt fun hlt => hh ⟨rfl, hlt⟩), Option.getD_none]
    rw [hdef]
    exact ⟨rfl, rfl, rfl⟩

end Settled

/-- A copy back from a settled matrix answers its first `rows * cols` elements and empties its
    three lists. -/
theorem toHost_of_settled {c : Context} {h : Nat} (hs : c.Settled h) :
    ∃ c', (toHost h).run.run c =
        .ok (.ok ⟨(c.matrix h).rows, (c.matrix h).cols,
          (c.matrix h).data.extract 0 ((c.matrix h).rows * (c.matrix h).cols)⟩, c') ∧
      (c'.matrix h).reads = [] ∧ (c'.matrix h).writes = [] ∧ (c'.matrix h).readWrites = [] := by
  -- the read waits on the writers, all completed, so it completes and writes nothing
  let c₁ := c.runCommand "read_buffer" (c.matrix h).writes fun _ => .ok []
  have ho : c.outcome (c.matrix h).writes (fun _ => .ok []) = .ok [] := by
    rw [outcome, hs.firstFailure? fun e he => by simp [he]]
    rfl
  have hc₁ : c₁ = { c.applyWrites [] with
      events := c.events.push ⟨"read_buffer", .complete⟩, metrics := c.metrics.countCommand } :=
    runCommand_of_ok ho
  have hm : c₁.matrix h = c.matrix h := by
    simp only [c₁, matrix, matrices_runCommand_nil]
  have hs₁ : c₁.Settled h := hs.of_grows (grows_runCommand c _ _ _) hm
  have hread : c₁.failure? c.events.size = none := by
    rw [hc₁]
    simp [failure?, event?]
  let c₂ : Context :=
    { c₁ with metrics := c₁.metrics.recordTransferFromDevice (8 * ((c.matrix h).rows * (c.matrix h).cols)) }
  have hrw : c₁.firstFailure? (c.matrix h).readWrites = none := hs₁.firstFailure? fun e he => by simp [hm, he]
  refine ⟨c₂.cleared h, ?_, (hs₁.of_grows (fun _ _ => rfl) rfl).cleared⟩
  rw [toHost_run]
  show Except.ok (c₁.finishRead h c.events.size) = _
  simp only [finishRead, hm, hread, hrw]
  rfl

/-! ## The copy to the device -/

/-- A copy into a matrix with no events: the data over the front of the buffer, and the copy's
    event as the only write. -/
theorem matrix_written_of_quiet {c : Context} {h : Nat} (hh : h < c.matrices.size) (data : Array Float)
    (hr : (c.matrix h).reads = []) (hw : (c.matrix h).writes = []) (hrw : (c.matrix h).readWrites = []) :
    (c.written h data).matrix h =
      { c.matrix h with data := data ++ (c.matrix h).data.extract data.size (c.matrix h).data.size,
                        writes := [c.events.size], readWrites := [c.events.size] } := by
  rw [written_eq, recorded, matrix_modify, if_pos ⟨rfl, by simpa using hh⟩]
  simp only [matrix, Array.getElem?_eq_getElem hh, Option.getD_some] at hr hw hrw ⊢
  simp [applyWrites, Array.getElem_modify_self, hh, record, pending, hr, hw, hrw, Direction.reads, Direction.writes]

/-- A copy of a host matrix to the device answers the next handle, on a matrix of the host
    matrix's shape whose buffer holds at least one element and starts with the entries; every
    event recorded on it completed. -/
theorem fromHost_settled {m : Matrix} (hm : m.Stored) (c : Context) :
    ∃ c', (fromHost m).run.run c = .ok (.ok c.matrices.size, c') ∧ c'.Settled c.matrices.size ∧
      (c'.matrix c.matrices.size).rows = m.rows ∧ (c'.matrix c.matrices.size).cols = m.cols ∧
      (c'.matrix c.matrices.size).data.size = max 1 (m.rows * m.cols) ∧
      (c'.matrix c.matrices.size).data.extract 0 (m.rows * m.cols) = m.data := by
  let c₀ := c.pushMatrix (zeroMatrix m.rows m.cols)
  have hN : c₀.matrix c.matrices.size = zeroMatrix m.rows m.cols := by simp [c₀, matrix_pushMatrix]
  have hfrom : (fromHost m).run.run c =
      .ok (.ok c.matrices.size, if m.size = 0 then c₀ else c₀.written c.matrices.size m.data) := by
    rw [fromHost_run, alloc_run_of_reserve hm.reservable]
    rfl
  by_cases h0 : m.size = 0
  · -- an empty matrix: a buffer of one zero, and no copy
    have hdata : m.data = #[] := Array.eq_empty_of_size_eq_zero (hm.size.trans h0)
    refine ⟨c₀, by rw [hfrom, if_pos h0], fun e he => by simp [hN, zeroMatrix] at he, by rw [hN]; rfl,
      by rw [hN]; rfl, by simp [hN, zeroMatrix], ?_⟩
    rw [hN, hdata]
    simp [zeroMatrix, show m.rows * m.cols = 0 from h0]
  · -- the entries over the zero buffer, and the copy recorded as a write that completed
    have hpos : 0 < m.rows * m.cols := Nat.pos_of_ne_zero h0
    have hlt : c.matrices.size < c₀.matrices.size := by simp [c₀]
    have hmat := matrix_written_of_quiet hlt m.data (by rw [hN]; rfl) (by rw [hN]; rfl) (by rw [hN]; rfl)
    rw [hN] at hmat
    have hwrite : (c₀.written c.matrices.size m.data).isComplete c.events.size = true := by
      simp [written_eq, c₀, isComplete, event?]
    refine ⟨c₀.written c.matrices.size m.data, by rw [hfrom, if_neg h0], fun e he => ?_, by rw [hmat]; rfl,
      by rw [hmat]; rfl, ?_, ?_⟩
    · rw [hmat] at he
      simp only [zeroMatrix, List.nil_append, List.mem_append, List.mem_singleton, or_self] at he
      subst he
      exact hwrite
    · simp [hmat, zeroMatrix, hm.size, Nat.max_eq_right hpos]
    · simp [hmat, zeroMatrix, hm.size, Nat.max_eq_right hpos]

/-! ## The round trip -/

/-- A host matrix of any shape, empty ones included, copied to the device and back, on any
    context, comes back as itself: the same shape and the very same elements, so every bit of
    every element, NaN payloads and signed zeros included. The device buffer holds
    `max 1 (rows * cols)` elements, and afterwards the matrix's three event lists are empty. -/
theorem round_trip_keeps_bits (c : Context) (m : Matrix) (hm : m.Stored) :
    ∃ c₁ c₂, (fromHost m).run.run c = .ok (.ok c.matrices.size, c₁) ∧
      (c₁.matrix c.matrices.size).data.size = max 1 (m.rows * m.cols) ∧
      (toHost c.matrices.size).run.run c₁ = .ok (.ok m, c₂) ∧
      (c₂.matrix c.matrices.size).reads = [] ∧ (c₂.matrix c.matrices.size).writes = [] ∧
      (c₂.matrix c.matrices.size).readWrites = [] := by
  obtain ⟨c₁, hfrom, hs, hrows, hcols, hsize, hdata⟩ := fromHost_settled hm c
  obtain ⟨c₂, hto, hr, hw, hrw⟩ := toHost_of_settled hs
  refine ⟨c₁, c₂, hfrom, hsize, ?_, hr, hw, hrw⟩
  rw [hto, hrows, hcols, hdata]

/-- A negative zero goes to the device and comes back a negative zero. -/
theorem round_trip_negative_zero :
    Matrix.Stored ⟨1, 1, #[-0.0]⟩ ∧
      ∃ c₁ c₂, (fromHost ⟨1, 1, #[-0.0]⟩).run.run default = .ok (.ok 0, c₁) ∧
        (c₁.matrix 0).data.size = max 1 (1 * 1) ∧
        (toHost 0).run.run c₁ = .ok (.ok ⟨1, 1, #[-0.0]⟩, c₂) ∧
        (c₂.matrix 0).reads = [] ∧ (c₂.matrix 0).writes = [] ∧ (c₂.matrix 0).readWrites = [] :=
  ⟨⟨rfl, rfl⟩, round_trip_keeps_bits default ⟨1, 1, #[-0.0]⟩ ⟨rfl, rfl⟩⟩

end Context

end OffloadAlgebra
