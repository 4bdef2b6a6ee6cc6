import Mathlib
import OffloadAlgebra.Proofs.Session.Calls
/-!
  The accesses of a sequential run, and what waiting on the event lists finds.

  A call that records an event on a matrix makes an access of it: the copy of a non-empty host
  matrix writes its new matrix, and a launch accesses each matrix bound to one of its buffers in
  the buffer's direction (`Call.accesses`, `accessLog`).  A list drops only completed events, so
  the failed events on the lists of a matrix are the failed events that accessed it: on its write
  list those that wrote it, on its list of both all of them (`ListsTrack`).  Every call keeps
  this with its own accesses added (`ListsTrack.call`), so it holds before each call of a run
  from a context with no matrices (`listsTrack_contextBefore`).

  Waiting on the lists then reads the log.  A copy back to the host answers the contents of the
  matrix, or a device error exactly when an access of the matrix failed
  (`ListsTrack.copiesBack`).  A launch's event fails exactly when an earlier access that
  conflicts with one of its buffers failed, or its own work faults (`ListsTrack.launch`).  In a
  run, each answer is its call's on the context the calls before it left (`runCalls_answer`),
  which gives the answers of copies and launches in terms of the earlier calls
  (`runCalls_copy`, `runCalls_launch`).
-/

namespace OffloadAlgebra

open Context

namespace Context

/-! ## Lists, records and waits -/

section Lists

variable {c : Context} {l : List Nat} {d : Nat}

/-- A failed event is never dropped as completed. -/
theorem mem_pending_of_failed (hd : (c.failure? d).isSome) : d ∈ c.pending l ↔ d ∈ l := by
  simp [pending, isComplete_of_failure? hd]

theorem mem_record_of_failed {e : Nat} (hd : (c.failure? d).isSome) : d ∈ c.record l e ↔ d ∈ l ∨ d = e := by
  simp [record, mem_pending_of_failed hd]

theorem isSome_firstFailure_iff : (c.firstFailure? l).isSome ↔ ∃ d ∈ l, (c.failure? d).isSome :=
  List.findSome?_isSome_iff

/-- Waiting on events that a context already had finds what it found there. -/
theorem firstFailure_of_grows {c' : Context} (hg : c'.Grows c) (hl : ∀ d ∈ l, d < c.events.size) :
    c'.firstFailure? l = c.firstFailure? l := by
  induction l with
  | nil => rfl
  | cons d l ih =>
    simp only [firstFailure?, List.findSome?_cons] at ih ⊢
    rw [failure?_of_lt (hl d List.mem_cons_self) hg, ih fun d' hd' => hl d' (List.mem_cons_of_mem d hd')]

end Lists

theorem matrix_recorded (c : Context) (h : Nat) (dir : Direction) (e k : Nat) :
    (c.recorded h dir e).matrix k =
      if k = h ∧ k < c.matrices.size then
        { c.matrix k with reads := if dir.reads then c.record (c.matrix k).reads e else (c.matrix k).reads,
                          writes := if dir.writes then c.record (c.matrix k).writes e else (c.matrix k).writes,
                          readWrites := c.record (c.matrix k).readWrites e }
      else c.matrix k :=
  matrix_modify c h _ k

theorem matrix_cleared (c : Context) (h k : Nat) :
    (c.cleared h).matrix k =
      if k = h ∧ k < c.matrices.size then
        { c.matrix k with reads := c.pending (c.matrix k).reads, writes := c.pending (c.matrix k).writes,
                          readWrites := c.pending (c.matrix k).readWrites }
      else c.matrix k :=
  matrix_modify c h _ k

@[simp] theorem size_recorded (c : Context) (h : Nat) (dir : Direction) (e : Nat) :
    (c.recorded h dir e).matrices.size = c.matrices.size :=
  Array.size_modify ..

@[simp] theorem size_cleared (c : Context) (h : Nat) : (c.cleared h).matrices.size = c.matrices.size :=
  Array.size_modify ..

@[simp] theorem events_cleared (c : Context) (h : Nat) : (c.cleared h).events = c.events := rfl

/-- Recording event `e` on a matrix lists nothing on it but what it listed and `e`. -/
theorem mem_lists_recorded {c : Context} {h : Nat} {dir : Direction} {e k d : Nat}
    (hd : d ∈ ((c.recorded h dir e).matrix k).writes ++ ((c.recorded h dir e).matrix k).readWrites) :
    d ∈ (c.matrix k).writes ++ (c.matrix k).readWrites ∨ d = e := by
  rw [matrix_recorded] at hd
  split at hd
  · simp only [List.mem_append] at hd ⊢
    rcases hd with hd | hd
    · split at hd
      · exact (mem_record hd).imp .inl id
      · exact .inl (.inl hd)
    · exact (mem_record hd).imp .inr id
  · exact .inl hd

/-- Dropping completed events lists nothing new. -/
theorem mem_lists_cleared {c : Context} {h k d : Nat}
    (hd : d ∈ ((c.cleared h).matrix k).writes ++ ((c.cleared h).matrix k).readWrites) :
    d ∈ (c.matrix k).writes ++ (c.matrix k).readWrites := by
  rw [matrix_cleared] at hd
  split at hd
  · simp only [List.mem_append, pending, List.mem_filter] at hd ⊢
    exact hd.imp And.left And.left
  · exact hd

/-! ## How a command ends -/

/-- A command's own event carries its label, and fails exactly when its outcome is an error. -/
theorem events_runCommand_self (c : Context) (label : String) (waits : List Nat)
    (work : Context → Except Fault (List (Nat × Array Float))) :
    ∃ st, (c.runCommand label waits work).events[c.events.size]? = some ⟨label, st⟩ ∧
      ((∃ m, st = .failed m) ↔ ∃ m, c.outcome waits work = .error m) := by
  rw [events_runCommand, Array.getElem?_push_size]
  refine ⟨_, rfl, ?_⟩
  cases c.outcome waits work <;> simp

theorem isSome_failure_runCommand (c : Context) (label : String) (waits : List Nat)
    (work : Context → Except Fault (List (Nat × Array Float))) :
    ((c.runCommand label waits work).failure? c.events.size).isSome ↔ ∃ m, c.outcome waits work = .error m := by
  obtain ⟨st, hst, hiff⟩ := events_runCommand_self c label waits work
  rw [← hiff]
  simp only [failure?, event?, hst]
  cases st <;> simp

/-- A command fails when an event of its wait list failed, or past its wait list, when its work
    faults. -/
theorem outcome_eq_error_iff {c : Context} {waits : List Nat} {work : Context → Except Fault (List (Nat × Array Float))} :
    (∃ m, c.outcome waits work = .error m) ↔ (c.firstFailure? waits).isSome ∨ ∃ f, work c = .error f := by
  unfold outcome
  cases c.firstFailure? waits with
  | some x => simp
  | none =>
    cases hw : work c with
    | ok ws =>
      have : (Except.ok ws : Except Fault _).mapError Fault.text = .ok ws := rfl
      simp [this]
    | error f =>
      have : (Except.error f : Except Fault (List (Nat × Array Float))).mapError Fault.text = .error f.text := rfl
      simp [this]

end Context

/-! ## The accesses of a run -/

/-- The accesses a call recorded when it answered `r` on context `c`, each with its event, the
    matrix and the direction: the write of a copy of a non-empty host matrix onto its new matrix,
    or a launch on each matrix bound to one of its buffers, in the buffer's direction. -/
def Call.accesses (c : Context) : Call → Except Error Reply → List (Nat × Nat × Direction)
  | .fromHost m, .ok (.handle h) => if m.size = 0 then [] else [(c.events.size, h, .output)]
  | .invoke spec _ args, .ok (.event e) =>
    ((bufferBindings spec.signature args).filter fun b => b.2.1 < c.matrices.size).map fun b => (e, b.2.1, b.2.2)
  | _, _ => []

/-- The accesses of a sequential run, call after call; the run stops at a panic. -/
def accessLog (c : Context) : List Call → List (Nat × Nat × Direction)
  | [] => []
  | call :: cs =>
    match call.run.run.run c with
    | .error _ => []
    | .ok (r, c') => call.accesses c r ++ accessLog c' cs

section Log

variable {log : List (Nat × Nat × Direction)} {d k e h : Nat} {dir : Direction}

theorem exists_access_append {P : Direction → Prop} :
    (∃ dir', (d, k, dir') ∈ log ++ [(e, h, dir)] ∧ P dir') ↔
      (∃ dir', (d, k, dir') ∈ log ∧ P dir') ∨ (d = e ∧ k = h ∧ P dir) := by
  simp only [List.mem_append, List.mem_singleton, Prod.mk.injEq]
  constructor
  · rintro ⟨dir', hl | ⟨rfl, rfl, rfl⟩, hp⟩
    · exact .inl ⟨dir', hl, hp⟩
    · exact .inr ⟨rfl, rfl, hp⟩
  · rintro (⟨dir', hl, hp⟩ | ⟨rfl, rfl, hp⟩)
    · exact ⟨dir', .inl hl, hp⟩
    · exact ⟨dir, .inr ⟨rfl, rfl, rfl⟩, hp⟩

theorem exists_access_append' :
    (∃ dir', (d, k, dir') ∈ log ++ [(e, h, dir)]) ↔ (∃ dir', (d, k, dir') ∈ log) ∨ (d = e ∧ k = h) := by
  simpa using exists_access_append (P := fun _ => True)

end Log

/-- The lists of the matrices of `c` track the accesses `log`: accesses and lists name events and
    matrices that exist, and a failed event is on the write list of a matrix exactly when it
    wrote the matrix, and on its list of both exactly when it accessed it. -/
structure ListsTrack (log : List (Nat × Nat × Direction)) (c : Context) : Prop where
  log_lt : ∀ a ∈ log, a.1 < c.events.size ∧ a.2.1 < c.matrices.size
  lists_lt : ∀ h, ∀ e ∈ (c.matrix h).writes ++ (c.matrix h).readWrites, e < c.events.size
  writes : ∀ h e, (c.failure? e).isSome →
    (e ∈ (c.matrix h).writes ↔ ∃ dir, (e, h, dir) ∈ log ∧ dir.writes = true)
  readWrites : ∀ h e, (c.failure? e).isSome → (e ∈ (c.matrix h).readWrites ↔ ∃ dir, (e, h, dir) ∈ log)

namespace ListsTrack

variable {log : List (Nat × Nat × Direction)} {c c' : Context}

/-! ## What each change of a context keeps -/

/-- A context with no matrices tracks no access. -/
theorem empty (hm : c.matrices = #[]) : ListsTrack [] c where
  log_lt := by simp
  lists_lt h e he := by simp [matrix, hm] at he
  writes h e _ := by simp [matrix, hm]
  readWrites h e _ := by simp [matrix, hm]

/-- An event past the last one is on no list and in no access. -/
theorem not_mem_of_le (ht : ListsTrack log c) {e : Nat} (he : c.events.size ≤ e) (h : Nat) :
    e ∉ (c.matrix h).writes ∧ e ∉ (c.matrix h).readWrites ∧ ∀ dir, (e, h, dir) ∉ log := by
  refine ⟨fun hw => ?_, fun hrw => ?_, fun dir hl => ?_⟩
  · exact absurd (ht.lists_lt h e (List.mem_append_left _ hw)) (Nat.not_lt.mpr he)
  · exact absurd (ht.lists_lt h e (List.mem_append_right _ hrw)) (Nat.not_lt.mpr he)
  · exact absurd (ht.log_lt _ hl).1 (Nat.not_lt.mpr he)

/-- A context with the same lists as `c` and more events tracks what `c` tracks: the new events
    are on no list and in no access. -/
theorem of_lists (ht : ListsTrack log c) (hsize : c'.matrices.size = c.matrices.size)
    (hw : ∀ h, (c'.matrix h).writes = (c.matrix h).writes)
    (hrw : ∀ h, (c'.matrix h).readWrites = (c.matrix h).readWrites) (hg : c'.Grows c) : ListsTrack log c' := by
  have hle := hg.size_le
  refine ⟨fun a ha => ?_, fun h e he => ?_, fun h e hf => ?_, fun h e hf => ?_⟩
  · obtain ⟨he, hh⟩ := ht.log_lt a ha
    exact ⟨Nat.lt_of_lt_of_le he hle, hsize ▸ hh⟩
  · rw [hw, hrw] at he
    exact Nat.lt_of_lt_of_le (ht.lists_lt h e he) hle
  · by_cases he : e < c.events.size
    · rw [hw]
      exact ht.writes h e (by rwa [failure?_of_lt he hg] at hf)
    · obtain ⟨hnw, -, hnl⟩ := ht.not_mem_of_le (Nat.le_of_not_lt he) h
      simp [hw, hnw, hnl]
  · by_cases he : e < c.events.size
    · rw [hrw]
      exact ht.readWrites h e (by rwa [failure?_of_lt he hg] at hf)
    · obtain ⟨-, hnrw, hnl⟩ := ht.not_mem_of_le (Nat.le_of_not_lt he) h
      simp [hrw, hnrw, hnl]

theorem of_keeps (ht : ListsTrack log c) (hk : c'.Keeps c) (hg : c'.Grows c) : ListsTrack log c' :=
  ht.of_lists hk.frame.size hk.writes hk.readWrites hg

/-- New counters change no list. -/
theorem setMetrics (ht : ListsTrack log c) (m : Telemetry.Metrics) : ListsTrack log { c with metrics := m } :=
  ht.of_lists rfl (fun _ => rfl) (fun _ => rfl) (.of_events rfl)

/-- A new matrix with empty lists has no access yet. -/
theorem pushMatrix (ht : ListsTrack log c) {m : DeviceMatrix} (hw : m.writes = []) (hrw : m.readWrites = []) :
    ListsTrack log (c.pushMatrix m) := by
  -- a matrix past the old ones has empty lists and is in no access
  have hnew : ∀ h, c.matrices.size ≤ h →
      ((c.pushMatrix m).matrix h).writes = [] ∧ ((c.pushMatrix m).matrix h).readWrites = [] ∧
        ∀ e dir, (e, h, dir) ∉ log := by
    intro h hh
    refine ⟨?_, ?_, fun e dir hl => absurd (ht.log_lt _ hl).2 (Nat.not_lt.mpr hh)⟩ <;>
    · rw [matrix_pushMatrix, if_neg (Nat.not_lt.mpr hh)]
      split
      · assumption
      · rfl
  refine ⟨fun a ha => ?_, fun h e he => ?_, fun h e hf => ?_, fun h e hf => ?_⟩
  · obtain ⟨he, hh⟩ := ht.log_lt a ha
    exact ⟨he, by simp; omega⟩
  · by_cases hh : h < c.matrices.size
    · rw [matrix_pushMatrix_of_lt c m hh] at he
      exact ht.lists_lt h e he
    · obtain ⟨hw', hrw', -⟩ := hnew h (Nat.le_of_not_lt hh)
      simp [hw', hrw'] at he
  · by_cases hh : h < c.matrices.size
    · rw [matrix_pushMatrix_of_lt c m hh]
      exact ht.writes h e hf
    · obtain ⟨hw', -, hnl⟩ := hnew h (Nat.le_of_not_lt hh)
      simp [hw', hnl]
  · by_cases hh : h < c.matrices.size
    · rw [matrix_pushMatrix_of_lt c m hh]
      exact ht.readWrites h e hf
    · obtain ⟨-, hrw', hnl⟩ := hnew h (Nat.le_of_not_lt hh)
      simp [hrw', hnl]

/-- Recording an event on a matrix adds it as an access of the matrix. -/
theorem recorded (ht : ListsTrack log c) {h e : Nat} (dir : Direction) (hh : h < c.matrices.size)
    (he : e < c.events.size) : ListsTrack (log ++ [(e, h, dir)]) (c.recorded h dir e) := by
  have hfail : ∀ d, (c.recorded h dir e).failure? d = c.failure? d := fun _ => rfl
  refine ⟨fun a ha => ?_, fun k d hd => ?_, fun k d hf => ?_, fun k d hf => ?_⟩
  · rcases List.mem_append.mp ha with ha | ha
    · simpa using ht.log_lt a ha
    · rw [List.mem_singleton] at ha
      subst ha
      simpa using ⟨he, hh⟩
  · rcases mem_lists_recorded hd with hd | rfl
    · exact ht.lists_lt k d hd
    · exact he
  · rw [hfail] at hf
    rw [exists_access_append, ← ht.writes k d hf, matrix_recorded]
    split
    · rename_i hk
      obtain ⟨rfl, -⟩ := hk
      dsimp only
      cases dir.writes
      · simp
      · simp [mem_record_of_failed hf]
    · -- another matrix, which the new access is not of
      rename_i hk
      refine (or_iff_left ?_).symm
      rintro ⟨-, rfl, -⟩
      exact hk ⟨rfl, hh⟩
  · rw [hfail] at hf
    rw [exists_access_append', ← ht.readWrites k d hf, matrix_recorded]
    split
    · rename_i hk
      obtain ⟨rfl, -⟩ := hk
      simp [mem_record_of_failed hf]
    · rename_i hk
      refine (or_iff_left ?_).symm
      rintro ⟨-, rfl⟩
      exact hk ⟨rfl, hh⟩

/-- Recording an event on a handle past the matrices changes nothing. -/
theorem recorded_of_le (ht : ListsTrack log c) {h : Nat} (dir : Direction) (hh : c.matrices.size ≤ h) (e : Nat) :
    ListsTrack log (c.recorded h dir e) := by
  have hm : ∀ k, (c.recorded h dir e).matrix k = c.matrix k := fun k => by
    rw [matrix_recorded, if_neg]
    rintro ⟨rfl, hk⟩
    exact absurd hk (Nat.not_lt.mpr hh)
  exact ht.of_lists (size_recorded ..) (fun k => by rw [hm]) (fun k => by rw [hm]) (.of_events rfl)

/-- Recording a launch's event on each of its buffers adds an access for each buffer bound to a
    matrix. -/
theorem foldl_recorded (ht : ListsTrack log c) {e : Nat} (he : e < c.events.size)
    (binds : List (Nat × Nat × Direction)) :
    ListsTrack (log ++ (binds.filter fun b => b.2.1 < c.matrices.size).map fun b => (e, b.2.1, b.2.2))
      (binds.foldl (fun c b => c.recorded b.2.1 b.2.2 e) c) := by
  induction binds generalizing log c with
  | nil => simpa using ht
  | cons b binds ih =>
    obtain ⟨p, h, dir⟩ := b
    simp only [List.foldl_cons, List.filter_cons]
    by_cases hh : h < c.matrices.size
    · simpa [hh] using ih (ht.recorded dir hh he) (by simpa using he)
    · simpa [hh] using ih (ht.recorded_of_le dir (Nat.le_of_not_lt hh) e) (by simpa using he)

/-- Dropping the completed events of a matrix keeps what its lists track. -/
theorem cleared (ht : ListsTrack log c) (h : Nat) : ListsTrack log (c.cleared h) := by
  have hmem : ∀ k d, (c.failure? d).isSome →
      (d ∈ ((c.cleared h).matrix k).writes ↔ d ∈ (c.matrix k).writes) ∧
        (d ∈ ((c.cleared h).matrix k).readWrites ↔ d ∈ (c.matrix k).readWrites) := by
    intro k d hf
    rw [matrix_cleared]
    split
    · exact ⟨mem_pending_of_failed hf, mem_pending_of_failed hf⟩
    · exact ⟨.rfl, .rfl⟩
  refine ⟨fun a ha => ?_, fun k d hd => ht.lists_lt k d (mem_lists_cleared hd), fun k d hf => ?_, fun k d hf => ?_⟩
  · simpa using ht.log_lt a ha
  · rw [(hmem k d hf).1]
    exact ht.writes k d hf
  · rw [(hmem k d hf).2]
    exact ht.readWrites k d hf

/-! ## What each call keeps -/

/-- An allocation adds a matrix with empty lists, or changes nothing. -/
theorem alloc (ht : ListsTrack log c) {rows cols : Nat} {r : Except Error Nat}
    (ha : (alloc rows cols).run.run c = .ok (r, c')) : ListsTrack log c' := by
  rcases alloc_run_cases ha with ⟨-, rfl, -⟩ | ⟨-, rfl, -⟩
  · exact ht
  · exact ht.pushMatrix rfl rfl

/-- A copy of host data into matrix `h` runs at once and is recorded on the matrix as a write. -/
theorem written (ht : ListsTrack log c) {h : Nat} (hh : h < c.matrices.size) (data : Array Float) :
    ListsTrack (log ++ [(c.events.size, h, .output)]) (c.written h data) := by
  have hk := keeps_runCommand c "write_buffer" [] (writeWork h data)
  refine ((ht.of_keeps hk (grows_runCommand _ _ _ _)).setMetrics _).recorded .output ?_ ?_
  · simpa [hk.frame.size] using hh
  · simp

/-- A copy back to the host changes no list but to drop completed events. -/
theorem finishRead (ht : ListsTrack log c) (h e : Nat) : ListsTrack log (c.finishRead h e).2 := by
  unfold Context.finishRead
  split
  · exact ht
  · dsimp only
    split
    · exact ht.setMetrics _
    · exact (ht.setMetrics _).cleared h

/-- A call keeps the lists tracking the accesses, its own added. -/
theorem call (ht : ListsTrack log c) {call : Call} {r : Except Error Reply} (hrun : call.run.run.run c = .ok (r, c')) :
    ListsTrack (log ++ call.accesses c r) c' := by
  cases call with
  | zeros rows cols =>
    rw [Call.run_zeros] at hrun
    cases ha : (Context.alloc rows cols).run.run c with
    | error p => simp [ha] at hrun
    | ok rc =>
      obtain ⟨r', c₁⟩ := rc
      simp only [ha, Except.map_ok, Except.ok.injEq, Prod.mk.injEq] at hrun
      obtain ⟨-, rfl⟩ := hrun
      simpa [Call.accesses] using ht.alloc ha
  | fromHost m =>
    rw [Call.run_fromHost, fromHost_run] at hrun
    cases ha : (Context.alloc m.rows m.cols).run.run c with
    | error p => simp [ha] at hrun
    | ok rc =>
      obtain ⟨r', c₁⟩ := rc
      rcases alloc_run_cases ha with ⟨⟨err, rfl⟩, rfl, -⟩ | ⟨rfl, rfl, -⟩
      · simp only [ha, Except.map_ok, Except.ok.injEq, Prod.mk.injEq] at hrun
        obtain ⟨rfl, rfl⟩ := hrun
        simpa [Call.accesses] using ht
      · -- a new matrix, and unless the host matrix is empty, the write of its data
        simp only [ha, Except.map_ok, Except.ok.injEq, Prod.mk.injEq] at hrun
        obtain ⟨rfl, rfl⟩ := hrun
        have hp := ht.pushMatrix (m := zeroMatrix m.rows m.cols) rfl rfl
        by_cases hm : m.size = 0
        · simpa [Call.accesses, hm] using hp
        · simpa [Call.accesses, hm] using hp.written (by simp) m.data
  | invoke spec range args =>
    rw [Call.run_invoke] at hrun
    obtain ⟨r', ks, f, hp⟩ := prepareLaunch_run_ok spec range args c
    -- the checks and build change only the kernel table and the counters
    let c₁ : Context := { c with kernels := ks, metrics := f c.metrics }
    have ht₁ : ListsTrack log c₁ := ht.of_lists rfl (fun _ => rfl) (fun _ => rfl) (.of_events rfl)
    cases r' with
    | error err =>
      rw [invoke_run_of_error hp] at hrun
      simp only [Except.map_ok, Except.ok.injEq, Prod.mk.injEq] at hrun
      obtain ⟨rfl, rfl⟩ := hrun
      simpa [Call.accesses] using ht₁
    | ok k =>
      -- the launch runs at once, then is recorded on each of its buffers
      rw [invoke_run_of_ok hp] at hrun
      simp only [Except.map_ok, Except.ok.injEq, Prod.mk.injEq] at hrun
      obtain ⟨rfl, rfl⟩ := hrun
      let binds := bufferBindings spec.signature args
      have hk := keeps_runCommand c₁ spec.name (c₁.launchWaits binds) (launchWork k spec range args)
      have ht₂ := (ht₁.of_keeps hk (grows_runCommand _ _ _ _)).foldl_recorded (e := c.events.size) (by simp [c₁]) binds
      rw [hk.frame.size] at ht₂
      exact ht₂.setMetrics _
  | toHost h =>
    rw [Call.run_toHost, toHost_run] at hrun
    simp only [Except.map_ok, Except.ok.injEq, Prod.mk.injEq] at hrun
    obtain ⟨-, rfl⟩ := hrun
    simpa [Call.accesses] using
      (ht.of_keeps (keeps_runCommand c _ _ _) (grows_runCommand _ _ _ _)).finishRead h c.events.size

/-- A sequential run keeps the lists tracking the accesses, those of its calls added. -/
theorem calls (ht : ListsTrack log c) (cs : List Call) : ListsTrack (log ++ accessLog c cs) (runCalls c cs).2 := by
  induction cs generalizing log c with
  | nil => simpa [accessLog, runCalls] using ht
  | cons call cs ih =>
    cases hrun : call.run.run.run c with
    | error p => simpa [accessLog, runCalls, hrun] using ht
    | ok rc =>
      obtain ⟨r, c'⟩ := rc
      rw [runCalls_cons_ok hrun]
      simpa [accessLog, hrun] using ih (ht.call hrun)

end ListsTrack

/-! ## The context before each call -/

/-- The context a sequential run of `calls` reaches before its call `i`. -/
def contextBefore (ctx : Context) (calls : List Call) (i : Nat) : Context := (runCalls ctx (calls.take i)).2

/-- Answer `i` of a sequential run is what call `i` answers on the context the calls before it
    left, and when it does not panic, the context it leaves is the one before the next call. -/
theorem runCalls_answer {ctx : Context} {calls : List Call} {i : Nat} {a : Answer}
    (ha : (runCalls ctx calls).1[i]? = some a) :
    ∃ call, calls[i]? = some call ∧ a = (call.run.run.run (contextBefore ctx calls i)).map Prod.fst ∧
      ∀ r c', call.run.run.run (contextBefore ctx calls i) = .ok (r, c') → contextBefore ctx calls (i + 1) = c' := by
  induction calls generalizing ctx i with
  | nil => simp [runCalls] at ha
  | cons call cs ih =>
    cases hrun : call.run.run.run ctx with
    | error p =>
      -- a panic is the last answer
      rw [runCalls_cons_panic hrun] at ha
      obtain ⟨rfl, rfl⟩ : i = 0 ∧ a = .error p := by
        cases i with
        | zero => simpa using ha.symm
        | succ i => simp at ha
      exact ⟨call, rfl, by simp [contextBefore, runCalls, hrun], fun r c' h => by simp [contextBefore, runCalls, hrun] at h⟩
    | ok rc =>
      obtain ⟨r, c'⟩ := rc
      rw [runCalls_cons_ok hrun] at ha
      cases i with
      | zero =>
        simp only [List.getElem?_cons_zero, Option.some.injEq] at ha
        refine ⟨call, rfl, by simp [contextBefore, runCalls, hrun, ← ha], fun r' c'' h => ?_⟩
        have h' : call.run.run.run ctx = .ok (r', c'') := h
        rw [hrun] at h'
        obtain ⟨-, rfl⟩ := Prod.mk.inj (Except.ok.inj h')
        simp [contextBefore, runCalls, hrun]
      | succ i =>
        -- past the first call, the run goes on from the context it left
        have hb : ∀ j, contextBefore ctx (call :: cs) (j + 1) = contextBefore c' cs j := fun j => by
          simp [contextBefore, runCalls, hrun]
        obtain ⟨call', hcall, rfl, hnext⟩ := ih (by simpa using ha)
        refine ⟨call', by simpa using hcall, by rw [hb], fun r' c'' h => ?_⟩
        rw [hb] at h ⊢
        exact hnext r' c'' h

/-- The context before a call keeps its events to the end of the run. -/
theorem grows_contextBefore (ctx : Context) (calls : List Call) (i : Nat) :
    (runCalls ctx calls).2.Grows (contextBefore ctx calls i) := by
  induction calls generalizing ctx i with
  | nil => simpa [contextBefore, runCalls] using Grows.refl ctx
  | cons call cs ih =>
    cases i with
    | zero => simpa [contextBefore, runCalls] using runCalls_grows ctx (call :: cs)
    | succ i =>
      cases hrun : call.run.run.run ctx with
      | error p => simpa [contextBefore, runCalls, hrun] using Grows.refl ctx
      | ok rc =>
        obtain ⟨r, c'⟩ := rc
        simpa [contextBefore, runCalls, hrun] using ih c' i

/-- Before each call of a run from a context with no matrices, the lists track the accesses of
    the calls before it. -/
theorem listsTrack_contextBefore {ctx : Context} (hm : ctx.matrices = #[]) (calls : List Call) (i : Nat) :
    ListsTrack (accessLog ctx (calls.take i)) (contextBefore ctx calls i) := by
  simpa [contextBefore] using (ListsTrack.empty hm).calls (calls.take i)

/-! ## What waiting on the lists finds -/

/-- Some access of matrix `h` in `log` was by an event that failed in `c`. -/
def AccessFailed (log : List (Nat × Nat × Direction)) (c : Context) (h : Nat) : Prop :=
  ∃ d dir, (d, h, dir) ∈ log ∧ (c.failure? d).isSome

/-- Some access in `log` conflicts with a binding of a launch and was by an event that failed in
    `c`: an access of the bound matrix where the binding or the access writes. -/
def ConflictFailed (log : List (Nat × Nat × Direction)) (c : Context) (binds : List (Nat × Nat × Direction)) : Prop :=
  ∃ b ∈ binds, ∃ d dir, (d, b.2.1, dir) ∈ log ∧ (b.2.2.writes || dir.writes) = true ∧ (c.failure? d).isSome

/-- What a copy of matrix `h` back to the host answers on `c` after the accesses `log`: the first
    `rows * cols` elements of the matrix when no access of it failed, and a device error
    otherwise. -/
def CopiesBack (log : List (Nat × Nat × Direction)) (c : Context) (h : Nat) (r : Except Error Reply) : Prop :=
  (¬ AccessFailed log c h ∧
      r = .ok (.host ⟨(c.matrix h).rows, (c.matrix h).cols,
        (c.matrix h).data.extract 0 ((c.matrix h).rows * (c.matrix h).cols)⟩)) ∨
    (AccessFailed log c h ∧ ∃ msg, r = .error (.device msg))

namespace ListsTrack

variable {log : List (Nat × Nat × Direction)} {c : Context}

/-- A launch waits on a failed event exactly when the event made a conflicting access of one of
    its buffers. -/
theorem failed_mem_launchWaits (ht : ListsTrack log c) {d : Nat} (hf : (c.failure? d).isSome)
    (binds : List (Nat × Nat × Direction)) :
    d ∈ c.launchWaits binds ↔ ∃ b ∈ binds, ∃ dir, (d, b.2.1, dir) ∈ log ∧ (b.2.2.writes || dir.writes) = true := by
  simp only [launchWaits, List.mem_flatMap]
  refine exists_congr fun b => and_congr_right fun _ => ?_
  obtain ⟨p, h, dirb⟩ := b
  -- an input waits on the writers, an output on every access
  cases dirb with
  | input => simpa [Direction.writes] using ht.writes h d hf
  | output | inputOutput => simpa [Direction.writes] using ht.readWrites h d hf

theorem isSome_firstFailure_launchWaits (ht : ListsTrack log c) (binds : List (Nat × Nat × Direction)) :
    (c.firstFailure? (c.launchWaits binds)).isSome ↔ ConflictFailed log c binds := by
  rw [isSome_firstFailure_iff]
  constructor
  · rintro ⟨d, hd, hf⟩
    obtain ⟨b, hb, dir, hl, hw⟩ := (ht.failed_mem_launchWaits hf binds).mp hd
    exact ⟨b, hb, d, dir, hl, hw, hf⟩
  · rintro ⟨b, hb, d, dir, hl, hw, hf⟩
    exact ⟨d, (ht.failed_mem_launchWaits hf binds).mpr ⟨b, hb, dir, hl, hw⟩, hf⟩

theorem isSome_firstFailure_readWrites (ht : ListsTrack log c) (h : Nat) :
    (c.firstFailure? (c.matrix h).readWrites).isSome ↔ AccessFailed log c h := by
  rw [isSome_firstFailure_iff]
  constructor
  · rintro ⟨d, hd, hf⟩
    obtain ⟨dir, hl⟩ := (ht.readWrites h d hf).mp hd
    exact ⟨d, dir, hl, hf⟩
  · rintro ⟨d, dir, hl, hf⟩
    exact ⟨d, (ht.readWrites h d hf).mpr ⟨dir, hl⟩, hf⟩

theorem accessFailed_of_firstFailure_writes (ht : ListsTrack log c) {h : Nat}
    (hw : (c.firstFailure? (c.matrix h).writes).isSome) : AccessFailed log c h := by
  obtain ⟨d, hd, hf⟩ := isSome_firstFailure_iff.mp hw
  obtain ⟨dir, hl, -⟩ := (ht.writes h d hf).mp hd
  exact ⟨d, dir, hl, hf⟩

/-- A copy back to the host answers the contents of the matrix, or a device error exactly when an
    access of the matrix failed. -/
theorem copiesBack (ht : ListsTrack log c) (h : Nat) :
    ∃ r c', (Call.toHost h).run.run.run c = .ok (r, c') ∧ CopiesBack log c h r := by
  rw [Call.run_toHost, toHost_run]
  set c₁ := c.runCommand "read_buffer" (c.matrix h).writes (fun _ => .ok []) with hc₁
  have hm : c₁.matrix h = c.matrix h := by simp only [c₁, matrix, matrices_runCommand_nil]
  -- the read fails exactly when a writer of the matrix failed
  have hread : (c₁.failure? c.events.size).isSome ↔ (c.firstFailure? (c.matrix h).writes).isSome := by
    rw [hc₁, isSome_failure_runCommand, outcome_eq_error_iff]
    simp
  -- the list of both holds only events older than the read, which ended as they had
  have hwait : c₁.firstFailure? (c.matrix h).readWrites = c.firstFailure? (c.matrix h).readWrites :=
    firstFailure_of_grows (grows_runCommand _ _ _ _) fun d hd => ht.lists_lt h d (List.mem_append_right _ hd)
  refine ⟨((c₁.finishRead h c.events.size).1).map .host, (c₁.finishRead h c.events.size).2, rfl, ?_⟩
  unfold Context.finishRead
  cases hr : c₁.failure? c.events.size with
  | some x =>
    have hf := ht.accessFailed_of_firstFailure_writes (hread.mp (by simp [hr]))
    exact .inr ⟨hf, x.2, rfl⟩
  | none =>
    cases hw : c.firstFailure? (c.matrix h).readWrites with
    | some y =>
      have hf := (ht.isSome_firstFailure_readWrites h).mp (by simp [hw])
      refine .inr ⟨hf, y.2, ?_⟩
      simp [hm, hwait, hw]
    | none =>
      have hf : ¬ AccessFailed log c h := fun hf => by
        simpa [hw] using (ht.isSome_firstFailure_readWrites h).mpr hf
      refine .inl ⟨hf, ?_⟩
      simp [hm, hwait, hw]

/-- A launch whose checks and build pass answers a new event with its kernel's name, which fails
    exactly when an earlier conflicting access failed or its work faults on the memory as it
    is. -/
theorem launch (ht : ListsTrack log c) {spec : KernelSpec} {range : NdRange} {args : List KernelArg}
    {k : CompiledKernel} {c₁ : Context} (hp : (prepareLaunch spec range args).run.run c = .ok (.ok k, c₁)) :
    ∃ c' st, (Call.invoke spec range args).run.run.run c = .ok (.ok (.event c.events.size), c') ∧
      c'.events[c.events.size]? = some ⟨spec.name, st⟩ ∧
      ((∃ m, st = .failed m) ↔
        ConflictFailed log c (bufferBindings spec.signature args) ∨ ∃ f, launchWork k spec range args c = .error f) := by
  -- the checks and build change only the kernel table and the counters
  obtain ⟨r', ks, f, hp'⟩ := prepareLaunch_run_ok spec range args c
  rw [hp] at hp'
  obtain ⟨-, rfl⟩ := Prod.mk.inj (Except.ok.inj hp')
  let c₁ : Context := { c with kernels := ks, metrics := f c.metrics }
  obtain ⟨st, hst, hiff⟩ := events_runCommand_self c₁ spec.name (c₁.launchWaits (bufferBindings spec.signature args))
    (launchWork k spec range args)
  rw [Call.run_invoke, invoke_run_of_ok hp]
  -- recording the event and counting the launch keep the events
  refine ⟨_, st, rfl, by simpa using hst, ?_⟩
  rw [hiff, outcome_eq_error_iff, ← ht.isSome_firstFailure_launchWaits]
  rfl

end ListsTrack

/-! ## The answers of a run -/

section Answers

variable {ctx₀ : Context} {calls : List Call} {i : Nat}

/-- In a run from a context with no matrices, a copy back to the host answers the contents the
    calls before it left in the matrix, or a device error exactly when an access of the matrix by
    one of them failed. -/
theorem runCalls_copy (hm : ctx₀.matrices = #[]) {h : Nat} {a : Answer} (hcall : calls[i]? = some (.toHost h))
    (ha : (runCalls ctx₀ calls).1[i]? = some a) :
    ∃ r, a = .ok r ∧ CopiesBack (accessLog ctx₀ (calls.take i)) (contextBefore ctx₀ calls i) h r := by
  obtain ⟨call, hcall', rfl, -⟩ := runCalls_answer ha
  obtain rfl := Option.some.inj (hcall'.symm.trans hcall)
  obtain ⟨r, c', hrun, hcopy⟩ := (listsTrack_contextBefore hm calls i).copiesBack h
  exact ⟨r, by rw [hrun]; rfl, hcopy⟩

/-- In a run from a context with no matrices, a launch that answers an event passed its checks
    and build, and its event fails exactly when an access by an earlier call that conflicts with
    one of its buffers failed, or its work faults on the memory the earlier calls left. -/
theorem runCalls_launch (hm : ctx₀.matrices = #[]) {spec : KernelSpec} {range : NdRange} {args : List KernelArg}
    {e : Nat} (hcall : calls[i]? = some (.invoke spec range args))
    (ha : (runCalls ctx₀ calls).1[i]? = some (.ok (.ok (.event e)))) :
    ∃ k c₁, (prepareLaunch spec range args).run.run (contextBefore ctx₀ calls i) = .ok (.ok k, c₁) ∧
      ∃ st, (runCalls ctx₀ calls).2.events[e]? = some ⟨spec.name, st⟩ ∧
        ((∃ m, st = .failed m) ↔
          ConflictFailed (accessLog ctx₀ (calls.take i)) (contextBefore ctx₀ calls i)
              (bufferBindings spec.signature args) ∨
            ∃ f, launchWork k spec range args (contextBefore ctx₀ calls i) = .error f) := by
  obtain ⟨call, hcall', hans, hnext⟩ := runCalls_answer ha
  obtain rfl := Option.some.inj (hcall'.symm.trans hcall)
  obtain ⟨r', ks, f, hp⟩ := prepareLaunch_run_ok spec range args (contextBefore ctx₀ calls i)
  cases r' with
  | error err =>
    -- a launch refused by its checks answers the error, not an event
    rw [Call.run_invoke, invoke_run_of_error hp] at hans
    cases hans
  | ok k =>
    obtain ⟨c', st, hrun, hst, hiff⟩ := (listsTrack_contextBefore hm calls i).launch hp
    rw [hrun] at hans
    obtain rfl : e = (contextBefore ctx₀ calls i).events.size := by simpa using hans
    -- the rest of the run keeps the event as the launch left it
    have hg : (runCalls ctx₀ calls).2.Grows c' := hnext _ _ hrun ▸ grows_contextBefore ctx₀ calls (i + 1)
    refine ⟨k, _, hp, st, ?_, hiff⟩
    rw [hg _ (Array.getElem?_eq_some_iff.mp hst).1, hst]

end Answers

end OffloadAlgebra
