import OffloadAlgebra.Device.MatrixEvents
import Mathlib.Data.Finset.Card
/-!
  The event lists of a device matrix under every interleaving of its threads.

  The list of both is not the union of the read and the write list as a list: each list drops
  completed events only when something is pushed onto it or a wait clears it, so a completed
  event may be gone from one list and still be on another.  What holds, in every state the
  threads reach (`Invariant`), is that each list is the history of the events recorded on it,
  in order, with some completed events dropped and no other (`Keeps`).  Every recorded event
  goes on the list of both and on the read or the write list, so the three lists agree on
  their events that have not completed (`Tracks.incomplete_union`); an event that has not
  completed is never removed, and a failed one never completes (`Runs.staysOn`).

  A wait that copied the list of both knows, while it waits, where each event of that list that
  has not completed is: among the events it has still to wait on, or among those recorded since
  its copy (`Covers`).  When it has waited on them all and nothing was recorded since, every
  event of the lists has completed, and the wait leaves all three lists empty
  (`lists_empty_of_wait`).
-/

namespace OffloadAlgebra

namespace Statuses

variable {σ σ' σ'' : Statuses} {e : Nat}

@[simp] theorem isComplete_eq_true_iff : σ.isComplete e = true ↔ σ e = some .complete := by
  simp [isComplete]

theorem Later.refl (σ : Statuses) : σ.Later σ := fun _ _ h => h

theorem Later.trans (h₁ : σ.Later σ') (h₂ : σ'.Later σ'') : σ.Later σ'' := fun e s h => h₂ e s (h₁ e s h)

theorem later_finish (σ : Statuses) (e : Nat) (s : Status) : σ.Later (σ.finish e s) := by
  intro d s' h
  unfold finish
  split
  · rename_i hd
    rw [← hd, h]
    rfl
  · exact h

theorem Later.isComplete (h : σ.Later σ') (hc : σ.isComplete e = true) : σ'.isComplete e = true := by
  rw [isComplete_eq_true_iff] at hc ⊢
  exact h e _ hc

/-- An event that has not completed had not completed before. -/
theorem Later.not_isComplete (h : σ.Later σ') (hc : σ'.isComplete e = false) : σ.isComplete e = false := by
  cases hc₀ : σ.isComplete e with
  | false => rfl
  | true => rw [h.isComplete hc₀] at hc; cases hc

end Statuses

/-! ## Retaining and pushing -/

namespace Retains

variable {σ σ' : Statuses} {l l' : List Nat}

theorem sublist (h : Retains σ σ' l l') : l'.Sublist l := by
  induction h with
  | nil => exact .slnil
  | keep _ _ ih => exact ih.cons_cons _
  | drop _ _ ih => exact ih.cons _

/-- Retaining keeps every event that has not completed by its end. -/
theorem filter_eq (h : Retains σ σ' l l') : l'.filter (!σ'.isComplete ·) = l.filter (!σ'.isComplete ·) := by
  induction h with
  | nil => rfl
  | keep _ _ ih => simp only [List.filter_cons, ih]
  | drop hc _ ih => simp [hc, ih]

/-- With every event complete at its start, retaining leaves nothing. -/
theorem eq_nil (h : Retains σ σ' l l') (hall : ∀ e ∈ l, σ.isComplete e = true) : l' = [] := by
  induction h with
  | nil => rfl
  | keep hc _ _ => rw [hall _ List.mem_cons_self] at hc; cases hc
  | drop _ _ ih => exact ih fun e he => hall e (List.mem_cons_of_mem _ he)

end Retains

/-- `l` is the history `hist` of the events recorded on it with some completed events dropped:
    the events keep their order, and each that has not completed is there as often as it was
    recorded. -/
def Keeps (σ : Statuses) (hist l : List Nat) : Prop :=
  l.Sublist hist ∧ l.filter (!σ.isComplete ·) = hist.filter (!σ.isComplete ·)

namespace Keeps

variable {σ σ' : Statuses} {hist l l' : List Nat} {e : Nat}

theorem nil (σ : Statuses) : Keeps σ [] [] := ⟨.slnil, rfl⟩

theorem later (hk : Keeps σ hist l) (hσ : σ.Later σ') : Keeps σ' hist l := by
  -- the events that have not completed at `σ'` are among those that had not at `σ`
  have hsplit : ∀ l : List Nat,
      l.filter (!σ'.isComplete ·) = (l.filter (!σ.isComplete ·)).filter (!σ'.isComplete ·) := by
    intro l
    rw [List.filter_filter]
    refine List.filter_congr fun d _ => ?_
    cases hc : σ'.isComplete d with
    | true => simp
    | false => simp [hσ.not_isComplete hc]
  exact ⟨hk.1, by rw [hsplit, hk.2, ← hsplit]⟩

theorem retains (hk : Keeps σ hist l) (hσ : σ.Later σ') (hr : Retains σ σ' l l') : Keeps σ' hist l' :=
  ⟨hr.sublist.trans hk.1, by rw [hr.filter_eq, (hk.later hσ).2]⟩

theorem push (hk : Keeps σ hist l) (hσ : σ.Later σ') (hp : Pushes σ σ' l e l') : Keeps σ' (hist ++ [e]) l' := by
  obtain ⟨kept, hr, rfl⟩ := hp
  have hk' := hk.retains hσ hr
  exact ⟨hk'.1.append (List.Sublist.refl _), by rw [List.filter_append, List.filter_append, hk'.2]⟩

/-- A list that a section pushes onto when `b` holds, and leaves alone otherwise. -/
theorem record {b : Bool} (hk : Keeps σ hist l) (hσ : σ.Later σ')
    (hp : if b then Pushes σ σ' l e l' else l' = l) : Keeps σ' (hist ++ if b then [e] else []) l' := by
  cases b with
  | true => exact hk.push hσ hp
  | false =>
    rw [if_neg Bool.false_ne_true] at hp
    rw [hp, if_neg Bool.false_ne_true, List.append_nil]
    exact hk.later hσ

theorem mem_incomplete_iff (hk : Keeps σ hist l) :
    (e ∈ l ∧ σ.isComplete e = false) ↔ (e ∈ hist ∧ σ.isComplete e = false) := by
  have h := congrArg (e ∈ ·) hk.2
  simpa [List.mem_filter] using h

end Keeps

/-! ## The histories of the lists -/

/-- The events a call recorded on the lists of the accesses `kind` picks. -/
def MatrixCall.recorded (kind : Direction → Bool) : MatrixCall → List Nat
  | .add dir e => if kind dir then [e] else []
  | _ => []

theorem MatrixCall.recorded_waitOn (kind : Direction → Bool) (read : Option Nat) :
    (MatrixCall.waitOn read).recorded kind = [] := by
  cases read <;> rfl

/-- Every access reads or writes, so what goes on the list of both goes on the read or the
    write list. -/
theorem MatrixCall.mem_recorded_all {c : MatrixCall} {e : Nat} :
    e ∈ c.recorded (fun _ => true) ↔ e ∈ c.recorded Direction.reads ∨ e ∈ c.recorded Direction.writes := by
  cases c with
  | add dir d => cases dir <;> simp [recorded, Direction.reads, Direction.writes]
  | wait => simp [recorded]
  | toHost r => simp [recorded]

/-- The events that the finished calls `calls` recorded on the lists of the accesses `kind`
    picks, in the order they were recorded. -/
def history (kind : Direction → Bool) (calls : List (Nat × MatrixCall × Except Error Unit)) : List Nat :=
  calls.flatMap fun x => x.2.1.recorded kind

section History

variable {kind : Direction → Bool} {calls more : List (Nat × MatrixCall × Except Error Unit)}

theorem history_append : history kind (calls ++ more) = history kind calls ++ history kind more :=
  List.flatMap_append

theorem history_answer {t : Nat} {c : MatrixCall} {a : Except Error Unit} (hc : ∀ kind, c.recorded kind = []) :
    history kind (calls ++ [(t, c, a)]) = history kind calls := by
  simp [history, hc]

theorem history_add {t : Nat} {dir : Direction} {e : Nat} {a : Except Error Unit} :
    history kind (calls ++ [(t, .add dir e, a)]) = history kind calls ++ if kind dir then [e] else [] := by
  simp [history, MatrixCall.recorded]

theorem mem_history_all {e : Nat} :
    e ∈ history (fun _ => true) calls ↔ e ∈ history Direction.reads calls ∨ e ∈ history Direction.writes calls := by
  simp only [history, List.mem_flatMap, MatrixCall.mem_recorded_all, and_or_left, exists_or]

end History

/-! ## What each list keeps -/

/-- Each list of `ls` is its history in `calls` with some completed events dropped. -/
structure Tracks (σ : Statuses) (calls : List (Nat × MatrixCall × Except Error Unit)) (ls : EventLists) : Prop where
  reads : Keeps σ (history Direction.reads calls) ls.reads
  writes : Keeps σ (history Direction.writes calls) ls.writes
  readWrites : Keeps σ (history (fun _ => true) calls) ls.readWrites

namespace Tracks

variable {σ σ' : Statuses} {calls : List (Nat × MatrixCall × Except Error Unit)} {ls ls' : EventLists}

theorem later (h : Tracks σ calls ls) (hσ : σ.Later σ') : Tracks σ' calls ls :=
  ⟨h.reads.later hσ, h.writes.later hσ, h.readWrites.later hσ⟩

theorem record {t : Nat} {dir : Direction} {e : Nat} {a : Except Error Unit} (h : Tracks σ calls ls)
    (hσ : σ.Later σ') (hr : ls.Records σ σ' dir e ls') : Tracks σ' (calls ++ [(t, .add dir e, a)]) ls' := by
  refine ⟨?_, ?_, ?_⟩
  · rw [history_add]
    exact h.reads.record hσ hr.reads
  · rw [history_add]
    exact h.writes.record hσ hr.writes
  · rw [history_add]
    exact h.readWrites.push hσ hr.readWrites

theorem clear (h : Tracks σ calls ls) (hσ : σ.Later σ') (hc : ls.Clears σ σ' ls') : Tracks σ' calls ls' :=
  ⟨h.reads.retains hσ hc.reads, h.writes.retains hσ hc.writes, h.readWrites.retains hσ hc.readWrites⟩

theorem answer {t : Nat} {c : MatrixCall} {a : Except Error Unit} (h : Tracks σ calls ls)
    (hc : ∀ kind, c.recorded kind = []) : Tracks σ (calls ++ [(t, c, a)]) ls := by
  refine ⟨?_, ?_, ?_⟩ <;> rw [history_answer hc]
  exacts [h.reads, h.writes, h.readWrites]

/-- The list of both holds the same events that have not completed as the read and the write
    list together. -/
theorem mem_incomplete_iff (h : Tracks σ calls ls) {e : Nat} :
    (e ∈ ls.readWrites ∧ σ.isComplete e = false) ↔ ((e ∈ ls.reads ∨ e ∈ ls.writes) ∧ σ.isComplete e = false) := by
  rw [h.readWrites.mem_incomplete_iff, mem_history_all, or_and_right, or_and_right,
    ← h.reads.mem_incomplete_iff, ← h.writes.mem_incomplete_iff]

theorem incomplete_union (h : Tracks σ calls ls) :
    (ls.readWrites.filter (!σ.isComplete ·)).toFinset =
      (ls.reads.filter (!σ.isComplete ·)).toFinset ∪ (ls.writes.filter (!σ.isComplete ·)).toFinset := by
  ext e
  simp only [Finset.mem_union, List.mem_toFinset, List.mem_filter, Bool.not_eq_eq_eq_not, Bool.not_true]
  rw [h.mem_incomplete_iff, or_and_right]

end Tracks

/-! ## What a wait knows -/

/-- What a wait that copied the list of both when `n` calls had finished, and has still to wait
    on `pending`, knows of the list of both `rw`: each of its events that has not completed is
    one it has still to wait on, or was recorded since the copy. -/
def Covers (σ : Statuses) (rw : List Nat) (calls : List (Nat × MatrixCall × Except Error Unit)) (n : Nat)
    (pending : List Nat) : Prop :=
  n ≤ calls.length ∧ ∀ e ∈ rw, σ.isComplete e = false → e ∈ pending ∨ e ∈ history (fun _ => true) (calls.drop n)

namespace Covers

variable {σ σ' : Statuses} {rw rw' : List Nat} {calls : List (Nat × MatrixCall × Except Error Unit)} {n : Nat}
  {pending : List Nat}

theorem snapshot (σ : Statuses) (rw : List Nat) (calls : List (Nat × MatrixCall × Except Error Unit)) :
    Covers σ rw calls calls.length rw :=
  ⟨Nat.le_refl _, fun _ he _ => .inl he⟩

/-- Waiting on an event that completed. -/
theorem pop {e : Nat} (hc : Covers σ rw calls n (e :: pending)) (he : σ.isComplete e = true) :
    Covers σ rw calls n pending := by
  refine ⟨hc.1, fun d hd hnc => ?_⟩
  rcases hc.2 d hd hnc with hd' | hd'
  · rcases List.mem_cons.mp hd' with rfl | hd'
    · rw [he] at hnc
      cases hnc
    · exact .inl hd'
  · exact .inr hd'

/-- Events finish and the list of both loses some. -/
theorem later (hc : Covers σ rw calls n pending) (hσ : σ.Later σ') (hsub : ∀ e ∈ rw', e ∈ rw) :
    Covers σ' rw' calls n pending :=
  ⟨hc.1, fun e he hnc => hc.2 e (hsub e he) (hσ.not_isComplete hnc)⟩

/-- More calls finish and the list of both gains only events they recorded. -/
theorem extend (hc : Covers σ rw calls n pending) (more : List (Nat × MatrixCall × Except Error Unit))
    (hnew : ∀ e ∈ rw', e ∈ rw ∨ e ∈ history (fun _ => true) more) : Covers σ rw' (calls ++ more) n pending := by
  refine ⟨by rw [List.length_append]; exact Nat.le_add_right_of_le hc.1, fun e he hnc => ?_⟩
  rw [List.drop_append_of_le_length hc.1, history_append, List.mem_append]
  rcases hnew e he with he | he
  · exact (hc.2 e he hnc).imp_right .inl
  · exact .inr (.inr he)

end Covers

/-! ## Steps of the threads -/

namespace MatrixUsers

/-- What holds in every state the threads reach: each list tracks its history, and each wait
    knows where the events of the list of both are. -/
structure Invariant (u : MatrixUsers) : Prop where
  tracks : Tracks u.status u.finished u.lists
  covers : ∀ (t : Nat) read n pending rest, u.threads[t]? = some (MatrixThread.waiting read n pending rest) →
    Covers u.status u.lists.readWrites u.finished n pending

section Invariant

variable {u u' : MatrixUsers}

theorem invariant_start (σ : Statuses) (programs : List (List MatrixCall)) : (start σ programs).Invariant := by
  refine ⟨⟨Keeps.nil σ, Keeps.nil σ, Keeps.nil σ⟩, fun t read n pending rest h => ?_⟩
  rw [start, List.getElem?_map] at h
  cases hp : programs[t]? with
  | none => rw [hp] at h; cases h
  | some calls => rw [hp] at h; cases h

/-- Every other thread keeps what it knows when thread `t` moves to `th`. -/
theorem covers_set {σ' : Statuses} {rw' : List Nat} {calls' : List (Nat × MatrixCall × Except Error Unit)}
    {t : Nat} {th : MatrixThread} (hi : u.Invariant)
    (hold : ∀ n p, Covers u.status u.lists.readWrites u.finished n p → Covers σ' rw' calls' n p)
    (hnew : ∀ read n p rest, th = .waiting read n p rest → Covers σ' rw' calls' n p) :
    ∀ (t' : Nat) read n p rest, (u.threads.set t th)[t']? = some (MatrixThread.waiting read n p rest) →
      Covers σ' rw' calls' n p := by
  intro t' read n p rest h
  rw [List.getElem?_set] at h
  split at h
  · split at h
    · cases h
      exact hnew _ _ _ _ rfl
    · cases h
  · exact hold _ _ (hi.covers _ _ _ _ _ h)

theorem Invariant.later {σ' : Statuses} (hi : u.Invariant) (hσ : u.status.Later σ') :
    ({ u with status := σ' } : MatrixUsers).Invariant :=
  ⟨hi.tracks.later hσ, fun t read n p rest h => (hi.covers t read n p rest h).later hσ fun _ he => he⟩

theorem Invariant.setThread {t : Nat} {th : MatrixThread} (hi : u.Invariant)
    (hnew : ∀ read n p rest, th = .waiting read n p rest → Covers u.status u.lists.readWrites u.finished n p) :
    (u.setThread t th).Invariant :=
  ⟨hi.tracks, covers_set hi (fun _ _ h => h) hnew⟩

theorem Invariant.finish {t : Nat} {c : MatrixCall} {a : Except Error Unit} {σ' : Statuses} {ls' : EventLists}
    {rest : List MatrixCall} (hi : u.Invariant) (htr : Tracks σ' (u.finished ++ [(t, c, a)]) ls')
    (hold : ∀ n p, Covers u.status u.lists.readWrites u.finished n p →
      Covers σ' ls'.readWrites (u.finished ++ [(t, c, a)]) n p) :
    (u.finish t c a σ' ls' rest).Invariant :=
  ⟨htr, covers_set hi hold nofun⟩

/-- One step keeps the invariant. -/
theorem Invariant.step (hi : u.Invariant) (hs : Step u u') : u'.Invariant := by
  cases hs with
  | eventEnds e s => exact hi.later (Statuses.later_finish _ e s)
  | add _ hσ hr =>
    refine hi.finish (hi.tracks.record hσ hr) fun n p hc => ?_
    -- the list of both lost completed events and gained the recorded one
    obtain ⟨kept, hkept, hrw⟩ := hr.readWrites
    refine (hc.later hσ fun _ he => hkept.sublist.subset he).extend _ fun d hd => ?_
    rw [hrw, List.mem_append, List.mem_singleton] at hd
    rcases hd with hd | rfl
    · exact .inl hd
    · exact .inr (by simp [history, MatrixCall.recorded])
  | snapshot _ =>
    refine hi.setThread fun read n p rest h => ?_
    cases h
    exact Covers.snapshot _ _ _
  | read _ => exact hi.setThread nofun
  | readFailed _ _ =>
    exact hi.finish (hi.tracks.answer fun _ => rfl) fun n p hc => hc.extend _ fun _ he => .inl he
  | readDone _ _ =>
    refine hi.setThread fun read n p rest h => ?_
    cases h
    exact Covers.snapshot _ _ _
  | waited ht hs =>
    refine hi.setThread fun read n p rest h => ?_
    cases h
    exact (hi.covers _ _ _ _ _ ht).pop (by rw [Statuses.isComplete_eq_true_iff]; exact hs)
  | waitFailed _ _ =>
    exact hi.finish (hi.tracks.answer (MatrixCall.recorded_waitOn · _)) fun n p hc =>
      hc.extend _ fun _ he => .inl he
  | cleared _ hσ hc =>
    exact hi.finish ((hi.tracks.clear hσ hc).answer (MatrixCall.recorded_waitOn · _)) fun n p hcov =>
      (hcov.later hσ fun _ he => hc.readWrites.sublist.subset he).extend _ fun _ he => .inl he

theorem Runs.invariant (hrun : Runs u u') (hi : u.Invariant) : u'.Invariant := by
  induction hrun with
  | refl => exact hi
  | step h _ ih => exact ih (hi.step h)

end Invariant

/-! ## Along runs -/

section Runs

variable {u u' : MatrixUsers}

/-- A step only lets events finish and only adds finished calls. -/
theorem Step.grows (hs : Step u u') : u.status.Later u'.status ∧ ∃ more, u'.finished = u.finished ++ more := by
  cases hs with
  | eventEnds e s => exact ⟨Statuses.later_finish _ e s, [], (List.append_nil _).symm⟩
  | add _ hσ _ | cleared _ hσ _ => exact ⟨hσ, _, rfl⟩
  | readFailed _ _ | waitFailed _ _ => exact ⟨Statuses.Later.refl _, _, rfl⟩
  | snapshot _ | read _ | readDone _ _ | waited _ _ => exact ⟨Statuses.Later.refl _, [], (List.append_nil _).symm⟩

theorem Runs.grows (hrun : Runs u u') : u.status.Later u'.status ∧ ∃ more, u'.finished = u.finished ++ more := by
  induction hrun with
  | refl u => exact ⟨Statuses.Later.refl _, [], (List.append_nil _).symm⟩
  | step h _ ih =>
    obtain ⟨hσ₁, more₁, hf₁⟩ := h.grows
    obtain ⟨hσ₂, more₂, hf₂⟩ := ih
    exact ⟨hσ₁.trans hσ₂, more₁ ++ more₂, by rw [hf₂, hf₁, List.append_assoc]⟩

end Runs

/-- Each list of `ls'` that is a list of `ls` holding `e` holds `e` too. -/
def StaysOn (e : Nat) (ls ls' : EventLists) : Prop :=
  (e ∈ ls.reads → e ∈ ls'.reads) ∧ (e ∈ ls.writes → e ∈ ls'.writes) ∧ (e ∈ ls.readWrites → e ∈ ls'.readWrites)

/-- An event on a list that has not completed by a later state is still on that list there. -/
theorem Runs.staysOn {u u' : MatrixUsers} (hi : u.Invariant) (hrun : Runs u u') {e : Nat}
    (hnc : u'.status.isComplete e = false) : StaysOn e u.lists u'.lists := by
  have hi' := hrun.invariant hi
  obtain ⟨hσ, more, hf⟩ := hrun.grows
  have hnc₀ := hσ.not_isComplete hnc
  -- through the history: on the list then, recorded, not complete now, so on the list now
  have hkeep : ∀ {kind : Direction → Bool} {l l' : List Nat}, Keeps u.status (history kind u.finished) l →
      Keeps u'.status (history kind u'.finished) l' → e ∈ l → e ∈ l' := by
    intro kind l l' hk hk' he
    have hrec : e ∈ history kind u.finished := ((hk.mem_incomplete_iff).mp ⟨he, hnc₀⟩).1
    have hrec' : e ∈ history kind u'.finished := by
      rw [hf, history_append]
      exact List.mem_append_left _ hrec
    exact ((hk'.mem_incomplete_iff).mpr ⟨hrec', hnc⟩).1
  exact ⟨hkeep hi.tracks.reads hi'.tracks.reads, hkeep hi.tracks.writes hi'.tracks.writes,
    hkeep hi.tracks.readWrites hi'.tracks.readWrites⟩

/-! ## A wait with nothing recorded meanwhile -/

section Wait

variable {u u' : MatrixUsers} {t n : Nat} {read : Option Nat} {pending : List Nat} {rest : List MatrixCall}

/-- A step that ends a waiting thread's call successfully is the clearing of its lists, after it
    waited on every event it copied. -/
theorem Step.eq_cleared (hs : Step u u') (ht : u.threads[t]? = some (.waiting read n pending rest))
    (hok : u'.finished = u.finished ++ [(t, .waitOn read, .ok ())]) :
    pending = [] ∧ ∃ σ', u.status.Later σ' ∧ u.lists.Clears u.status σ' u'.lists := by
  cases hs with
  | cleared ht' hσ hc =>
    simp only [finish, List.append_cancel_left_eq, List.cons.injEq, Prod.mk.injEq, and_true] at hok
    obtain ⟨rfl, -⟩ := hok
    rw [ht] at ht'
    cases ht'
    exact ⟨rfl, _, hσ, hc⟩
  | add ht' _ _ | readFailed ht' _ =>
    simp only [finish, List.append_cancel_left_eq, List.cons.injEq, Prod.mk.injEq] at hok
    rw [hok.1.1, ht] at ht'
    cases ht'
  | waitFailed _ _ => simp [finish] at hok
  | eventEnds _ _ | snapshot _ | read _ | readDone _ _ | waited _ _ => simp [setThread] at hok

/-- A wait, or a copy back to the host, that succeeds with nothing recorded on the matrix since
    it copied the list of both leaves all three lists empty. -/
theorem lists_empty_of_wait (hi : u.Invariant) (hs : Step u u') (ht : u.threads[t]? = some (.waiting read n pending rest))
    (hok : u'.finished = u.finished ++ [(t, .waitOn read, .ok ())])
    (hquiet : history (fun _ => true) (u.finished.drop n) = []) : u'.lists = {} := by
  obtain ⟨rfl, σ', -, hc⟩ := hs.eq_cleared ht hok
  -- every event on the list of both has completed, and so has every event on the others
  have hrw : ∀ e ∈ u.lists.readWrites, u.status.isComplete e = true := by
    intro e he
    cases hnc : u.status.isComplete e with
    | true => rfl
    | false =>
      rcases (hi.covers _ _ _ _ _ ht).2 e he hnc with h | h
      · cases h
      · rw [hquiet] at h
        cases h
  have hother : ∀ e, e ∈ u.lists.reads ∨ e ∈ u.lists.writes → u.status.isComplete e = true := by
    intro e he
    cases hnc : u.status.isComplete e with
    | true => rfl
    | false =>
      have hin := (hi.tracks.mem_incomplete_iff.mpr ⟨he, hnc⟩).1
      rw [hrw e hin] at hnc
      cases hnc
  have hr := hc.reads.eq_nil fun e he => hother e (.inl he)
  have hw := hc.writes.eq_nil fun e he => hother e (.inr he)
  have hb := hc.readWrites.eq_nil hrw
  cases hl : u'.lists with
  | mk r w b =>
    rw [hl] at hr hw hb
    simp only at hr hw hb
    subst hr hw hb
    rfl

end Wait

end MatrixUsers

/-- What the event lists of a matrix promise the threads that use it, started with `programs` on
    events standing as `σ₀`. -/
structure ListsContract (σ₀ : Statuses) (programs : List (List MatrixCall)) : Prop where
  /-- The list of both holds the same events that have not completed as the read and the write
      list together. -/
  union : ∀ u, MatrixUsers.Runs (.start σ₀ programs) u →
    (u.lists.readWrites.filter (!u.status.isComplete ·)).toFinset =
      (u.lists.reads.filter (!u.status.isComplete ·)).toFinset ∪
        (u.lists.writes.filter (!u.status.isComplete ·)).toFinset
  /-- Each list is the events recorded on it, in the order recorded, with some completed ones
      dropped and no other. -/
  tracks : ∀ u, MatrixUsers.Runs (.start σ₀ programs) u → Tracks u.status u.finished u.lists
  /-- An event that has not completed is never removed from a list. -/
  kept : ∀ u u', MatrixUsers.Runs (.start σ₀ programs) u → MatrixUsers.Runs u u' →
    ∀ e, u'.status.isComplete e = false → MatrixUsers.StaysOn e u.lists u'.lists
  /-- A failed event stays failed, and stays on every list it is on. -/
  failed : ∀ u u', MatrixUsers.Runs (.start σ₀ programs) u → MatrixUsers.Runs u u' →
    ∀ e m, u.status e = some (.failed m) → u'.status e = some (.failed m) ∧ MatrixUsers.StaysOn e u.lists u'.lists
  /-- A wait, or a copy back to the host, that succeeds with nothing recorded since it copied the
      list of both leaves all three lists empty. -/
  emptied : ∀ u u' t read n pending rest, MatrixUsers.Runs (.start σ₀ programs) u → MatrixUsers.Step u u' →
    u.threads[t]? = some (.waiting read n pending rest) → u'.finished = u.finished ++ [(t, .waitOn read, .ok ())] →
    history (fun _ => true) (u.finished.drop n) = [] → u'.lists = {}

/-- The event lists of a matrix keep their promises under every interleaving of its threads and
    every way its events finish. -/
theorem matrix_lists_contract (σ₀ : Statuses) (programs : List (List MatrixCall)) : ListsContract σ₀ programs where
  union u hrun := (hrun.invariant (MatrixUsers.invariant_start σ₀ programs)).tracks.incomplete_union
  tracks u hrun := (hrun.invariant (MatrixUsers.invariant_start σ₀ programs)).tracks
  kept u u' hrun hrun' e hnc := hrun'.staysOn (hrun.invariant (MatrixUsers.invariant_start σ₀ programs)) hnc
  failed u u' hrun hrun' e m hf := by
    have hf' : u'.status e = some (.failed m) := hrun'.grows.1 e _ hf
    refine ⟨hf', hrun'.staysOn (hrun.invariant (MatrixUsers.invariant_start σ₀ programs)) ?_⟩
    simp [Statuses.isComplete, hf']
  emptied u u' t read n pending rest hrun hs ht hok hquiet :=
    MatrixUsers.lists_empty_of_wait (hrun.invariant (MatrixUsers.invariant_start σ₀ programs)) hs ht hok hquiet

end OffloadAlgebra
