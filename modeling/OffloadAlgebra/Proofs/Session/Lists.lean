import OffloadAlgebra.Proofs.Session.WorkerDrain
/-!
  Event lists on the queue and in the sequential run.

  The queue and the sequential run keep different lists of events on a matrix: each drops the
  events it sees complete, and they see events complete at different times.  What matters of a
  list is what waiting on it finds, its first failed event (`firstFailure?`), and that depends
  only on the failed events of the list in order (`firstFailure_failedEvents`).  Dropping
  completed events keeps those (`failedEvents_pending`, `Pruned.failedEvents`), and so does
  appending the same event to both lists.  Waiting on the queue's list, once it settles, finds
  the first failure of the list in the sequential run (`settle?_eq_firstFailure`).
-/

namespace OffloadAlgebra

namespace Context

/-- The failed events of a list, in order. -/
def failedEvents (c : Context) (l : List Nat) : List Nat := l.filter fun e => (c.failure? e).isSome

theorem firstFailure_failedEvents (c : Context) (l : List Nat) :
    c.firstFailure? (c.failedEvents l) = c.firstFailure? l := by
  induction l with
  | nil => rfl
  | cons e l ih =>
    simp only [failedEvents, firstFailure?, List.filter_cons, List.findSome?_cons] at ih ⊢
    cases hf : c.failure? e with
    | none => simpa using ih
    | some x => simp [hf]

theorem failedEvents_append (c : Context) (l₁ l₂ : List Nat) :
    c.failedEvents (l₁ ++ l₂) = c.failedEvents l₁ ++ c.failedEvents l₂ :=
  List.filter_append ..

theorem isComplete_of_failure? {c : Context} {e : Nat} (h : (c.failure? e).isSome) : c.isComplete e = false := by
  simp only [failure?, isComplete] at h ⊢
  split at h
  · rename_i hev
    simp [hev]
  · cases h

/-- Dropping the completed events of a list keeps its failed ones. -/
theorem failedEvents_pending (c : Context) (l : List Nat) : c.failedEvents (c.pending l) = c.failedEvents l := by
  simp only [failedEvents, pending, List.filter_filter]
  refine List.filter_congr fun e _ => ?_
  cases hf : (c.failure? e).isSome with
  | false => rfl
  | true => simp [isComplete_of_failure? hf]

theorem failedEvents_record (c : Context) (l : List Nat) (e : Nat) :
    c.failedEvents (c.record l e) = c.failedEvents l ++ c.failedEvents [e] := by
  rw [record, failedEvents_append, failedEvents_pending]

theorem mem_record {c : Context} {l : List Nat} {e d : Nat} (hd : d ∈ c.record l e) : d ∈ l ∨ d = e := by
  rcases List.mem_append.mp hd with hd | hd
  · exact .inl (List.mem_filter.mp hd).1
  · exact .inr (List.mem_singleton.mp hd)

theorem failedEvents_congr {c₁ c₂ : Context} {l : List Nat} (h : ∀ e ∈ l, c₁.failure? e = c₂.failure? e) :
    c₁.failedEvents l = c₂.failedEvents l :=
  List.filter_congr fun e he => by rw [h e he]

/-- Events recorded later do not change whether an earlier one failed. -/
theorem failure?_of_lt {c₁ c₂ : Context} {e : Nat} (he : e < c₁.events.size)
    (hpre : ∀ k < c₁.events.size, c₂.events[k]? = c₁.events[k]?) : c₂.failure? e = c₁.failure? e := by
  simp only [failure?, event?, hpre e he]

end Context

namespace HostQueue

variable {q : HostQueue} {c : Context}

/-- A pruned list keeps the failed events of the list, when no event the queue sees complete
    failed in `c`. -/
theorem Pruned.failedEvents {l l' : List Nat} (hp : q.Pruned l l')
    (hc : ∀ e, q.status? e = some .complete → c.failure? e = none) : c.failedEvents l' = c.failedEvents l := by
  -- a failed event is not complete, so it is among the events pruning keeps
  have hsplit : ∀ l : List Nat, c.failedEvents l =
      (l.filter fun e => q.status? e != some .complete).filter fun e => (c.failure? e).isSome := by
    intro l
    rw [List.filter_filter]
    refine List.filter_congr fun e _ => ?_
    cases hf : c.failure? e with
    | none => rfl
    | some x =>
      have hne : q.status? e ≠ some .complete := fun hs => by simp [hc e hs] at hf
      simp [hne]
  rw [hsplit, hsplit, hp.2]

theorem Pruned.subset {l l' : List Nat} (hp : q.Pruned l l') : ∀ e ∈ l', e ∈ l :=
  fun _ he => hp.1.subset he

theorem Appended.failedEvents {l l' : List Nat} {e : Nat} (ha : q.Appended l e l')
    (hc : ∀ e, q.status? e = some .complete → c.failure? e = none) :
    c.failedEvents l' = c.failedEvents l ++ c.failedEvents [e] := by
  obtain ⟨kept, hp, rfl⟩ := ha
  rw [Context.failedEvents_append, hp.failedEvents hc]

theorem Appended.mem {l l' : List Nat} {e : Nat} (ha : q.Appended l e l') : ∀ d ∈ l', d ∈ l ∨ d = e := by
  obtain ⟨kept, hp, rfl⟩ := ha
  intro d hd
  rcases List.mem_append.mp hd with hd | hd
  · exact .inl (hp.subset d hd)
  · exact .inr (List.mem_singleton.mp hd)

/-- Waiting on a list of the queue finds, once every event it looks at ended, what waiting on it
    finds in a context where those events ended the same way. -/
theorem settle?_eq_firstFailure {l : List Nat}
    (hc : ∀ e ∈ l, q.status? e = some .complete → c.failure? e = none)
    (hf : ∀ e ∈ l, ∀ m, q.status? e = some (.failed m) → c.failure? e = some (q.label e, m)) :
    ∀ {x}, q.settle? l = some x → c.firstFailure? l = x := by
  induction l with
  | nil =>
    intro x h
    cases h
    rfl
  | cons e l ih =>
    intro x h
    have ih' : ∀ {x}, q.settle? l = some x → c.firstFailure? l = x :=
      ih (fun d hd => hc d (List.mem_cons_of_mem e hd)) (fun d hd => hf d (List.mem_cons_of_mem e hd))
    simp only [settle?] at h
    split at h
    · cases h
    · rename_i hs
      simp only [Context.firstFailure?, List.findSome?_cons, hc e List.mem_cons_self hs]
      exact ih' h
    · rename_i m hs
      cases h
      simp only [Context.firstFailure?, List.findSome?_cons, hf e List.mem_cons_self m hs]

end HostQueue

end OffloadAlgebra
