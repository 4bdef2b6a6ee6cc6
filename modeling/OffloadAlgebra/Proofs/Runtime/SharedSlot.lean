import OffloadAlgebra.SharedSlot
import OffloadAlgebra.Proofs.Options.Build
/-!
  One shared context at a time, under every interleaving of threads.

  Each locked section does one of three things to the slot (`step_cases`): it leaves the slot as
  it is, and a handle it answers is the one the slot holds; it puts a newly made context into the
  empty slot, and a handle it answers is that context's; or it is a shutdown and empties the
  slot.  No section puts a context into a full slot, and only a shutdown takes one out.

  Hence along every run of the threads in which no shutdown finishes, a context in the slot stays
  there, at most one context is made, and every handle answered, by `context` or by `getOrInit`,
  is the one the slot holds at the end (`handsOut_of_runs`).  Racing first calls of `getOrInit`
  therefore make one context and all answer it: the section that makes it looks at the slot
  again under the write lock.  From the start the slot holds the newest context made, if any
  (`newest_of_runs`).  `init` refuses exactly a full slot and changes nothing then, and answers
  the error of a context it fails to make with the slot left empty (`step_init`); `context`
  refuses exactly an empty slot (`step_context`).  Forgetting the numbers, each section changes
  the slot as the matching operation of `SharedContext` does (`view_init`, `view_recheck`).
-/

namespace OffloadAlgebra

/-- Making a context fails only by refusing the configuration. -/
theorem Context.create_eq_error {cfg : Config} {processors : Nat} {e : Error}
    (h : Context.create cfg processors = .ok (.error e)) : cfg.validate = .error e := by
  unfold Context.create at h
  split at h
  · rename_i hv
    cases h
    exact hv
  · obtain ⟨_, -, h⟩ := Except.bind_eq_ok h
    obtain ⟨_, -, h⟩ := Except.bind_eq_ok h
    cases h

/-- A configuration is refused with a configuration error. -/
theorem Config.validate_error {cfg : Config} {e : Error} (h : cfg.validate = .error e) : ∃ m, e = .config m := by
  unfold Config.validate at h
  repeat' split at h
  all_goals cases h
  all_goals exact ⟨_, rfl⟩

namespace SharedSlot

/-! ## The locked sections -/

section Sections

variable {s s' : SharedSlot} {cfg : Config} {processors : Nat} {x : SharedHandle}

theorem init_of_full (h : s.slot = some x) : s.init cfg processors = .ok (.error .alreadyInitialized) := by
  simp [init, h]

theorem init_of_empty (h : s.slot = none) :
    s.init cfg processors = (fun r => r.map s.install) <$> Context.create cfg processors := by
  simp [init, h]

/-- `init` fills only an empty slot, with the context it made. -/
theorem init_eq_ok (h : s.init cfg processors = .ok (.ok s')) : ∃ ctx, s.slot = none ∧ s' = s.install ctx := by
  cases hs : s.slot with
  | some x => rw [init_of_full hs] at h; cases h
  | none =>
    rw [init_of_empty hs] at h
    cases hc : Context.create cfg processors with
    | error p => rw [hc] at h; cases h
    | ok r =>
      cases r with
      | error e => rw [hc] at h; cases h
      | ok ctx =>
        rw [hc] at h
        cases h
        exact ⟨ctx, rfl, rfl⟩

/-- `init` refuses as already done exactly when the slot is full. -/
theorem init_refused_iff : s.init cfg processors = .ok (.error .alreadyInitialized) ↔ s.slot.isSome := by
  cases hs : s.slot with
  | some x => simp [init_of_full hs]
  | none =>
    simp only [init_of_empty hs, Option.isSome_none, Bool.false_eq_true, iff_false]
    intro hinit
    cases hc : Context.create cfg processors with
    | error p => rw [hc] at hinit; cases hinit
    | ok r =>
      cases r with
      | ok ctx => rw [hc] at hinit; cases hinit
      | error e =>
        rw [hc] at hinit
        -- making the context failed, with a configuration error
        obtain ⟨m, rfl⟩ := Config.validate_error (Context.create_eq_error hc)
        cases hinit

/-- On an empty slot, a context that cannot be made is `init`'s error. -/
theorem init_of_create_error {e : Error} (hs : s.slot = none) (hc : Context.create cfg processors = .ok (.error e)) :
    s.init cfg processors = .ok (.error e) := by
  rw [init_of_empty hs, hc]
  rfl

theorem context_eq_error_iff : s.context = .error .notInitialized ↔ s.slot = none := by
  cases hs : s.slot <;> simp [context, hs]

theorem context_of_full (h : s.slot = some x) : s.context = .ok x := by
  simp [context, h]

/-- The look again of `getOrInit` answers the handle in a full slot, or fills the empty slot with
    a new context and answers its handle. -/
theorem recheck_eq_ok {h : SharedHandle} (hr : s.recheck processors = .ok (.ok (h, s'))) :
    (s' = s ∧ s.slot = some h) ∨ ∃ ctx, s.slot = none ∧ s' = s.install ctx ∧ h = ⟨s.made, ctx⟩ := by
  unfold recheck at hr
  cases hs : s.slot with
  | some x =>
    rw [hs] at hr
    cases hr
    exact .inl ⟨rfl, rfl⟩
  | none =>
    rw [hs] at hr
    cases hc : Context.create {} processors with
    | error p => rw [hc] at hr; cases hr
    | ok r =>
      cases r with
      | error e => rw [hc] at hr; cases hr
      | ok ctx =>
        rw [hc] at hr
        cases hr
        exact .inr ⟨ctx, rfl, rfl, rfl⟩

/-! Forgetting the numbers, the sections are the operations of `SharedContext`. -/

theorem view_init : (s.init cfg processors).map (·.map view) = s.view.init cfg processors := by
  unfold init SharedContext.init view
  cases s.slot with
  | some x => rfl
  | none =>
    cases Context.create cfg processors with
    | error p => rfl
    | ok r => cases r <;> rfl

theorem view_context : s.context.map (·.ctx) = s.view.context := by
  unfold context SharedContext.context view
  cases s.slot <;> rfl

theorem view_recheck :
    (s.recheck processors).map (·.map fun (h, s') => (h.ctx, s'.view)) = s.view.getOrInit processors := by
  obtain ⟨slot, made⟩ := s
  unfold recheck SharedContext.getOrInit view
  cases slot with
  | some x => rfl
  | none =>
    cases Context.create {} processors with
    | error p => rfl
    | ok r => cases r <;> rfl

theorem view_shutdown : s.shutdown.view = s.view.shutdown := rfl

end Sections

/-- The slot holds the newest context made, if any. -/
def Newest (s : SharedSlot) : Prop := ∀ h, s.slot = some h → h.id + 1 = s.made

theorem newest_install (s : SharedSlot) (ctx : Context) : (s.install ctx).Newest := by
  intro h hs
  cases hs
  rfl

end SharedSlot

namespace SlotUsers

/-! ## Steps of the threads -/

/-- Every handle answered by a list of finished calls is the one the slot `s` holds. -/
def HandsOut (s : SharedSlot) (calls : List (Nat × SlotCall × SlotAnswer)) : Prop :=
  ∀ e ∈ calls, ∀ h, e.2.2 = .ok (.ok (.handle h)) → s.slot = some h

/-- No call of a list of finished calls is a shutdown. -/
def NoShutdown (calls : List (Nat × SlotCall × SlotAnswer)) : Prop := ∀ e ∈ calls, e.2.1 ≠ .shutdown

section Lists

variable {s s' : SharedSlot} {l₁ l₂ : List (Nat × SlotCall × SlotAnswer)}

theorem handsOut_nil (s : SharedSlot) : HandsOut s [] := nofun

theorem handsOut_singleton {t : Nat} {c : SlotCall} {a : SlotAnswer}
    (h : ∀ x, a = .ok (.ok (.handle x)) → s.slot = some x) : HandsOut s [(t, c, a)] := by
  intro e he x hx
  rw [List.mem_singleton.mp he] at hx
  exact h x hx

theorem handsOut_append : HandsOut s (l₁ ++ l₂) ↔ HandsOut s l₁ ∧ HandsOut s l₂ := by
  simp only [HandsOut, List.mem_append]
  exact ⟨fun h => ⟨fun e he => h e (.inl he), fun e he => h e (.inr he)⟩,
    fun h e he => he.elim (h.1 e) (h.2 e)⟩

/-- Handles answered while the slot held them are answered by every later slot that still holds
    them. -/
theorem HandsOut.mono (h : HandsOut s l₁) (hs : ∀ x, s.slot = some x → s'.slot = some x) : HandsOut s' l₁ :=
  fun e he x hx => hs x (h e he x hx)

theorem noShutdown_singleton {t : Nat} {c : SlotCall} {a : SlotAnswer} (h : c ≠ .shutdown) :
    NoShutdown [(t, c, a)] := by
  intro e he
  rw [List.mem_singleton.mp he]
  exact h

theorem noShutdown_append : NoShutdown (l₁ ++ l₂) ↔ NoShutdown l₁ ∧ NoShutdown l₂ := by
  simp only [NoShutdown, List.mem_append]
  exact ⟨fun h => ⟨fun e he => h e (.inl he), fun e he => h e (.inr he)⟩,
    fun h e he => he.elim (h.1 e) (h.2 e)⟩

end Lists

section Step

variable {u u₁ : SlotUsers} {processors t : Nat}

/-- What one section does to the slot: it keeps the slot, and a handle it answers is the one the
    slot holds; or it fills the empty slot with a newly made context, and a handle it answers is
    that context's; or it is a shutdown and empties the slot. -/
theorem step_cases (h : u.step processors t = some u₁) :
    ∃ new, u₁.finished = u.finished ++ new ∧
      ((u₁.shared = u.shared ∧ HandsOut u.shared new ∧ NoShutdown new) ∨
        (∃ ctx, u.shared.slot = none ∧ u₁.shared = u.shared.install ctx ∧ HandsOut u₁.shared new ∧
          NoShutdown new) ∨
        (u₁.shared = u.shared.shutdown ∧ new = [(t, .shutdown, .ok (.ok .done))])) := by
  unfold step at h
  split at h
  · -- `init`
    rename_i cfg rest _
    cases hi : u.shared.init cfg processors with
    | ok r =>
      cases r with
      | ok s =>
        rw [hi, Option.some.injEq] at h
        subst h
        obtain ⟨ctx, hslot, rfl⟩ := SharedSlot.init_eq_ok hi
        exact ⟨_, rfl, .inr (.inl ⟨ctx, hslot, rfl, handsOut_singleton nofun, noShutdown_singleton nofun⟩)⟩
      | error e =>
        rw [hi, Option.some.injEq] at h
        subst h
        exact ⟨_, rfl, .inl ⟨rfl, handsOut_singleton nofun, noShutdown_singleton nofun⟩⟩
    | error p =>
      rw [hi, Option.some.injEq] at h
      subst h
      exact ⟨_, rfl, .inl ⟨rfl, handsOut_singleton nofun, noShutdown_singleton nofun⟩⟩
  · -- `context`
    rw [Option.some.injEq] at h
    subst h
    refine ⟨_, rfl, .inl ⟨rfl, handsOut_singleton fun x hx => ?_, noShutdown_singleton nofun⟩⟩
    cases hc : u.shared.context with
    | error e => rw [hc] at hx; cases hx
    | ok y =>
      rw [hc] at hx
      cases hx
      cases hs : u.shared.slot with
      | none => rw [SharedSlot.context_eq_error_iff.mpr hs] at hc; cases hc
      | some z => rw [SharedSlot.context_of_full hs] at hc; cases hc; rfl
  · -- the read of `getOrInit`
    cases hs : u.shared.slot with
    | some x =>
      rw [hs, Option.some.injEq] at h
      subst h
      exact ⟨_, rfl, .inl ⟨rfl, handsOut_singleton fun y hy => by cases hy; exact hs, noShutdown_singleton nofun⟩⟩
    | none =>
      rw [hs, Option.some.injEq] at h
      subst h
      exact ⟨[], (List.append_nil _).symm, .inl ⟨rfl, handsOut_nil _, nofun⟩⟩
  · -- the look again of `getOrInit`
    cases hr : u.shared.recheck processors with
    | ok r =>
      cases r with
      | ok p =>
        obtain ⟨x, s⟩ := p
        rw [hr, Option.some.injEq] at h
        subst h
        rcases SharedSlot.recheck_eq_ok hr with ⟨rfl, hs⟩ | ⟨ctx, hs, rfl, rfl⟩
        · exact ⟨_, rfl, .inl ⟨rfl, handsOut_singleton fun y hy => by cases hy; exact hs, noShutdown_singleton nofun⟩⟩
        · exact ⟨_, rfl, .inr (.inl ⟨ctx, hs, rfl, handsOut_singleton fun y hy => by cases hy; rfl,
            noShutdown_singleton nofun⟩)⟩
      | error e =>
        rw [hr, Option.some.injEq] at h
        subst h
        exact ⟨_, rfl, .inl ⟨rfl, handsOut_singleton nofun, noShutdown_singleton nofun⟩⟩
    | error p =>
      rw [hr, Option.some.injEq] at h
      subst h
      exact ⟨_, rfl, .inl ⟨rfl, handsOut_singleton nofun, noShutdown_singleton nofun⟩⟩
  · -- `shutdown`
    rw [Option.some.injEq] at h
    subst h
    exact ⟨_, rfl, .inr (.inr ⟨rfl, rfl⟩)⟩
  · cases h

/-- A thread's `init` answers "already initialized" exactly on a full slot, and then leaves the
    slot as it was; on an empty slot, a context that cannot be made is its answer, and the slot
    stays empty. -/
theorem step_init {cfg : Config} {rest : List SlotCall} (ht : u.threads[t]? = some (.ready (.init cfg :: rest))) :
    ∃ a u₁, u.step processors t = some u₁ ∧ u₁.finished = u.finished ++ [(t, .init cfg, a)] ∧
      (a = .ok (.error .alreadyInitialized) ↔ u.shared.slot.isSome) ∧
      (a = .ok (.error .alreadyInitialized) → u₁.shared = u.shared) ∧
      ∀ e, u.shared.slot = none → Context.create cfg processors = .ok (.error e) →
        a = .ok (.error e) ∧ u₁.shared = u.shared := by
  simp only [step, ht]
  rw [← @SharedSlot.init_refused_iff u.shared cfg processors]
  cases hi : u.shared.init cfg processors with
  | ok r =>
    cases r with
    | ok s =>
      refine ⟨_, _, rfl, rfl, ⟨nofun, nofun⟩, nofun, fun e hs hc => ?_⟩
      rw [SharedSlot.init_of_create_error hs hc] at hi
      cases hi
    | error e' =>
      refine ⟨_, _, rfl, rfl, ⟨fun h => by cases h; rfl, fun h => by cases h; rfl⟩, fun _ => rfl, fun e hs hc => ?_⟩
      rw [SharedSlot.init_of_create_error hs hc] at hi
      cases hi
      exact ⟨rfl, rfl⟩
  | error p =>
    refine ⟨_, _, rfl, rfl, ⟨nofun, nofun⟩, nofun, fun e hs hc => ?_⟩
    rw [SharedSlot.init_of_create_error hs hc] at hi
    cases hi

/-- A thread's `context` answers "not initialized" exactly on an empty slot, and otherwise the
    handle the slot holds; it changes nothing. -/
theorem step_context {rest : List SlotCall} (ht : u.threads[t]? = some (.ready (.context :: rest))) :
    ∃ a u₁, u.step processors t = some u₁ ∧ u₁.finished = u.finished ++ [(t, .context, a)] ∧
      u₁.shared = u.shared ∧ (a = .ok (.error .notInitialized) ↔ u.shared.slot = none) ∧
      ∀ x, u.shared.slot = some x → a = .ok (.ok (.handle x)) := by
  simp only [step, ht]
  refine ⟨_, _, rfl, rfl, rfl, ?_, fun x hx => by rw [SharedSlot.context_of_full hx]; rfl⟩
  rw [← SharedSlot.context_eq_error_iff]
  cases u.shared.context with
  | ok y => exact ⟨nofun, nofun⟩
  | error e => exact ⟨fun h => by cases h; rfl, fun h => by cases h; rfl⟩

theorem newest_step (h : u.step processors t = some u₁) (hn : u.shared.Newest) : u₁.shared.Newest := by
  obtain ⟨new, -, hcases⟩ := step_cases h
  rcases hcases with ⟨hs, -⟩ | ⟨ctx, -, hs, -⟩ | ⟨hs, -⟩
  · rw [hs]
    exact hn
  · rw [hs]
    exact SharedSlot.newest_install _ ctx
  · rw [hs]
    intro x hx
    cases hx

end Step

/-! ## Runs -/

section Runs

variable {u u' : SlotUsers} {processors : Nat}

theorem Runs.newest {u₀ : SlotUsers} (hrun : Runs processors u₀ u) (hn : u₀.shared.Newest) : u.shared.Newest := by
  induction hrun with
  | refl => exact hn
  | step t h _ ih => exact ih (newest_step h hn)

/-- From the start, the slot holds the newest context made, if any: no context made earlier is
    left in it. -/
theorem newest_of_runs {programs : List (List SlotCall)} (hrun : Runs processors (start programs) u) :
    u.shared.Newest :=
  hrun.newest nofun

/-- Along a run in which no shutdown finishes, a context in the slot stays there, at most one
    context is made and none while the slot is full, and every handle answered is the one the
    slot holds at the end. -/
theorem handsOut_of_runs (hrun : Runs processors u u') :
    ∃ new, u'.finished = u.finished ++ new ∧ (NoShutdown new →
      (∀ x, u.shared.slot = some x → u'.shared.slot = some x) ∧
      (u.shared.slot.isSome → u'.shared.made = u.shared.made) ∧ u'.shared.made ≤ u.shared.made + 1 ∧
      HandsOut u'.shared new) := by
  induction hrun with
  | refl u => exact ⟨[], (List.append_nil _).symm, fun _ => ⟨fun _ h => h, fun _ => rfl, Nat.le_succ _, handsOut_nil _⟩⟩
  | @step u u₁ u' t h _ ih =>
    obtain ⟨new₁, hf₁, hcases⟩ := step_cases h
    obtain ⟨new₂, hf₂, hrest⟩ := ih
    refine ⟨new₁ ++ new₂, by rw [hf₂, hf₁, List.append_assoc], fun hquiet => ?_⟩
    obtain ⟨hq₁, hq₂⟩ := noShutdown_append.mp hquiet
    obtain ⟨hkeep, hmade, hle, hout⟩ := hrest hq₂
    rcases hcases with ⟨hs, hout₁, -⟩ | ⟨ctx, hempty, hs, hout₁, -⟩ | ⟨-, rfl⟩
    · -- the section kept the slot
      rw [hs] at hkeep hmade hle
      exact ⟨hkeep, hmade, hle, handsOut_append.mpr ⟨hout₁.mono hkeep, hout⟩⟩
    · -- the section made the one context of the run
      have hfull : u₁.shared.slot.isSome := by rw [hs]; rfl
      have hmade₁ := hmade hfull
      rw [hs] at hmade₁
      refine ⟨?_, ?_, ?_, handsOut_append.mpr ⟨hout₁.mono hkeep, hout⟩⟩
      · intro x hx
        rw [hempty] at hx
        cases hx
      · intro hx
        rw [hempty] at hx
        cases hx
      · rw [hmade₁]
        rfl
    · exact absurd rfl (hq₁ _ List.mem_cons_self)

end Runs

end SlotUsers

/-- What the shared slot promises the threads that use it, on a host with `processors`
    processors. -/
structure SlotContract (processors : Nat) : Prop where
  /-- `init` answers "already initialized" exactly on a full slot, and then leaves the slot as it
      was; on an empty slot, a context that cannot be made is its answer, the slot staying
      empty. -/
  init : ∀ (u : SlotUsers) t cfg rest, u.threads[t]? = some (.ready (.init cfg :: rest)) →
    ∃ a u₁, u.step processors t = some u₁ ∧ u₁.finished = u.finished ++ [(t, .init cfg, a)] ∧
      (a = .ok (.error .alreadyInitialized) ↔ u.shared.slot.isSome) ∧
      (a = .ok (.error .alreadyInitialized) → u₁.shared = u.shared) ∧
      ∀ e, u.shared.slot = none → Context.create cfg processors = .ok (.error e) →
        a = .ok (.error e) ∧ u₁.shared = u.shared
  /-- `context` answers "not initialized" exactly on an empty slot, and otherwise the handle in
      it. -/
  context : ∀ (u : SlotUsers) t rest, u.threads[t]? = some (.ready (.context :: rest)) →
    ∃ a u₁, u.step processors t = some u₁ ∧ u₁.finished = u.finished ++ [(t, .context, a)] ∧
      u₁.shared = u.shared ∧ (a = .ok (.error .notInitialized) ↔ u.shared.slot = none) ∧
      ∀ x, u.shared.slot = some x → a = .ok (.ok (.handle x))
  /-- From the start, the slot holds the newest context made, if any. -/
  newest : ∀ programs (u : SlotUsers), SlotUsers.Runs processors (.start programs) u →
    ∀ x, u.shared.slot = some x → x.id + 1 = u.shared.made
  /-- Along every run in which no shutdown finishes, a context in the slot stays there, at most
      one context is made and none while the slot is full, and every handle answered is the one
      the slot holds at the end. -/
  quiet : ∀ u u' : SlotUsers, SlotUsers.Runs processors u u' →
    ∃ new, u'.finished = u.finished ++ new ∧ (SlotUsers.NoShutdown new →
      (∀ x, u.shared.slot = some x → u'.shared.slot = some x) ∧
      (u.shared.slot.isSome → u'.shared.made = u.shared.made) ∧ u'.shared.made ≤ u.shared.made + 1 ∧
      SlotUsers.HandsOut u'.shared new)

/-- The shared slot keeps its promises under every interleaving of its threads' locked
    sections. -/
theorem shared_slot_contract (processors : Nat) : SlotContract processors where
  init _ _ _ _ ht := SlotUsers.step_init ht
  context _ _ _ ht := SlotUsers.step_context ht
  newest _ _ hrun := SlotUsers.newest_of_runs hrun
  quiet _ _ hrun := SlotUsers.handsOut_of_runs hrun

end OffloadAlgebra
