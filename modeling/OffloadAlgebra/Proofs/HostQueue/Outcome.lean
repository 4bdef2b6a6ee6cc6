import Mathlib.Logic.Relation
import Mathlib.Data.Finset.Card
import OffloadAlgebra.Proofs.HostQueue.Progress
/-!
  What every event of the host queue ends as, under every schedule.

  STICKINESS.  A status, once an event has one, never changes (`Grows.step`): the only write of
  a status is a signal, and `Status.finish` keeps a status that is there.  Hence what waiting on
  a list finds (`settle?`: the first failed event once all before it completed) is, once found,
  found again in every later state (`Grows.settle?`).

  OUTCOME.  When a worker decides its job (`Outcome`), it has looked at the wait list in order:
  either every prerequisite completed, and then the work ran on the memory of that moment and
  its result is the outcome (complete, or failed with the fault's text), or the first one that
  did not complete failed, and the job fails naming it and its message.  `outcome_of_step` says
  every step that gives a job its result gives it this outcome.  Since the visible status is
  that result (`Layout.status_result`) and the wait list's verdict is sticky, every status is
  explained by the wait list as every LATER state sees it (`Explained`, `explained_reachable`).

  BLAME CHAINS.  A failed event either failed by its own work (a ROOT) or quotes the message of
  the failed prerequisite it names.  Following the quotes from any failed event ends at a root
  upstream of it whose message is contained in the event's (`exists_root`).  With two roots a
  dependant quotes only the first one in its wait list, so "the root's text is in every
  dependant's message" holds only for the root at the end of the chain.
-/

namespace OffloadAlgebra.HostQueue

/-! ## Statuses only grow -/

/-- `q'` keeps every status and every command of `q`. -/
structure Grows (q q' : HostQueue) : Prop where
  status : ∀ e t, q.status? e = some t → q'.status? e = some t
  command : ∀ e cmd, q.command? e = some cmd → q'.command? e = some cmd

theorem Grows.refl (q : HostQueue) : Grows q q := ⟨fun _ _ h => h, fun _ _ h => h⟩

theorem Grows.trans {q₁ q₂ q₃ : HostQueue} (h₁ : Grows q₁ q₂) (h₂ : Grows q₂ q₃) : Grows q₁ q₃ :=
  ⟨fun e t h => h₂.status e t (h₁.status e t h), fun e c h => h₂.command e c (h₁.command e c h)⟩

theorem label_eq_of_command {q : HostQueue} {e : Nat} {cmd : Command} (h : q.command? e = some cmd) :
    q.label e = cmd.label := by
  simp only [command?, Option.map_eq_some_iff] at h
  obtain ⟨job, hj, rfl⟩ := h
  simp [label, hj]

theorem command_of_status {q : HostQueue} {e : Nat} {t : Status} (h : q.status? e = some t) :
    ∃ cmd, q.command? e = some cmd :=
  Option.isSome_iff_exists.mp ((q.command?_isSome_iff e).mpr (lt_of_status?_eq_some h))

/-- A label of an event with a status stays. -/
theorem Grows.label {q q' : HostQueue} (h : Grows q q') {e : Nat} {t : Status} (he : q.status? e = some t) :
    q'.label e = q.label e := by
  obtain ⟨cmd, hcmd⟩ := command_of_status he
  rw [label_eq_of_command hcmd, label_eq_of_command (h.command e cmd hcmd)]

/-- What waiting on a list finds stays found. -/
theorem Grows.settle? {q q' : HostQueue} (h : Grows q q') :
    ∀ {l : List Nat} {x : Option (String × String)}, q.settle? l = some x → q'.settle? l = some x
  | [], _, hx => hx
  | e :: rest, x, hx => by
    simp only [HostQueue.settle?] at hx ⊢
    cases hs : q.status? e with
    | none => rw [hs] at hx; cases hx
    | some t =>
      rw [hs] at hx
      rw [h.status e t hs]
      cases t with
      | complete => exact h.settle? hx
      | failed m => rw [h.label hs]; exact hx

section Steps

variable {n : Nat} {q q' : HostQueue}

theorem grows_of_jobs_eq (h : q'.jobs = q.jobs) : Grows q q' :=
  ⟨fun e t ht => by simpa [status?, h] using ht, fun e c hc => by simpa [command?, h] using hc⟩

theorem grows_of_modify {f : Job → Job} {j : Nat} (hq : q'.jobs = q.jobs.modify j f)
    (hf : ∀ job, (f job).command = job.command) (hs : ∀ job, job.status ≠ none → (f job).status = job.status) :
    Grows q q' := by
  refine ⟨fun e t h => ?_, fun e c h => by rwa [command?_of_modify q hq hf]⟩
  simp only [status?, hq, Array.getElem?_modify] at h ⊢
  split
  · cases hj : q.jobs[e]? with
    | none => rw [hj] at h; cases h
    | some job =>
      rw [hj] at h
      simp only [Option.map_some, Option.bind_some] at h ⊢
      rw [hs job (by rw [h]; simp)]
      exact h
  · exact h

/-- Every step keeps every status and every command. -/
theorem Grows.step (h : Step q q') : Grows q q' := by
  cases h with
  | worker w hs =>
    cases workerStep_eq_some hs with
    | steal | empty | poll | pass | release => exact grows_of_jobs_eq rfl
    | @run j k job _ _ _ =>
      obtain ⟨_, f, hf, hr⟩ := q.run_eq j job.command
      have hq : ((q.run j job.command).setWorker w (.ran j)).jobs = q.jobs.modify j f := by
        rw [setWorker_jobs, hr]
      exact grows_of_modify hq (fun job => (hf job).1) (fun job _ => (hf job).2.1)
    | fail => exact grows_of_modify (q.blame_jobs _ _ _) (fun _ => rfl) (fun _ _ => rfl)
    | @signal j s _ _ =>
      obtain ⟨_, hr⟩ := q.signal_eq j s
      have hq : ((q.signal j s).setWorker w (.signalled j)).jobs =
          q.jobs.modify j fun job => { job with status := Status.finish job.status s } := by
        rw [setWorker_jobs, hr]
      refine grows_of_modify hq (fun _ => rfl) ?_
      intro job hjob
      obtain ⟨c, hc⟩ := Option.ne_none_iff_exists'.mp hjob
      simp [hc]
  | submit cmd hw _ =>
    refine ⟨fun e t h => ?_, fun e c h => ?_⟩
    · rw [status?_submit, if_neg (Nat.ne_of_lt (lt_of_status?_eq_some h))]; exact h
    · rw [command?_submit, if_neg (Nat.ne_of_lt ((q.command?_isSome_iff e).mp (by rw [h]; rfl)))]; exact h
  | drop => exact grows_of_jobs_eq rfl

end Steps

/-! ## Waiting on a list, in order -/

section Settle

variable {q : HostQueue}

/-- A list whose events all completed is passed. -/
theorem settle?_of_complete : ∀ {l : List Nat}, (∀ d ∈ l, q.status? d = some .complete) → q.settle? l = some none
  | [], _ => rfl
  | e :: rest, h => by
    simp only [HostQueue.settle?, h e List.mem_cons_self]
    exact settle?_of_complete fun d hd => h d (List.mem_cons_of_mem e hd)

/-- Waiting stops at a failed event once every event before it completed. -/
theorem settle?_of_failed :
    ∀ {l : List Nat} {k d : Nat} {m : String}, (∀ e ∈ l.take k, q.status? e = some .complete) →
      l[k]? = some d → q.status? d = some (.failed m) → q.settle? l = some (some (q.label d, m))
  | [], _, _, _, _, hk, _ => by simp at hk
  | e :: rest, 0, d, m, _, hk, hd => by
    simp only [List.getElem?_cons_zero, Option.some.injEq] at hk
    subst hk
    simp [HostQueue.settle?, hd]
  | e :: rest, k + 1, d, m, hall, hk, hd => by
    have he : q.status? e = some .complete := hall e (by simp)
    simp only [HostQueue.settle?, he]
    exact settle?_of_failed (k := k) (fun x hx => hall x (by rw [List.take_succ_cons]; exact List.mem_cons_of_mem e hx)) (by simpa using hk) hd

/-- A list passed has all its events complete. -/
theorem complete_of_settle? : ∀ {l : List Nat}, q.settle? l = some none → ∀ d ∈ l, q.status? d = some .complete
  | [], _ => by simp
  | e :: rest, h => by
    simp only [HostQueue.settle?] at h
    cases hs : q.status? e with
    | none => rw [hs] at h; cases h
    | some t =>
      rw [hs] at h
      cases t with
      | complete =>
        intro d hd
        rcases List.mem_cons.mp hd with rfl | hd
        · exact hs
        · exact complete_of_settle? h d hd
      | failed m => cases h

/-- A failure found on a list is that of one of its events, with its label. -/
theorem failed_of_settle? : ∀ {l : List Nat} {L M : String}, q.settle? l = some (some (L, M)) →
    ∃ d ∈ l, q.status? d = some (.failed M) ∧ q.label d = L
  | [], _, _, h => by cases h
  | e :: rest, L, M, h => by
    simp only [HostQueue.settle?] at h
    cases hs : q.status? e with
    | none => rw [hs] at h; cases h
    | some t =>
      rw [hs] at h
      cases t with
      | complete =>
        obtain ⟨d, hd, h1, h2⟩ := failed_of_settle? h
        exact ⟨d, List.mem_cons_of_mem e hd, h1, h2⟩
      | failed m =>
        simp only [Option.some.injEq, Prod.mk.injEq] at h
        obtain ⟨rfl, rfl⟩ := h
        exact ⟨e, List.mem_cons_self, hs, rfl⟩

end Settle

/-! ## The outcome a worker decides -/

/-- The outcome of a command decided in state `q`.  Waiting on its list in order either passes
    every event, and then the work runs on the memory of `q` and its result decides; or stops at
    the first event that failed, which the command's failure names with its message. -/
inductive Outcome (q : HostQueue) (cmd : Command) : Status → Prop
  | ran {ws : List (Nat × Array Float)} (hs : q.settle? cmd.waits = some none) (hw : cmd.work q.ctx = .ok ws) :
      Outcome q cmd .complete
  | faulted {f : Fault} (hs : q.settle? cmd.waits = some none) (hw : cmd.work q.ctx = .error f) :
      Outcome q cmd (.failed (cmd.label ++ ": " ++ f.text))
  | blamed {L M : String} (hs : q.settle? cmd.waits = some (some (L, M))) :
      Outcome q cmd (.failed (cmd.label ++ ": " ++ prerequisiteText L M))

section Decide

variable {n : Nat} {q q' : HostQueue}

/-- The outcome of running job `j` when its whole wait list completed. -/
theorem outcome_run {j : Nat} {job : Job} (hj : q.jobs[j]? = some job)
    (hs : q.settle? job.command.waits = some none) :
    ∃ t, (q.run j job.command).result? j = some t ∧ Outcome q job.command t := by
  have hlt : j < q.jobs.size := (Array.getElem?_eq_some_iff.mp hj).1
  rw [q.result?_run j job.command hlt]
  cases hw : job.command.work q.ctx with
  | ok ws => exact ⟨_, rfl, .ran hs hw⟩
  | error f => exact ⟨_, rfl, .faulted hs hw⟩

/-- A worker in the middle of a wait list has seen every event before its place complete. -/
theorem Layout.settle?_of_waiting (hL : q.Layout n) {w j k : Nat} {job : Job}
    (hw : q.workers[w]? = some (.waiting j k)) (hj : q.jobs[j]? = some job) :
    ∀ e ∈ job.command.waits.take k, q.status? e = some .complete := by
  obtain ⟨-, -, cmd, hcmd, hall⟩ := hL.phase w _ hw
  have : cmd = job.command := by simp [command?, hj] at hcmd; exact hcmd.symm
  exact this ▸ hall

/-- Every step that gives a job its result gives it the outcome decided on the state before. -/
theorem Layout.outcome_of_step (hL : q.Layout n) (h : Step q q') {j : Nat} {t : Status}
    (h0 : q.result? j = none) (h1 : q'.result? j = some t) :
    ∃ cmd, q.command? j = some cmd ∧ Outcome q cmd t := by
  cases h with
  | worker w hs =>
    cases workerStep_eq_some hs with
    | steal | empty | poll | pass | release => exact absurd (h0.symm.trans h1) (by simp)
    | @run i k job hw hi hk =>
      by_cases hij : i = j
      · subst hij
        -- the worker passed the whole list: every prerequisite completed
        have hall := hL.settle?_of_waiting hw hi
        rw [List.take_of_length_le (List.getElem?_eq_none_iff.mp hk)] at hall
        obtain ⟨t', ht', hout⟩ := outcome_run hi (settle?_of_complete hall)
        rw [result?_setWorker, ht'] at h1
        cases h1
        exact ⟨job.command, by simp [command?, hi], hout⟩
      · rw [result?_setWorker, q.result?_run_ne i job.command hij, h0] at h1
        cases h1
    | @fail i k d job m hw hi hk hd =>
      rw [result?_setWorker, result?_blame] at h1
      split at h1
      · rename_i hij
        subst hij
        rw [hi] at h1
        cases h1
        exact ⟨job.command, by simp [command?, hi],
          .blamed (settle?_of_failed (hL.settle?_of_waiting hw hi) hk hd)⟩
      · rw [h0] at h1; cases h1
    | signal => simp [h0] at h1
  | submit cmd _ _ =>
    rw [result?_submit] at h1
    split at h1
    · cases h1
    · rw [h0] at h1; cases h1
  | drop => exact absurd (h0.symm.trans h1) (by simp)

/-- A result, once decided, stays. -/
theorem Layout.result_step (hL : q.Layout n) (h : Step q q') {j : Nat} {t : Status}
    (hj : q.result? j = some t) : q'.result? j = some t := by
  cases h with
  | worker w hs =>
    cases workerStep_eq_some hs with
    | steal | empty | poll | pass | release => exact hj
    | @run i k job hw _ _ =>
      obtain ⟨h0, -⟩ := hL.phase w _ hw
      have hij : i ≠ j := fun hij => by subst hij; rw [h0] at hj; cases hj
      rw [result?_setWorker, q.result?_run_ne i job.command hij, hj]
    | @fail i k d job m hw _ _ _ =>
      obtain ⟨h0, -⟩ := hL.phase w _ hw
      have hij : i ≠ j := fun hij => by subst hij; rw [h0] at hj; cases hj
      rw [result?_setWorker, result?_blame, if_neg hij, hj]
    | signal => simpa using hj
  | submit cmd _ _ =>
    have hlt : j < q.jobs.size := by
      rcases Nat.lt_or_ge j q.jobs.size with hlt | hge
      · exact hlt
      · rw [q.result?_eq_none_of_size_le hge] at hj; cases hj
    rw [result?_submit, if_neg (Nat.ne_of_lt hlt), hj]
  | drop => exact hj

end Decide

/-! ## Every status is explained by its wait list -/

/-- What a status says about its command's wait list, in any state after it was decided:
    complete means every prerequisite completed; a failure is the command's own fault after
    every prerequisite completed, or names the first prerequisite in list order that failed. -/
def Explained (q : HostQueue) (cmd : Command) : Status → Prop
  | .complete => q.settle? cmd.waits = some none
  | .failed m => (q.settle? cmd.waits = some none ∧ ∃ f : Fault, m = cmd.label ++ ": " ++ f.text) ∨
      ∃ L M, q.settle? cmd.waits = some (some (L, M)) ∧ m = cmd.label ++ ": " ++ prerequisiteText L M

/-- Every decided result of `q` is explained by its command's wait list. -/
def Accounted (q : HostQueue) : Prop :=
  ∀ j t, q.result? j = some t → ∃ cmd, q.command? j = some cmd ∧ Explained q cmd t

section Explain

variable {n : Nat} {q q' : HostQueue} {cmd : Command} {t : Status}

theorem Outcome.explained (h : Outcome q cmd t) : Explained q cmd t := by
  cases h with
  | ran hs _ => exact hs
  | faulted hs _ => exact Or.inl ⟨hs, _, rfl⟩
  | blamed hs => exact Or.inr ⟨_, _, hs, rfl⟩

theorem Explained.grows (hg : Grows q q') (h : Explained q cmd t) : Explained q' cmd t := by
  cases t with
  | complete => exact hg.settle? h
  | failed m =>
    rcases h with ⟨hs, hf⟩ | ⟨L, M, hs, hm⟩
    · exact Or.inl ⟨hg.settle? hs, hf⟩
    · exact Or.inr ⟨L, M, hg.settle? hs, hm⟩

/-- A step keeps every result explained: old results stay and stay explained, a new one is an
    outcome. -/
theorem Layout.accounted_step (hL : q.Layout n) (hA : Accounted q) (h : Step q q') : Accounted q' := by
  have hg := Grows.step h
  intro j t ht
  cases h0 : q.result? j with
  | none =>
    obtain ⟨cmd, hcmd, hout⟩ := hL.outcome_of_step h h0 ht
    exact ⟨cmd, hg.command j cmd hcmd, hout.explained.grows hg⟩
  | some t₀ =>
    have heq : t₀ = t := Option.some.inj ((hL.result_step h h0).symm.trans ht)
    subst heq
    obtain ⟨cmd, hcmd, hex⟩ := hA j t₀ h0
    exact ⟨cmd, hg.command j cmd hcmd, hex.grows hg⟩

theorem accounted_reachable {ctx : Context} (h : Reachable ctx n q) : Accounted q := by
  induction h with
  | start => intro j t ht; simp [result?, HostQueue.start] at ht
  | step hr hs ih => exact (Layout.reachable hr).accounted_step ih hs

/-- In every reachable state, every status is the decided result and is explained by the
    command's wait list as that state sees it. -/
theorem explained_reachable {ctx : Context} (h : Reachable ctx n q) {j : Nat} (ht : q.status? j = some t) :
    q.result? j = some t ∧ ∃ cmd, q.command? j = some cmd ∧ Explained q cmd t := by
  have hr := (Layout.reachable h).status_result j t ht
  exact ⟨hr, accounted_reachable h j t hr⟩

end Explain

/-! ## Blame chains -/

/-- Event `e` has `d` on its wait list. -/
def WaitsOn (q : HostQueue) (e d : Nat) : Prop := ∃ cmd, q.command? e = some cmd ∧ d ∈ cmd.waits

/-- Event `r` failed with `m` by its own work: every prerequisite completed. -/
def RootFailure (q : HostQueue) (r : Nat) (m : String) : Prop :=
  q.status? r = some (.failed m) ∧ ∃ cmd, q.command? r = some cmd ∧ q.settle? cmd.waits = some none

/-- A failure naming a prerequisite quotes that prerequisite's message. -/
theorem infix_prerequisiteText (label L M : String) :
    M.toList <:+: (label ++ ": " ++ prerequisiteText L M).toList := by
  unfold prerequisiteText
  -- the message is the label, then the text up to the quote, the quote, and a closing bracket
  have h₁ : M.toList <:+: ("prerequisite `" ++ L ++ "` failed (" ++ M).toList := by
    rw [String.toList_append (t := M)]
    exact (List.suffix_append _ _).isInfix
  have h₂ : ("prerequisite `" ++ L ++ "` failed (" ++ M).toList <:+:
      ("prerequisite `" ++ L ++ "` failed (" ++ M ++ ")").toList := by
    rw [String.toList_append (t := ")")]
    exact (List.prefix_append _ _).isInfix
  have h₃ : ("prerequisite `" ++ L ++ "` failed (" ++ M ++ ")").toList <:+:
      (label ++ ": " ++ ("prerequisite `" ++ L ++ "` failed (" ++ M ++ ")")).toList := by
    rw [String.toList_append (s := label ++ ": ")]
    exact (List.suffix_append _ _).isInfix
  exact h₁.trans (h₂.trans h₃)

section Chains

variable {ctx : Context} {n : Nat} {q : HostQueue}

/-- Every failed event quotes the message of a root failure upstream of it. -/
theorem exists_root (h : Reachable ctx n q) :
    ∀ e m, q.status? e = some (.failed m) →
      ∃ r mr, Relation.ReflTransGen q.WaitsOn e r ∧ RootFailure q r mr ∧ mr.toList <:+: m.toList := by
  intro e
  induction e using Nat.strongRecOn with
  | _ e ih =>
    intro m hm
    obtain ⟨-, cmd, hcmd, hex⟩ := explained_reachable h hm
    rcases hex with ⟨hs, -⟩ | ⟨L, M, hs, rfl⟩
    · -- its own work failed: it is the root
      exact ⟨e, m, .refl, ⟨hm, cmd, hcmd, hs⟩, List.infix_refl _⟩
    · -- it names a failed prerequisite, older, whose chain continues
      obtain ⟨d, hd, hdm, -⟩ := failed_of_settle? hs
      have hde := (Layout.reachable h).waits_lt e cmd hcmd d hd
      obtain ⟨r, mr, hchain, hroot, hinf⟩ := ih d hde M hdm
      exact ⟨r, mr, .head ⟨cmd, hcmd, hd⟩ hchain, hroot, hinf.trans (infix_prerequisiteText _ L M)⟩

/-- An event downstream of a failure never completes. -/
theorem not_complete_of_upstream (h : Reachable ctx n q) {e r : Nat} {mr : String}
    (hchain : Relation.ReflTransGen q.WaitsOn e r) (hr : q.status? r = some (.failed mr)) :
    q.status? e ≠ some .complete := by
  induction hchain using Relation.ReflTransGen.head_induction_on with
  | refl => rw [hr]; simp
  | head hwait _ ih =>
    -- a completed event passed its whole wait list, so the next event on the chain completed
    intro hc
    obtain ⟨cmd, hcmd, hd⟩ := hwait
    obtain ⟨-, cmd', hcmd', hex⟩ := explained_reachable h hc
    rw [hcmd] at hcmd'
    cases hcmd'
    exact ih (complete_of_settle? hex _ hd)

/-- With a single root failure, every event downstream of it that ended failed, and its message
    contains the root's. -/
theorem root_text_of_single_root (h : Reachable ctx n q) {r : Nat} {mr : String} (hr : RootFailure q r mr)
    (hone : ∀ r' m', RootFailure q r' m' → r' = r) {e : Nat} {t : Status}
    (hchain : Relation.ReflTransGen q.WaitsOn e r) (he : q.status? e = some t) :
    ∃ m, t = .failed m ∧ mr.toList <:+: m.toList := by
  cases t with
  | complete => exact absurd he (not_complete_of_upstream h hchain hr.1)
  | failed m =>
    obtain ⟨r', mr', -, hroot', hinf⟩ := exists_root h e m he
    have hrr := hone r' mr' hroot'
    subst hrr
    have : mr' = mr := by have := hroot'.1.symm.trans hr.1; simpa using this
    subst this
    exact ⟨m, rfl, hinf⟩

end Chains

/-! ## Command counters -/

/-- Jobs whose work ran to success. -/
def ranCount (q : HostQueue) : Nat :=
  (List.range q.jobs.size).countP fun j => q.result? j = some .complete

/-- Jobs whose event failed. -/
def failedCount (q : HostQueue) : Nat :=
  (List.range q.jobs.size).countP fun j => q.status? j ≠ none ∧ q.status? j ≠ some .complete

/-- The command counters of `q` against those of the context the queue started on: each
    success and each failure counted once, modulo the counters' width. -/
def Counted (ctx : Context) (q : HostQueue) : Prop :=
  q.ctx.metrics.commandsExecuted % Telemetry.counterModulus = (ctx.metrics.commandsExecuted + q.ranCount) % Telemetry.counterModulus ∧
  q.ctx.metrics.commandsFailed % Telemetry.counterModulus = (ctx.metrics.commandsFailed + q.failedCount) % Telemetry.counterModulus

section Counting

theorem countP_range_congr {p p' : Nat → Bool} {N : Nat} (h : ∀ i < N, p' i = p i) :
    (List.range N).countP p' = (List.range N).countP p :=
  List.countP_congr fun i hi => by rw [h i (List.mem_range.mp hi)]

/-- Turning one index of a range from uncounted to counted adds one. -/
theorem countP_range_flip {p p' : Nat → Bool} {j : Nat} (hpj : p j = false) (hp'j : p' j = true) :
    ∀ {N : Nat}, j < N → (∀ i < N, i ≠ j → p' i = p i) →
      (List.range N).countP p' = (List.range N).countP p + 1
  | 0, hj, _ => absurd hj (Nat.not_lt_zero j)
  | N + 1, hj, h => by
    rw [List.range_succ, List.countP_append, List.countP_append]
    by_cases hjN : j = N
    · subst hjN
      rw [countP_range_congr fun i hi => h i (by omega) (by omega)]
      simp [hpj, hp'j]
    · rw [countP_range_flip hpj hp'j (by omega) fun i hi hij => h i (by omega) hij]
      simp [h N (by omega) (Ne.symm hjN)]
      omega

/-- A new job with no result and no status counts in neither count. -/
theorem countP_range_succ {p : Nat → Bool} {N : Nat} (hN : p N = false) :
    (List.range (N + 1)).countP p = (List.range N).countP p := by
  simp [List.range_succ, List.countP_append, hN]

end Counting

section Counters

variable {ctx : Context} {n : Nat} {q q' : HostQueue}

/-- A run counts its command when the work succeeds. -/
theorem run_metrics (j : Nat) (cmd : Command) :
    (q.run j cmd).ctx.metrics = match cmd.work q.ctx with
      | .ok _ => q.ctx.metrics.countCommand
      | .error _ => q.ctx.metrics := by
  unfold run
  cases cmd.work q.ctx with
  | ok ws => rfl
  | error f => rfl

/-- A signal counts a failure. -/
theorem signal_metrics (j : Nat) (s : Status) :
    (q.signal j s).ctx.metrics = match s with
      | .complete => q.ctx.metrics
      | .failed _ => q.ctx.metrics.recordCommandFailed := by
  cases s <;> rfl

/-- A wrapped counter read modulo its width is the plain sum. -/
theorem bumpBy_mod (a k : Nat) :
    Telemetry.Metrics.bumpBy a k % Telemetry.counterModulus = (a + k) % Telemetry.counterModulus :=
  Nat.mod_mod _ _

/-- A change that keeps both counts and the counters keeps them counted. -/
theorem Counted.keep (hC : Counted ctx q) (hr : q'.ranCount = q.ranCount) (hf : q'.failedCount = q.failedCount)
    (hm : q'.ctx.metrics = q.ctx.metrics) : Counted ctx q' := by
  rw [Counted, hm, hr, hf]
  exact hC

theorem Counted.of_eq (hC : Counted ctx q) (hc : q'.ctx.metrics = q.ctx.metrics) (hj : q'.jobs = q.jobs) :
    Counted ctx q' := by
  have hr : q'.ranCount = q.ranCount := by unfold ranCount result?; rw [hj]
  have hf : q'.failedCount = q.failedCount := by unfold failedCount status?; rw [hj]
  exact hC.keep hr hf hc

/-- Counting `a` more successes and `b` more failures, in the job counts and in the counters
    alike, keeps the counters counted. -/
theorem Counted.advance {a b : Nat} (hC : Counted ctx q)
    (hr : q'.ranCount = q.ranCount + a) (hf : q'.failedCount = q.failedCount + b)
    (he : q'.ctx.metrics.commandsExecuted % Telemetry.counterModulus =
      (q.ctx.metrics.commandsExecuted + a) % Telemetry.counterModulus)
    (hx : q'.ctx.metrics.commandsFailed % Telemetry.counterModulus =
      (q.ctx.metrics.commandsFailed + b) % Telemetry.counterModulus) :
    Counted ctx q' := by
  constructor
  · rw [he, hr, ← Nat.mod_add_mod, hC.1, Nat.mod_add_mod, Nat.add_assoc]
  · rw [hx, hf, ← Nat.mod_add_mod, hC.2, Nat.mod_add_mod, Nat.add_assoc]

/-- Running a job that had no result counts one success when the work succeeds, and nothing
    when it faults: that failure is counted when it is signalled. -/
theorem Counted.run (hC : Counted ctx q) {j : Nat} {job : Job} (hj : q.jobs[j]? = some job)
    (h0 : q.result? j = none) : Counted ctx (q.run j job.command) := by
  have hlt : j < q.jobs.size := (Array.getElem?_eq_some_iff.mp hj).1
  have hres := q.result?_run j job.command hlt
  have hmet := q.run_metrics j job.command
  have hfc : (q.run j job.command).failedCount = q.failedCount := by
    simp only [failedCount, status?_run, run_size]
  have hother (i : Nat) (hi : i ≠ j) : (q.run j job.command).result? i = q.result? i :=
    q.result?_run_ne j job.command (Ne.symm hi)
  cases hwk : job.command.work q.ctx with
  | ok ws =>
    rw [hwk] at hres hmet
    have hrc : (q.run j job.command).ranCount = q.ranCount + 1 := by
      simp only [ranCount, run_size]
      exact countP_range_flip (by simp [h0]) (by simp [hres]) hlt fun i _ hi => by rw [hother i hi]
    exact hC.advance (b := 0) hrc hfc (by rw [hmet]; exact bumpBy_mod _ _) (by rw [hmet]; rfl)
  | error f =>
    rw [hwk] at hres hmet
    have hrc : (q.run j job.command).ranCount = q.ranCount := by
      simp only [ranCount, run_size]
      refine countP_range_congr fun i _ => ?_
      by_cases hi : i = j
      · subst hi; simp [hres, h0]
      · rw [hother i hi]
    exact hC.keep hrc hfc hmet

/-- Blaming a job that had no result counts nothing: the failure is counted when it is
    signalled. -/
theorem Counted.blame (hC : Counted ctx q) {j d : Nat} {m : String} (h0 : q.result? j = none) :
    Counted ctx (q.blame j d m) := by
  have hrc : (q.blame j d m).ranCount = q.ranCount := by
    simp only [ranCount, blame_size]
    refine countP_range_congr fun i _ => ?_
    rw [result?_blame]
    split
    · rename_i hi; subst hi; rw [h0]; cases q.jobs[j]? <;> simp
    · rfl
  have hfc : (q.blame j d m).failedCount = q.failedCount := by
    simp only [failedCount, status?_blame, blame_size]
  exact hC.keep hrc hfc rfl

/-- Signalling the result of a job whose event was pending counts a failure exactly when the
    result is one, and the event joins the failed ones then. -/
theorem Counted.signal (hC : Counted ctx q) {j : Nat} {s : Status} (hs0 : q.status? j = none)
    (hr : q.result? j = some s) : Counted ctx (q.signal j s) := by
  have hlt : j < q.jobs.size := by
    rcases Nat.lt_or_ge j q.jobs.size with hlt | hge
    · exact hlt
    · rw [q.result?_eq_none_of_size_le hge] at hr; cases hr
  have hrc : (q.signal j s).ranCount = q.ranCount := by
    simp only [ranCount, signal_size, result?_signal]
  have hstat (i : Nat) : (q.signal j s).status? i = if i = j then some s else q.status? i := by
    rw [status?_signal]
    by_cases hi : i = j
    · subst hi; simp [hlt, hs0]
    · simp [hi, Ne.symm hi]
  have hmet := q.signal_metrics j s
  cases s with
  | complete =>
    have hfc : (q.signal j .complete).failedCount = q.failedCount := by
      simp only [failedCount, signal_size]
      refine countP_range_congr fun i _ => ?_
      rw [hstat]
      split
      · rename_i hi; subst hi; simp [hs0]
      · rfl
    exact hC.keep hrc hfc hmet
  | failed m =>
    have hfc : (q.signal j (.failed m)).failedCount = q.failedCount + 1 := by
      simp only [failedCount, signal_size]
      exact countP_range_flip (by simp [hs0]) (by simp [hstat]) hlt fun i _ hi => by rw [hstat, if_neg hi]
    exact hC.advance (a := 0) hrc hfc (by rw [hmet]; rfl) (by rw [hmet]; exact bumpBy_mod _ _)

/-- A submission adds a job with no result and no status: it counts in neither count. -/
theorem Counted.submit (hC : Counted ctx q) (cmd : Command) : Counted ctx (q.submit cmd) := by
  have hrc : (q.submit cmd).ranCount = q.ranCount := by
    simp only [ranCount, submit_jobs, Array.size_push]
    rw [countP_range_succ (by simp [result?_submit])]
    exact countP_range_congr fun i hi => by rw [result?_submit, if_neg (Nat.ne_of_lt hi)]
  have hfc : (q.submit cmd).failedCount = q.failedCount := by
    simp only [failedCount, submit_jobs, Array.size_push]
    rw [countP_range_succ (by simp [status?_submit])]
    exact countP_range_congr fun i hi => by rw [status?_submit, if_neg (Nat.ne_of_lt hi)]
  exact hC.keep hrc hfc rfl

/-- A step keeps the counters counted: each move of a worker is one of the lemmas above, and
    a move that only changes a worker's phase counts nothing. -/
theorem Layout.counted_step (hL : q.Layout n) (hC : Counted ctx q) (h : Step q q') : Counted ctx q' := by
  cases h with
  | worker w hs =>
    cases workerStep_eq_some hs with
    | steal | empty | poll | pass | release => exact hC.of_eq rfl rfl
    | @run j k job hw hj _ => exact (hC.run hj (hL.phase w _ hw).1).of_eq rfl rfl
    | @fail j k d job m hw _ _ _ => exact (hC.blame (hL.phase w _ hw).1).of_eq rfl rfl
    | @signal j s hw hr => exact (hC.signal (hL.phase w _ hw).2 hr).of_eq rfl rfl
  | submit cmd _ _ => exact hC.submit cmd
  | drop => exact hC.of_eq rfl rfl

theorem counted_reachable (h : Reachable ctx n q) : Counted ctx q := by
  induction h with
  | start =>
    refine ⟨?_, ?_⟩ <;> simp [ranCount, failedCount, HostQueue.start]
  | step hr hs ih => exact (Layout.reachable hr).counted_step ih hs

/-- Once nothing is in flight, successes and failures together are the submitted commands. -/
theorem counters_of_drained (h : Reachable ctx n q) (h0 : q.inFlight = 0) :
    (q.ctx.metrics.commandsExecuted + q.ctx.metrics.commandsFailed) % Telemetry.counterModulus =
      (ctx.metrics.commandsExecuted + ctx.metrics.commandsFailed + q.jobs.size) % Telemetry.counterModulus := by
  have hL := Layout.reachable h
  have hC := counted_reachable h
  -- every job has a status, which is its result: a job is a success or a failure, not both
  have hsplit : q.ranCount + q.failedCount = q.jobs.size := by
    have hrc : q.ranCount = (List.range q.jobs.size).countP fun j => q.status? j = some .complete := by
      refine countP_range_congr fun i hi => ?_
      obtain ⟨t, ht⟩ := Option.ne_none_iff_exists'.mp (status_of_inFlight_eq_zero hL h0 hi)
      rw [ht, hL.status_result i t ht]
    have hsum := List.length_eq_countP_add_countP (fun j => decide (q.status? j = some .complete))
      (l := List.range q.jobs.size)
    have hfc : q.failedCount =
        (List.range q.jobs.size).countP fun a => decide ¬decide (q.status? a = some .complete) = true := by
      refine countP_range_congr fun i hi => ?_
      simp [status_of_inFlight_eq_zero hL h0 hi]
    rw [List.length_range] at hsum
    omega
  rw [Nat.add_mod, hC.1, hC.2, ← Nat.add_mod]
  congr 1
  omega

end Counters

/-! ## The life of an event -/

/-- What holds of the events of a queue state `q` reached from a context `ctx`. -/
structure EventLife (ctx : Context) (q : HostQueue) : Prop where
  /-- A step keeps every status, and gives a job its result only as the outcome decided on the
      state before it. -/
  step : ∀ q', Step q q' → (∀ e t, q.status? e = some t → q'.status? e = some t) ∧
    ∀ j t, q.result? j = none → q'.result? j = some t → ∃ cmd, q.command? j = some cmd ∧ Outcome q cmd t
  /-- Every status is its job's decided result, explained by the wait list. -/
  explained : ∀ j t, q.status? j = some t →
    q.result? j = some t ∧ ∃ cmd, q.command? j = some cmd ∧ Explained q cmd t
  /-- Every failed event quotes a root failure upstream of it. -/
  rooted : ∀ e m, q.status? e = some (.failed m) →
    ∃ r mr, Relation.ReflTransGen q.WaitsOn e r ∧ RootFailure q r mr ∧ mr.toList <:+: m.toList
  /-- Nothing downstream of a failure completes. -/
  downstream : ∀ e r mr, Relation.ReflTransGen q.WaitsOn e r → q.status? r = some (.failed mr) →
    q.status? e ≠ some .complete
  /-- Once nothing is in flight, the two command counters together have counted every job. -/
  counted : q.inFlight = 0 →
    (q.ctx.metrics.commandsExecuted + q.ctx.metrics.commandsFailed) % Telemetry.counterModulus =
      (ctx.metrics.commandsExecuted + ctx.metrics.commandsFailed + q.jobs.size) % Telemetry.counterModulus

/-- Every state any schedule reaches, with any number of workers, has these event semantics. -/
theorem event_semantics {ctx : Context} {n : Nat} {q : HostQueue} (h : Reachable ctx n q) : EventLife ctx q where
  step _ hs := ⟨(Grows.step hs).status, fun _ _ h0 h1 => (Layout.reachable h).outcome_of_step hs h0 h1⟩
  explained _ _ ht := explained_reachable h ht
  rooted := exists_root h
  downstream _ _ _ hc hr := not_complete_of_upstream h hc hr
  counted := counters_of_drained h

/-- A command with no prerequisites whose work fails with a device fault. -/
def faulting (label : String) : Command :=
  { label, waits := [], work := fun _ => .error (.error (.device ("simulated device fault in " ++ label))) }

/-- One worker runs three jobs: `dep` waits on `fa` and then `fb`, which both fail by their own
    work. -/
def twoRoots : List Action :=
  [.submit (faulting "fa"), .submit (faulting "fb"),
    .submit { label := "dep", waits := [0, 1], work := fun _ => .ok [] }] ++ List.replicate 11 (.worker 0)

theorem event_semantics_two_roots :
    ∃ q, (HostQueue.start default 1).runSchedule twoRoots = some q ∧ Reachable (default : Context) 1 q ∧
      EventLife default q := by
  obtain ⟨q, hq⟩ := Option.isSome_iff_exists.mp
    (show ((HostQueue.start default 1).runSchedule twoRoots).isSome by decide)
  have hr : Reachable (default : Context) 1 q := (Reachable.start).runSchedule hq
  exact ⟨q, hq, hr, event_semantics hr⟩

/-- With two root failures a dependant quotes only the first on its wait list.  `dep` waits on
    `fa` and then `fb`, which both fail by their own work; `dep` names `fa`, and its message does
    not contain that of `fb`, a root failure it waits on. -/
theorem dependant_quotes_first_root :
    ∃ q, Reachable (default : Context) 1 q ∧ RootFailure q 1 "fb: simulated device fault in fb" ∧
      q.WaitsOn 2 1 ∧ ∃ m, q.status? 2 = some (.failed m) ∧
        ¬ "fb: simulated device fault in fb".toList <:+: m.toList := by
  obtain ⟨q, hq⟩ := Option.isSome_iff_exists.mp
    (show ((HostQueue.start default 1).runSchedule twoRoots).isSome by decide)
  -- one worker runs `fa`, then `fb`, then finds `dep`'s first prerequisite failed
  have h1 : q.status? 1 = some (.failed "fb: simulated device fault in fb") := by
    simpa [hq] using (show ((HostQueue.start default 1).runSchedule twoRoots).map (·.status? 1) =
      some (some (.failed "fb: simulated device fault in fb")) by decide)
  have h2 : q.status? 2 = some (.failed "dep: prerequisite `fa` failed (fa: simulated device fault in fa)") := by
    simpa [hq] using (show ((HostQueue.start default 1).runSchedule twoRoots).map (·.status? 2) =
      some (some (.failed "dep: prerequisite `fa` failed (fa: simulated device fault in fa)")) by decide)
  have hc1 : (q.command? 1).map (fun c => q.settle? c.waits) = some (some none) := by
    simpa [hq] using (show ((HostQueue.start default 1).runSchedule twoRoots).map
      (fun q => (q.command? 1).map fun c => q.settle? c.waits) = some (some (some none)) by decide)
  have hc2 : (q.command? 2).map (·.waits) = some [0, 1] := by
    simpa [hq] using (show ((HostQueue.start default 1).runSchedule twoRoots).map
      (fun q => (q.command? 2).map (·.waits)) = some (some [0, 1]) by decide)
  obtain ⟨c1, hc1', hs1⟩ := Option.map_eq_some_iff.mp hc1
  obtain ⟨c2, hc2', hw2⟩ := Option.map_eq_some_iff.mp hc2
  refine ⟨q, (Reachable.start).runSchedule hq, ⟨h1, c1, hc1', hs1⟩, ⟨c2, hc2', by simp [hw2]⟩, _, h2, by decide⟩

end OffloadAlgebra.HostQueue
