import Mathlib
import OffloadAlgebra.Proofs.Session.Accesses
import OffloadAlgebra.Proofs.Session.Refinement
/-!
  A program on the host queue answers as in program order.

  However the workers interleave, the answers a program gets on the host queue are the first
  answers of its calls run one at a time in program order, and an event that ended in the queue
  ended as it does in that run (`Session.sequential_answers`).  What the sequential run answers
  is read off the accesses of the calls before each call (`runCalls_copy`, `runCalls_launch`).
  Together: a copy back to the host answers the contents the earlier calls leave in the matrix,
  or a device error exactly when an access of the matrix by an earlier call failed; and a
  launch's event ends failed exactly when an earlier access that conflicts with one of its
  buffers failed, or when the launch's own work faults on the memory the earlier calls leave
  (`Session.follows_program_order`).  The kernels may be bound to any host implementations:
  each carries the proof that it writes only buffers passed to it for writing, and that is all
  the argument asks of them (`HostQueue.launchCommand_confined`).
-/

namespace OffloadAlgebra

open Context

namespace Session

/-- What the answers of a program on the host queue say, read against the sequential run of its
    calls from `ctx₀`: they are the first answers of that run, and an event that ended, ended as
    it does there; a copy back to the host answers the contents the calls before it left, or a
    device error exactly when an access of the matrix by an earlier call failed; and a launch's
    event fails exactly when an earlier conflicting access failed or the launch's work faults on
    the memory the calls before it left. -/
structure FollowsProgram (ctx₀ : Context) (calls : List Call) (s : Session) : Prop where
  answers : s.answers <+: (runCalls ctx₀ calls).1
  events : ∀ e st, s.queue.status? e = some st → (runCalls ctx₀ calls).2.events[e]? = some ⟨s.queue.label e, st⟩
  copies : ∀ i h a, calls[i]? = some (.toHost h) → s.answers[i]? = some a →
    ∃ r, a = .ok r ∧ CopiesBack (accessLog ctx₀ (calls.take i)) (contextBefore ctx₀ calls i) h r
  launches : ∀ i spec range args e, calls[i]? = some (.invoke spec range args) →
    s.answers[i]? = some (.ok (.ok (.event e))) →
    ∃ k c₁, (prepareLaunch spec range args).run.run (contextBefore ctx₀ calls i) = .ok (.ok k, c₁) ∧
      ∀ st, s.queue.status? e = some st →
        ((∃ m, st = .failed m) ↔
          ConflictFailed (accessLog ctx₀ (calls.take i)) (contextBefore ctx₀ calls i)
              (bufferBindings spec.signature args) ∨
            ∃ f, launchWork k spec range args (contextBefore ctx₀ calls i) = .error f)

variable {ctx₀ : Context} {calls : List Call} {n : Nat} {s : Session}

theorem follows_program_order (hfresh : ctx₀.matrices = #[] ∧ ctx₀.events = #[]) (hs : Reachable ctx₀ n calls s) :
    FollowsProgram ctx₀ calls s := by
  obtain ⟨hpre, hev⟩ := sequential_answers hfresh hs
  have hseq : ∀ (i : Nat) (a : Answer), s.answers[i]? = some a → (runCalls ctx₀ calls).1[i]? = some a := by
    intro i a ha
    obtain ⟨t, ht⟩ := hpre
    rw [← ht, List.getElem?_append_left (List.getElem?_eq_some_iff.mp ha).1, ha]
  refine ⟨hpre, hev, fun i h a hcall ha => runCalls_copy hfresh.1 hcall (hseq i a ha),
    fun i spec range args e hcall ha => ?_⟩
  obtain ⟨k, c₁, hp, st', hst', hiff⟩ := runCalls_launch hfresh.1 hcall (hseq i _ ha)
  refine ⟨k, c₁, hp, fun st hst => ?_⟩
  -- the event ended in the queue as it ends in the sequential run
  have hfin := hev e st hst
  rw [hst'] at hfin
  obtain rfl : st' = st := (Event.mk.inj (Option.some.inj hfin)).2
  exact hiff

theorem follows_program_order_copied :
    ∃ s : Session, Reachable (default : Context) 2 [.zeros 2 2, .toHost 0] s ∧ s.answers.length = 2 ∧
      FollowsProgram default [.zeros 2 2, .toHost 0] s := by
  -- `zeros` allocates, `toHost` submits the read, worker 0 steals, runs and signals it, and the
  -- copy answers
  have r₁ := (@Reachable.start default 2 [.zeros 2 2, .toHost 0]).step (Step.zeros rfl)
  have r₂ := r₁.step (Step.read (by decide))
  have r₃ := r₂.step (Step.worker 0 rfl)
  have r₄ := r₃.step (Step.worker 0 rfl)
  have r₅ := r₄.step (Step.worker 0 rfl)
  have r₆ := r₅.step (Step.copied (by decide) rfl ⟨rfl, rfl, rfl, ⟨.refl _, rfl⟩, ⟨.refl _, rfl⟩, ⟨.refl _, rfl⟩⟩)
  exact ⟨_, r₆, rfl, follows_program_order ⟨rfl, rfl⟩ r₆⟩

end Session

end OffloadAlgebra
