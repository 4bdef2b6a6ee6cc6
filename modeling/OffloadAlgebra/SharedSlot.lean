import OffloadAlgebra.SharedContext
/-!
  The shared slot used by several threads.

  The slot sits behind a reader-writer lock, and every section that holds the lock is one atomic
  step.  `init` (with the default configuration or a given one) holds the write lock once: it
  refuses a full slot, and otherwise makes a context and puts it in.  `context` reads the slot
  under the read lock.  `getOrInit` reads under the read lock and answers a context it finds;
  finding the slot empty, it takes the write lock, looks again, and makes a context with the
  default configuration and puts it in only if the slot is still empty.  `shutdown` empties the
  slot under the write lock.  A context is made while the write lock is held, so a panic in the
  making leaves the slot as it was and ends the calling thread.

  Each context made is numbered by the contexts made before it, and a handle carries the number:
  two handles are one shared context exactly when they are equal.  `SharedSlot.view` forgets the
  numbers and is the slot of `SharedContext`.
-/

namespace OffloadAlgebra

/-- A handle on a shared context: the context, numbered by the contexts made before it. -/
structure SharedHandle where
  id : Nat
  ctx : Context

/-- The shared slot, with the number of contexts made so far. -/
structure SharedSlot where
  slot : Option SharedHandle := none
  made : Nat := 0

namespace SharedSlot

/-- The slot without the numbers. -/
def view (s : SharedSlot) : SharedContext := ⟨s.slot.map (·.ctx)⟩

/-- The slot holding a newly made context. -/
def install (s : SharedSlot) (ctx : Context) : SharedSlot :=
  { slot := some ⟨s.made, ctx⟩, made := s.made + 1 }

/-- The write-locked section of `init`: refuse a full slot, else make a context for `cfg` and
    put it in. -/
def init (s : SharedSlot) (cfg : Config) (processors : Nat) : Except Panic (Except Error SharedSlot) :=
  match s.slot with
  | some _ => .ok (.error .alreadyInitialized)
  | none => (fun r => r.map s.install) <$> Context.create cfg processors

/-- The read-locked section of `context`. -/
def context (s : SharedSlot) : Except Error SharedHandle :=
  match s.slot with
  | some h => .ok h
  | none => .error .notInitialized

/-- The write-locked section of `getOrInit`, after its read found the slot empty: look again,
    and make a context with the default configuration only if the slot is still empty. -/
def recheck (s : SharedSlot) (processors : Nat) : Except Panic (Except Error (SharedHandle × SharedSlot)) :=
  match s.slot with
  | some h => .ok (.ok (h, s))
  | none => (fun r => r.map fun ctx => (⟨s.made, ctx⟩, s.install ctx)) <$> Context.create {} processors

/-- The write-locked section of `shutdown`. -/
def shutdown (s : SharedSlot) : SharedSlot := { s with slot := none }

end SharedSlot

/-- A call on the shared slot; `init` with the default configuration is `init {}`. -/
inductive SlotCall where
  | init (cfg : Config)
  | context
  | getOrInit
  | shutdown

/-- What a call answers when it succeeds: nothing, or a handle on the shared context. -/
inductive SlotReply where
  | done
  | handle (h : SharedHandle)

/-- How a call ended: a panic, or its reply or error. -/
abbrev SlotAnswer := Except Panic (Except Error SlotReply)

/-- Where a thread is: about to make its next calls, inside `getOrInit` having read an empty
    slot, or ended by a panic. -/
inductive SlotThread where
  | ready (calls : List SlotCall)
  | rechecking (rest : List SlotCall)
  | stopped

/-- Threads sharing the slot: the slot, each thread, and the calls finished so far in the order
    they finished, each with its thread and its answer. -/
structure SlotUsers where
  shared : SharedSlot
  threads : List SlotThread
  finished : List (Nat × SlotCall × SlotAnswer) := []

namespace SlotUsers

/-- Threads starting their calls on an empty slot. -/
def start (programs : List (List SlotCall)) : SlotUsers := { shared := {}, threads := programs.map .ready }

def setThread (u : SlotUsers) (t : Nat) (th : SlotThread) : SlotUsers :=
  { u with threads := u.threads.set t th }

/-- Thread `t` finishes `call` with answer `a`, leaving the slot `s` and going on as `next`. -/
def finish (u : SlotUsers) (t : Nat) (call : SlotCall) (a : SlotAnswer) (s : SharedSlot) (next : SlotThread) :
    SlotUsers :=
  { shared := s, threads := u.threads.set t next, finished := u.finished ++ [(t, call, a)] }

/-- One locked section of thread `t`, on a host with `processors` processors; `none` when the
    thread has nothing left to do. -/
def step (u : SlotUsers) (processors : Nat) (t : Nat) : Option SlotUsers :=
  match u.threads[t]? with
  | some (.ready (.init cfg :: rest)) =>
    some (match u.shared.init cfg processors with
      | .ok (.ok s) => u.finish t (.init cfg) (.ok (.ok .done)) s (.ready rest)
      | .ok (.error e) => u.finish t (.init cfg) (.ok (.error e)) u.shared (.ready rest)
      | .error p => u.finish t (.init cfg) (.error p) u.shared .stopped)
  | some (.ready (.context :: rest)) =>
    some (u.finish t .context (.ok (u.shared.context.map .handle)) u.shared (.ready rest))
  | some (.ready (.getOrInit :: rest)) =>
    some (match u.shared.slot with
      | some h => u.finish t .getOrInit (.ok (.ok (.handle h))) u.shared (.ready rest)
      | none => u.setThread t (.rechecking rest))
  | some (.rechecking rest) =>
    some (match u.shared.recheck processors with
      | .ok (.ok (h, s)) => u.finish t .getOrInit (.ok (.ok (.handle h))) s (.ready rest)
      | .ok (.error e) => u.finish t .getOrInit (.ok (.error e)) u.shared (.ready rest)
      | .error p => u.finish t .getOrInit (.error p) u.shared .stopped)
  | some (.ready (.shutdown :: rest)) =>
    some (u.finish t .shutdown (.ok (.ok .done)) u.shared.shutdown (.ready rest))
  | _ => none

/-- The states threads reach from `u`, one locked section at a time, in any order. -/
inductive Runs (processors : Nat) : SlotUsers → SlotUsers → Prop
  | refl (u : SlotUsers) : Runs processors u u
  | step {u u₁ u' : SlotUsers} (t : Nat) (h : u.step processors t = some u₁) (hrest : Runs processors u₁ u') :
      Runs processors u u'

end SlotUsers

end OffloadAlgebra
