import OffloadAlgebra.Device.Context
/-!
  A slot for one shared device context.

  The slot is empty until a context is put in it, explicitly with a configuration or on first
  use with the default one; putting one into a full slot is refused, and clearing the slot
  forgets its context.  Making the context may panic (`Context.create`); the slot is then left
  as it was.
-/

namespace OffloadAlgebra

/-- A slot that holds at most one shared context. -/
structure SharedContext where
  current : Option Context := none
  deriving Inhabited

namespace SharedContext

/-- Fill the empty slot with a context for `cfg`. -/
def init (s : SharedContext) (cfg : Config) (processors : Nat) :
    Except Panic (Except Error SharedContext) :=
  match s.current with
  | some _ => .ok (.error .alreadyInitialized)
  | none => do pure ((fun ctx => ⟨some ctx⟩) <$> (← Context.create cfg processors))

/-- The shared context, if there is one. -/
def context (s : SharedContext) : Except Error Context :=
  match s.current with
  | some ctx => .ok ctx
  | none => .error .notInitialized

/-- The shared context, made with the default configuration if the slot is empty. -/
def getOrInit (s : SharedContext) (processors : Nat) :
    Except Panic (Except Error (Context × SharedContext)) :=
  match s.current with
  | some ctx => .ok (.ok (ctx, s))
  | none => do pure ((fun ctx => (ctx, ⟨some ctx⟩)) <$> (← Context.create {} processors))

/-- Empty the slot. -/
def shutdown (_ : SharedContext) : SharedContext := {}

end SharedContext

end OffloadAlgebra
