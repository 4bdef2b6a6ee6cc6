import OffloadAlgebra.Error
import OffloadAlgebra.Options
import OffloadAlgebra.Range
import OffloadAlgebra.Kernel.Arg
/-!
  What a host kernel sees of its launch, and how it can fail.

  A host kernel gets its name, its arguments (buffer contents with their direction, integers,
  doubles), the compile options and the launch range.  Its accessors refuse an index beyond
  the arguments, an argument of the wrong kind, a write to a buffer passed for reading only, a
  negative size and an undefined macro, each with a device error naming the kernel.  A kernel
  answers with the new contents of the buffers it wrote, or with a fault: an error, or a panic
  with a text payload or none.
-/

namespace OffloadAlgebra

/-- An argument as a host kernel sees it. -/
inductive LaunchArg where
  | buffer (data : Array Float) (dir : Direction)
  | int (v : Int)
  | double (v : Float)
  deriving Inhabited

/-- Why a host kernel stopped without finishing. -/
inductive Fault where
  | error (e : Error)
  | panic (payload : Option String)
  deriving Inhabited

/-- The text a failed command stores for a fault: a device error's bare message, another
    error's full text, and for a panic `command panicked: ` and its text payload. -/
def Fault.text : Fault → String
  | .error e => e.commandText
  | .panic (some m) => "command panicked: " ++ m
  | .panic none => "command panicked: unknown panic"

/-- A word-arithmetic panic inside a host kernel, as the kernel's fault. -/
def Fault.ofPanic {α : Type} (r : Except Panic α) : Except Fault α :=
  match r with
  | .ok a => .ok a
  | .error p => .error (.panic (some p.message))

/-- New contents for the buffers of some argument slots. -/
abbrev Writes := List (Nat × Array Float)

/-- A kernel launch as its host implementation sees it. -/
structure Launch where
  kernel : String
  args : Array LaunchArg
  options : OptionMap
  range : NdRange
  deriving Inhabited

namespace Launch

/-- A device error on behalf of the kernel. -/
def fail {α : Type} (l : Launch) (m : String) : Except Fault α :=
  .error (.error (.device (l.kernel ++ ": " ++ m)))

/-- Argument `i`. -/
def arg (l : Launch) (i : Nat) : Except Fault LaunchArg :=
  match l.args[i]? with
  | some a => .ok a
  | none => l.fail ("argument " ++ toString i ++ " out of range (" ++ toString l.args.size ++ " given)")

/-- A wrong-kind refusal for argument `i`. -/
def wrongKind {α : Type} (l : Launch) (i : Nat) (expected : String) : Except Fault α :=
  l.fail ("argument " ++ toString i ++ " is not a " ++ expected)

/-- The contents of buffer argument `i`, whatever its direction. -/
def read (l : Launch) (i : Nat) : Except Fault (Array Float) := do
  match ← l.arg i with
  | .buffer d _ => pure d
  | _ => l.wrongKind i "buffer"

/-- The contents of buffer argument `i`, which the kernel may write. -/
def write (l : Launch) (i : Nat) : Except Fault (Array Float) := do
  match ← l.arg i with
  | .buffer d dir => if dir.writes then pure d else l.fail ("argument " ++ toString i ++ " is read-only")
  | _ => l.wrongKind i "buffer"

/-- Integer argument `i`. -/
def int (l : Launch) (i : Nat) : Except Fault Int := do
  match ← l.arg i with
  | .int v => pure v
  | _ => l.wrongKind i "int"

/-- Integer argument `i` as a size, refused when negative. -/
def size (l : Launch) (i : Nat) : Except Fault Nat := do
  let v ← l.int i
  if v < 0 then l.fail ("argument " ++ toString i ++ " must be non-negative, got " ++ toString v)
  else pure v.toNat

/-- Double argument `i`. -/
def double (l : Launch) (i : Nat) : Except Fault Float := do
  match ← l.arg i with
  | .double v => pure v
  | _ => l.wrongKind i "double"

/-- The value of a compile option. -/
def option (l : Launch) (name : String) : Except Fault Int :=
  match l.options.get? name with
  | some v => .ok v
  | none => l.fail ("macro `" ++ name ++ "` is not defined")

/-- A buffer must hold at least `needed` elements. -/
def ensureLen (l : Launch) (what : String) (buf : Array Float) (needed : Nat) : Except Fault Unit :=
  if buf.size < needed then
    l.fail (what ++ " holds " ++ toString buf.size ++ " elements, kernel touches " ++ toString needed)
  else .ok ()

/-- What a host implementation may answer with: new contents only for argument slots that hold a
    buffer passed for writing, the buffers `write` hands out. -/
def WritesWritable (l : Launch) (ws : Writes) : Prop :=
  ∀ w ∈ ws, ∃ d dir, l.args[w.1]? = some (.buffer d dir) ∧ dir.writes = true

end Launch

theorem Except.bind_eq_ok {ε α β : Type} {x : Except ε α} {f : α → Except ε β} {b : β}
    (h : (x >>= f) = .ok b) : ∃ a, x = .ok a ∧ f a = .ok b := by
  cases x with
  | error e => cases h
  | ok a => exact ⟨a, rfl, h⟩

/-- A buffer a kernel may write is an argument passed as a buffer for writing. -/
theorem Launch.write_eq_ok {l : Launch} {i : Nat} {d : Array Float} (h : l.write i = .ok d) :
    ∃ dir, l.args[i]? = some (.buffer d dir) ∧ dir.writes = true := by
  obtain ⟨a, ha, h⟩ := Except.bind_eq_ok h
  simp only [Launch.arg] at ha
  split at ha
  · rename_i a' hi
    cases ha
    cases a with
    | buffer d' dir =>
      simp only at h
      split at h
      · rename_i hw
        cases h
        exact ⟨dir, hi, hw⟩
      · cases h
    | int v => cases h
    | double v => cases h
  · cases ha

/-- An implementation that answers with new contents for one slot it got from `write` writes
    only a writable slot. -/
theorem Launch.writesWritable_of_write {l : Launch} {i : Nat} {d : Array Float} (hw : l.write i = .ok d)
    (x : Array Float) : l.WritesWritable [(i, x)] := by
  intro w hw'
  rw [List.mem_singleton] at hw'
  subst hw'
  obtain ⟨dir, hi, hd⟩ := Launch.write_eq_ok hw
  exact ⟨d, dir, hi, hd⟩

end OffloadAlgebra
