import OffloadAlgebra.Kernel.Launch
/-!
  Sample host kernels for custom kernel programs.

  They exercise every accessor of a launch and every way a command can end:
  * `fill` reads a delay (a size, argument 2) and a value (argument 1) and fills buffer 0;
  * `copyAdd` reads a delay (argument 3) and an addend (argument 2) and writes
    `dst[i] = src[i] + add` over the common length of source 0 and destination 1;
  * `increment` adds one to every element of buffer 0;
  * `fault` always fails with a device error;
  * `setOption` fills buffer 0 with the value of the macro `VALUE`;
  * `add` writes `c[i] = a[i] + b[i]` over the common length of buffers 0, 1 and 2;
  * `panicText`, `panicCount` and `panicOpaque` panic with a fixed text, a text counting the
    arguments, and a payload that is no text;
  * `invalid` fails with an invalid-argument error;
  * `describe` writes the shape of its launch into buffer 0, as far as it fits; it panics when
    the global total is not a machine word.
  A delay only slows a kernel down, so it shows only through its checks.
-/

namespace OffloadAlgebra.Sample

def fill (l : Launch) : Except Fault Writes := do
  let _ ← l.size 2
  let value ← l.double 1
  let buf ← l.write 0
  pure [(0, buf.map fun _ => value)]

def copyAdd (l : Launch) : Except Fault Writes := do
  let _ ← l.size 3
  let add ← l.double 2
  let src ← l.read 0
  let dst ← l.write 1
  pure [(1, dst.zipIdx.map fun (x, i) => if i < src.size then src.getD i 0 + add else x)]

def increment (l : Launch) : Except Fault Writes := do
  let buf ← l.write 0
  pure [(0, buf.map (· + 1))]

def fault (l : Launch) : Except Fault Writes :=
  .error (.error (.device ("simulated device fault in " ++ l.kernel)))

def setOption (l : Launch) : Except Fault Writes := do
  let v ← l.option "VALUE"
  let buf ← l.write 0
  pure [(0, buf.map fun _ => Float.ofInt v)]

def add (l : Launch) : Except Fault Writes := do
  let a ← l.read 0
  let b ← l.read 1
  let c ← l.write 2
  pure [(2, c.zipIdx.map fun (x, i) =>
    if i < a.size ∧ i < b.size then a.getD i 0 + b.getD i 0 else x)]

def panicText (_ : Launch) : Except Fault Writes := .error (.panic (some "kaboom"))

def panicCount (l : Launch) : Except Fault Writes :=
  .error (.panic (some ("kaboom with " ++ toString l.args.size ++ " args")))

def panicOpaque (_ : Launch) : Except Fault Writes := .error (.panic none)

def invalid (l : Launch) : Except Fault Writes :=
  .error (.error (.invalidArgument l.kernel "rejected by the host fixture"))

/-- The shape of a launch: global dimensions, the three global extents, the global total,
    local dimensions (0 without a local size), the three local extents (zeros without one) and
    the number of arguments.  The total panics when it is not a machine word. -/
def launchShape (l : Launch) : Except Panic (List Nat) := do
  let g := l.range.global
  let total ← g.total
  let localPart := match l.range.localSize with
    | some w => [w.dims, w.get 0, w.get 1, w.get 2]
    | none => [0, 0, 0, 0]
  pure ([g.dims, g.get 0, g.get 1, g.get 2, total] ++ localPart ++ [l.args.size])

def describe (l : Launch) : Except Fault Writes := do
  let shape ← Fault.ofPanic (launchShape l)
  let buf ← l.write 0
  pure [(0, buf.zipIdx.map fun (x, i) => match shape[i]? with
    | some v => Float.ofNat v
    | none => x)]

/-! ## Each fixture writes only a buffer passed for writing -/

theorem fill_writes (l : Launch) {ws : Writes} (h : fill l = .ok ws) : l.WritesWritable ws := by
  obtain ⟨_, -, h⟩ := Except.bind_eq_ok h
  obtain ⟨_, -, h⟩ := Except.bind_eq_ok h
  obtain ⟨buf, hbuf, h⟩ := Except.bind_eq_ok h
  cases h
  exact Launch.writesWritable_of_write hbuf _

theorem copyAdd_writes (l : Launch) {ws : Writes} (h : copyAdd l = .ok ws) : l.WritesWritable ws := by
  obtain ⟨_, -, h⟩ := Except.bind_eq_ok h
  obtain ⟨_, -, h⟩ := Except.bind_eq_ok h
  obtain ⟨_, -, h⟩ := Except.bind_eq_ok h
  obtain ⟨dst, hdst, h⟩ := Except.bind_eq_ok h
  cases h
  exact Launch.writesWritable_of_write hdst _

theorem increment_writes (l : Launch) {ws : Writes} (h : increment l = .ok ws) : l.WritesWritable ws := by
  obtain ⟨buf, hbuf, h⟩ := Except.bind_eq_ok h
  cases h
  exact Launch.writesWritable_of_write hbuf _

theorem setOption_writes (l : Launch) {ws : Writes} (h : setOption l = .ok ws) : l.WritesWritable ws := by
  obtain ⟨_, -, h⟩ := Except.bind_eq_ok h
  obtain ⟨buf, hbuf, h⟩ := Except.bind_eq_ok h
  cases h
  exact Launch.writesWritable_of_write hbuf _

theorem add_writes (l : Launch) {ws : Writes} (h : add l = .ok ws) : l.WritesWritable ws := by
  obtain ⟨_, -, h⟩ := Except.bind_eq_ok h
  obtain ⟨_, -, h⟩ := Except.bind_eq_ok h
  obtain ⟨c, hc, h⟩ := Except.bind_eq_ok h
  cases h
  exact Launch.writesWritable_of_write hc _

theorem describe_writes (l : Launch) {ws : Writes} (h : describe l = .ok ws) : l.WritesWritable ws := by
  obtain ⟨_, -, h⟩ := Except.bind_eq_ok h
  obtain ⟨buf, hbuf, h⟩ := Except.bind_eq_ok h
  cases h
  exact Launch.writesWritable_of_write hbuf _

/-- A fixture that never answers writes nothing. -/
theorem writesWritable_of_error {f : Launch → Except Fault Writes} (hf : ∀ l, ∃ e, f l = .error e) (l : Launch)
    {ws : Writes} (h : f l = .ok ws) : l.WritesWritable ws := by
  obtain ⟨e, he⟩ := hf l
  rw [he] at h
  cases h

end OffloadAlgebra.Sample
