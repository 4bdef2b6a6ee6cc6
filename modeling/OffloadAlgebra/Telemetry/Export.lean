import OffloadAlgebra.Error
import OffloadAlgebra.Telemetry.Metrics
import OffloadAlgebra.Decimal.Layout
import OffloadAlgebra.Decimal.Fixed
/-!
  Exporting a metrics snapshot as JSON text or as a console report.

  The JSON text is an object written with two-space indentation, with the uptime in seconds,
  the counters, the offload ratio, the transfers in mebibytes and the latencies in
  microseconds, in that order; its numbers use `Decimal.Layout.json`.  The console report has a
  header, the uptime, compile and launch counts, the dispatch split and, when verbose,
  transfers and queue latencies, with fixed decimals.

  Both need the offload ratio, which panics when the dispatch counts sum past a machine word;
  the JSON export computes every field before it touches the file system, so that panic comes
  before any path fault.

  Files are written into a fresh, empty directory: a path through a directory that does not
  exist fails, and so does a path that names a directory.
-/

namespace OffloadAlgebra.Telemetry

/-- A duration in nanoseconds as seconds: whole seconds plus the nanosecond rest over `1e9`. -/
def secondsOf (nanos : Nat) : Float :=
  Float.ofNat (nanos / 1000000000) + Float.ofNat (nanos % 1000000000) / 1000000000

/-- Bytes as mebibytes. -/
def mebibytes (bytes : Nat) : Float := Float.ofNat bytes / 1048576

/-- Nanoseconds as microseconds. -/
def micros (nanos : Nat) : Float := Float.ofNat nanos / 1000

namespace Snapshot

/-- Launches per second of uptime; zero for a zero uptime. -/
def launchesPerSecond (s : Snapshot) : Float :=
  let secs := secondsOf s.uptimeNanos
  if secs == 0 then 0 else Float.ofNat s.kernelLaunches / secs

/-- A number of the JSON text. -/
def jsonFloat (x : Float) : String := (Decimal.Layout.json.write? x).getD "null"

/-- The fields of the JSON text, in order. -/
def jsonFields (s : Snapshot) : Except Panic (List (String × String)) := do
  let ratio ← s.offloadRatio
  pure [("uptime_secs", jsonFloat (secondsOf s.uptimeNanos)),
   ("kernels_compiled", toString s.kernelsCompiled),
   ("kernel_launches", toString s.kernelLaunches),
   ("host_dispatches", toString s.hostDispatches),
   ("device_dispatches", toString s.deviceDispatches),
   ("offload_ratio", jsonFloat ratio),
   ("mb_to_device", jsonFloat (mebibytes s.bytesToDevice)),
   ("mb_from_device", jsonFloat (mebibytes s.bytesFromDevice)),
   ("commands_executed", toString s.commandsExecuted),
   ("commands_failed", toString s.commandsFailed),
   ("avg_latency_us", jsonFloat (micros s.avgLatencyNanos)),
   ("p50_latency_us", jsonFloat (micros s.p50LatencyNanos)),
   ("p99_latency_us", jsonFloat (micros s.p99LatencyNanos)),
   ("max_latency_us", jsonFloat (micros s.maxLatencyNanos))]

/-- The JSON text of a snapshot, indented by two spaces, without a final line break. -/
def toJsonText (s : Snapshot) : Except Panic String := do
  let fields ← s.jsonFields
  pure ("\x7b\n" ++ ",\n".intercalate (fields.map fun kv => "  \"" ++ kv.1 ++ "\": " ++ kv.2) ++
    "\n\x7d")

/-- The console report of a snapshot, every line ended by a line break. -/
def consoleText (s : Snapshot) (verbose : Bool) : Except Panic String := do
  let ratio ← s.offloadRatio
  let head :=
    ["=== clmath device metrics ===",
     "Uptime: " ++ Decimal.fixed (secondsOf s.uptimeNanos) 2 ++ "s",
     "Kernels compiled: " ++ toString s.kernelsCompiled,
     "Kernel launches: " ++ toString s.kernelLaunches ++ " (" ++
       Decimal.fixed s.launchesPerSecond 2 ++ "/s)",
     "Dispatch: " ++ toString s.hostDispatches ++ " host / " ++ toString s.deviceDispatches ++
       " device (" ++ Decimal.fixed (ratio * 100) 1 ++ "% offloaded)"]
  let detail :=
    if verbose then
      ["", "Transfers:",
       "  To device: " ++ Decimal.fixed (mebibytes s.bytesToDevice) 2 ++ "MB",
       "  From device: " ++ Decimal.fixed (mebibytes s.bytesFromDevice) 2 ++ "MB",
       "", "Queue:",
       "  Executed: " ++ toString s.commandsExecuted,
       "  Failed: " ++ toString s.commandsFailed,
       "  Average: " ++ Decimal.fixed (micros s.avgLatencyNanos) 2 ++ "μs",
       "  P50: " ++ Decimal.fixed (micros s.p50LatencyNanos) 2 ++ "μs",
       "  P99: " ++ Decimal.fixed (micros s.p99LatencyNanos) 2 ++ "μs",
       "  Max: " ++ Decimal.fixed (micros s.maxLatencyNanos) 2 ++ "μs"]
    else []
  pure (String.join ((head ++ detail ++ ["============================="]).map (· ++ "\n")))

end Snapshot

/-- Bytes of the scratch directory's own path with its separator: a whole path of
    `pathMax - scratchPrefixBytes` bytes or more given to the exporter is too long. -/
def scratchPrefixBytes : Nat := 17

/-- The system's limit on a whole path, in bytes with its terminating NUL. -/
def pathMax : Nat := 4096

/-- The system's limit on one file name, in bytes. -/
def nameMax : Nat := 255

/-- Why creating a file at a relative path of a fresh, empty scratch directory fails, if it
    does.  In order: a NUL byte cannot be passed to the system; a path of `pathMax` bytes or
    more is too long; then the path is walked name by name, where `.` stays put, a name longer
    than `nameMax` is too long and any other name before the last is missing; the last name
    is refused as a directory when it is `.`, when slashes follow it or when there is none (the
    directory itself), and is too long past `nameMax`. -/
def scratchWriteFault? (path : String) : Option String :=
  let isDir := "Is a directory (os error 21)"
  let tooLong := "File name too long (os error 36)"
  if path.contains '\x00' then some "file name contained an unexpected NUL byte"
  else if pathMax ≤ scratchPrefixBytes + path.utf8ByteSize then some tooLong
  else
    let names := (path.splitOn "/").filter (· ≠ "")
    match names.reverse with
    | [] => some isDir
    | last :: earlier =>
      match (earlier.reverse.filter (· ≠ ".")).head? with
      | some d => some (if nameMax < d.utf8ByteSize then tooLong else "No such file or directory (os error 2)")
      | none =>
        if last = "." ∨ path.endsWith "/" then some isDir
        else if nameMax < last.utf8ByteSize then some tooLong
        else none

/-- Export a snapshot as JSON text to a path of a fresh scratch directory: the text written,
    or the telemetry error. -/
def exportJson (s : Snapshot) (path : String) : Except Panic (Except Error String) := do
  let text ← s.toJsonText
  pure (match scratchWriteFault? path with
    | some fault => .error (.telemetry ("failed to write metrics file: " ++ fault))
    | none => .ok text)

end OffloadAlgebra.Telemetry
