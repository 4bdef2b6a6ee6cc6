import OffloadAlgebra.Telemetry.Histogram
import OffloadAlgebra.Word
/-!
  Device metrics: counters and the command latency histogram.

  Counters are machine words and wrap at `2^64`.  A snapshot reads every counter and, from the
  histogram, the mean (truncated), the median, the 99th percentile and the maximum; all four
  are zero while no latency is recorded.  The offload ratio adds the two dispatch counts with an
  overflow check, so a snapshot whose counts sum past a word panics there.
-/

namespace OffloadAlgebra.Telemetry

/-- Counters wrap at this modulus. -/
def counterModulus : Nat := Nat.pow 2 64

/-- What a device has done so far. -/
structure Metrics where
  kernelsCompiled : Nat := 0
  kernelLaunches : Nat := 0
  hostDispatches : Nat := 0
  deviceDispatches : Nat := 0
  bytesToDevice : Nat := 0
  bytesFromDevice : Nat := 0
  commandsExecuted : Nat := 0
  commandsFailed : Nat := 0
  latency : Histogram := {}
  deriving DecidableEq, Repr, Inhabited

/-- Counters at one moment, and how long the device had been up. -/
structure Snapshot where
  uptimeNanos : Nat := 0
  kernelsCompiled : Nat := 0
  kernelLaunches : Nat := 0
  hostDispatches : Nat := 0
  deviceDispatches : Nat := 0
  bytesToDevice : Nat := 0
  bytesFromDevice : Nat := 0
  commandsExecuted : Nat := 0
  commandsFailed : Nat := 0
  avgLatencyNanos : Nat := 0
  p50LatencyNanos : Nat := 0
  p99LatencyNanos : Nat := 0
  maxLatencyNanos : Nat := 0
  deriving DecidableEq, Repr, Inhabited

namespace Metrics

/-- Add to a counter, wrapping. -/
def bumpBy (n k : Nat) : Nat := (n + k) % counterModulus

def recordKernelCompiled (m : Metrics) : Metrics := { m with kernelsCompiled := bumpBy m.kernelsCompiled 1 }

def recordKernelLaunch (m : Metrics) : Metrics := { m with kernelLaunches := bumpBy m.kernelLaunches 1 }

/-- Count one dispatch decision, to the device or to the host. -/
def recordDispatch (m : Metrics) (offloaded : Bool) : Metrics :=
  if offloaded then { m with deviceDispatches := bumpBy m.deviceDispatches 1 }
  else { m with hostDispatches := bumpBy m.hostDispatches 1 }

def recordTransferToDevice (m : Metrics) (bytes : Nat) : Metrics :=
  { m with bytesToDevice := bumpBy m.bytesToDevice bytes }

def recordTransferFromDevice (m : Metrics) (bytes : Nat) : Metrics :=
  { m with bytesFromDevice := bumpBy m.bytesFromDevice bytes }

/-- Count a command that ran to success, without a latency sample. -/
def countCommand (m : Metrics) : Metrics := { m with commandsExecuted := bumpBy m.commandsExecuted 1 }

/-- Count a command that ran to success in `nanos` nanoseconds. -/
def recordCommand (m : Metrics) (nanos : Nat) : Metrics :=
  { m.countCommand with latency := m.latency.record nanos }

def recordCommandFailed (m : Metrics) : Metrics := { m with commandsFailed := bumpBy m.commandsFailed 1 }

/-- Everything back to zero. -/
def reset (_ : Metrics) : Metrics := {}

/-- The counters and latency summary, for a device up `uptimeNanos` nanoseconds. -/
def snapshot (m : Metrics) (uptimeNanos : Nat := 0) : Snapshot :=
  let h := m.latency
  let (avg, p50, p99, mx) :=
    if h.total = 0 then (0, 0, 0, 0)
    else (h.mean.toUInt64.toNat, h.valueAtQuantile 0.5, h.valueAtQuantile 0.99, h.max)
  { uptimeNanos, kernelsCompiled := m.kernelsCompiled, kernelLaunches := m.kernelLaunches,
    hostDispatches := m.hostDispatches, deviceDispatches := m.deviceDispatches,
    bytesToDevice := m.bytesToDevice, bytesFromDevice := m.bytesFromDevice,
    commandsExecuted := m.commandsExecuted, commandsFailed := m.commandsFailed,
    avgLatencyNanos := avg, p50LatencyNanos := p50, p99LatencyNanos := p99, maxLatencyNanos := mx }

end Metrics

/-- The share of dispatches sent to the device; zero when there were none.  The two counts are
    added on machine words, which panics when their sum is not a word. -/
def Snapshot.offloadRatio (s : Snapshot) : Except Panic Float := do
  let total ← Word.add s.hostDispatches s.deviceDispatches
  pure (if total = 0 then 0 else Float.ofNat s.deviceDispatches / Float.ofNat total)

end OffloadAlgebra.Telemetry
