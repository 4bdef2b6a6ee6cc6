/-!
  A latency histogram with three significant decimal digits.

  Values are grouped into buckets of equal relative width: values below 2048 each have a bucket
  of their own, and from there on each doubling of the value doubles the bucket width, so that
  every bucket spans at most one part in 1024 of its values.  Bucket `b` holds the values
  `v` with `v >>> b` in `1024 .. 2047` (bucket 0 also holds `0 .. 1023`), and the histogram keeps
  32 such buckets, so it records exactly the values below `2^42`; a larger value is not
  recorded.  A bucket is reported by its highest value, and the mean weighs each bucket by its
  middle value.
-/

namespace OffloadAlgebra.Telemetry

/-- Recorded values by bucket slot, with the total count and the largest value recorded. -/
structure Histogram where
  /-- Slots with a non-zero count, in increasing slot order. -/
  counts : List (Nat × Nat) := []
  total : Nat := 0
  maxValue : Nat := 0
  deriving DecidableEq, Repr, Inhabited

namespace Histogram

/-- Number of slots: 33 half-buckets of 1024 slots. -/
def slotCount : Nat := 33792

/-- The bucket of a value: how many doublings past 2047 it lies. -/
def bucketOf (v : Nat) : Nat := Nat.log2 (v ||| 2047) - 10

/-- The slot of a value. -/
def slotOf (v : Nat) : Nat := bucketOf v * 1024 + (v >>> bucketOf v)

/-- The smallest value of a slot. -/
def slotValue (slot : Nat) : Nat :=
  if slot < 1024 then slot
  else
    let bucket := slot / 1024 - 1
    (slot % 1024 + 1024) <<< bucket

/-- The smallest value in the bucket of `v`. -/
def lowestEquivalent (v : Nat) : Nat := (v >>> bucketOf v) <<< bucketOf v

/-- How many values share the bucket of `v`. -/
def equivalentRange (v : Nat) : Nat := Nat.pow 2 (bucketOf v)

/-- The largest value in the bucket of `v`. -/
def highestEquivalent (v : Nat) : Nat := lowestEquivalent v + equivalentRange v - 1

/-- The middle value of the bucket of `v`. -/
def medianEquivalent (v : Nat) : Nat := lowestEquivalent v + equivalentRange v / 2

/-- Add one to a slot of a sorted slot list. -/
def bump (slot : Nat) : List (Nat × Nat) → List (Nat × Nat)
  | [] => [(slot, 1)]
  | (s, c) :: rest =>
    if slot < s then (slot, 1) :: (s, c) :: rest
    else if slot = s then (s, c + 1) :: rest
    else (s, c) :: bump slot rest

/-- Record one value; a value beyond the last slot leaves the histogram as it is. -/
def record (h : Histogram) (v : Nat) : Histogram :=
  if slotOf v < slotCount then
    { counts := bump (slotOf v) h.counts, total := h.total + 1, maxValue := max h.maxValue v }
  else h

/-- The largest recorded value, as its bucket's highest value; 0 when empty. -/
def max (h : Histogram) : Nat := if h.maxValue = 0 then 0 else highestEquivalent h.maxValue

/-- The mean: each occupied slot adds its middle value times its count over the total, in slot
    order, in double arithmetic. -/
def mean (h : Histogram) : Float :=
  if h.total = 0 then 0
  else h.counts.foldl (fun acc sc =>
    acc + Float.ofNat (medianEquivalent (highestEquivalent (slotValue sc.1))) * Float.ofNat sc.2 /
      Float.ofNat h.total) 0

/-- The first slot at which the running count reaches `need`, as its highest value. -/
def valueAtCount (need : Nat) : List (Nat × Nat) → Nat → Nat
  | [], _ => 0
  | (s, c) :: rest, acc =>
    if need ≤ acc + c then highestEquivalent (slotValue s) else valueAtCount need rest (acc + c)

/-- The value below which the fraction `q` (0 < q ≤ 1) of the recorded values lie: the count
    `ceil(q * total)` (at least 1) is reached in slot order. -/
def valueAtQuantile (h : Histogram) (q : Float) : Nat :=
  let need := (q * Float.ofNat h.total).ceil.toUInt64.toNat
  valueAtCount (if need = 0 then 1 else need) h.counts 0

end Histogram

end OffloadAlgebra.Telemetry
