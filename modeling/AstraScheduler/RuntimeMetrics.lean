import Mathlib.Algebra.Ring.Nat
import Mathlib.Logic.Function.Basic

/-! # Runtime metrics

The counters are 64-bit words that stay at their largest value once they have reached it,
and the gauges stop at zero. -/

namespace AstraScheduler

inductive MetricsLevel where
  | off | basic | detailed
  deriving DecidableEq, Repr

namespace RuntimeMetrics

/-- `std::numeric_limits<std::uint64_t>::max()`. -/
def counterMax : Nat := 2 ^ 64 - 1

def saturatingInc (cur : Nat) : Nat := if cur < counterMax then cur + 1 else cur

def saturatingDec (cur : Nat) : Nat := if cur ≠ 0 then cur - 1 else cur

def saturatingAdd (cur val : Nat) : Nat :=
  if val = 0 then cur else if counterMax - cur < val then counterMax else cur + val

@[simp] theorem saturatingDec_eq (cur : Nat) : saturatingDec cur = cur - 1 := by
  unfold saturatingDec
  split <;> omega

/-- `Log2Histogram::bucket_for_ns`: the power of two a latency has reached. -/
def bucketForNs (ns : Nat) : Nat := if ns ≤ 1 then 0 else min (Nat.log2 ns) 63

/-- `ShardedHistogram`. -/
structure Histogram where
  count : Nat := 0
  sumNs : Nat := 0
  maxNs : Nat := 0
  buckets : Nat → Nat := fun _ => 0

def Histogram.record (h : Histogram) (ns : Nat) : Histogram where
  count := saturatingInc h.count
  sumNs := saturatingAdd h.sumNs ns
  maxNs := max h.maxNs ns
  buckets := Function.update h.buckets (bucketForNs ns) (saturatingInc (h.buckets (bucketForNs ns)))

end RuntimeMetrics
end AstraScheduler
