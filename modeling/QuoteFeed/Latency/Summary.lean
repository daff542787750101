import QuoteFeed.Binary64.Arith
import QuoteFeed.Decimal

/-! # Summaries of latencies

Samples are sorted, and each percentile is a sample: the one whose place from below is that share of
the count, rounded down. The mean is the exact sum divided once.
-/

namespace QuoteFeed.Latency

def sort (samples : List UInt64) : List UInt64 :=
  samples.mergeSort fun a b => decide (a ≤ b)

/-- The figures that describe samples, in nanoseconds. -/
structure Summary where
  min : UInt64
  max : UInt64
  mean : Binary64
  p50 : UInt64
  p99 : UInt64
  p999 : UInt64
deriving DecidableEq

namespace Summary

/-- The share `num / den` of a count, rounded down. The product is a word of 64 bits, and wraps. -/
def place (size num den : Nat) : Nat :=
  size * num % 2 ^ 64 / den

theorem place_lt {size num den : Nat} (hsize : 0 < size) (h : num < den) :
    place size num den < size := by
  have hwrapped := Nat.mod_le (size * num) (2 ^ 64)
  have hproduct := Nat.mul_lt_mul_of_pos_left h hsize
  rw [place, Nat.div_lt_iff_lt_mul (by omega)]
  omega

/-- The sample whose place is the share `num / den` of the count. -/
def percentile (sorted : Array UInt64) (num den : Nat) (hn : 0 < sorted.size) (h : num < den) :
    UInt64 :=
  have := place_lt hn h
  sorted[place sorted.size num den]

def meanOf (samples : List UInt64) : Binary64 :=
  Binary64.ofNat (samples.foldl (fun sum sample => sum + sample.toNat) 0) /
    Binary64.ofNat samples.length

/-- The summary of sorted samples. -/
def ofSorted? (sorted : List UInt64) : Option Summary :=
  let places := sorted.toArray
  if h : 0 < places.size then
    some {
      min := places[0]
      max := places[places.size - 1]
      mean := meanOf sorted
      p50 := percentile places 1 2 h (by decide)
      p99 := percentile places 99 100 h (by decide)
      p999 := percentile places 999 1000 h (by decide) }
  else none

/-- Summarises samples, if there are any, and leaves them sorted. -/
def summarize (samples : List UInt64) : Option Summary × List UInt64 :=
  let sorted := sort samples
  (ofSorted? sorted, sorted)

/-- The summary of samples, if there are any. -/
def ofSamples? (samples : List UInt64) : Option Summary :=
  (summarize samples).1

/-- How much longer the tail is than the median; zero if the median is. -/
def tailRatio (s : Summary) : Binary64 :=
  if s.p50 = 0 then Binary64.zero
  else Binary64.ofNat s.p99.toNat / Binary64.ofNat s.p50.toNat

def text (s : Summary) : String :=
  "min " ++ toString s.min.toNat ++ " / mean " ++ s.mean.fixedText 1 ++
    " / p50 " ++ toString s.p50.toNat ++ " / p99 " ++ toString s.p99.toNat ++
    " / p99.9 " ++ toString s.p999.toNat ++ " / max " ++ toString s.max.toNat ++ " ns"

end Summary

end QuoteFeed.Latency
