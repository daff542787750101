import QuoteFeed.Fifo
import QuoteFeed.Latency.Summary

/-! # Windows of latencies

A window keeps the latest samples. When it is full, the oldest one gives way before the next is
recorded.
-/

namespace QuoteFeed.Latency

structure Window where
  samples : Fifo UInt64
  capacity : Nat

namespace Window

/-- The capacity of a window for which none is asked. -/
def defaultCapacity : Nat := 10000

def withCapacity (capacity : Nat) : Window :=
  ⟨Fifo.empty, capacity⟩

/-- A window without samples, of the default capacity. -/
def new : Window :=
  withCapacity defaultCapacity

instance : Inhabited Window := ⟨new⟩

/-- Records a sample. Only one gives way, so even a window of capacity zero holds the latest. -/
def record (w : Window) (nanos : UInt64) : Window :=
  let kept := if w.capacity ≤ w.samples.size then w.samples.drop else w.samples
  { w with samples := kept.push nanos }

def size (w : Window) : Nat :=
  w.samples.size

def isEmpty (w : Window) : Bool :=
  w.samples.size == 0

def summary? (w : Window) : Option Summary :=
  Summary.ofSamples? w.samples.toList

def clear (w : Window) : Window :=
  { w with samples := Fifo.empty }

theorem toList_record (w : Window) (nanos : UInt64) : (w.record nanos).samples.toList =
    (if w.capacity ≤ w.samples.toList.length then w.samples.toList.tail else w.samples.toList) ++
      [nanos] := by
  rw [record, Fifo.toList_push, Fifo.size_eq_length]
  split <;> simp

@[simp] theorem capacity_record (w : Window) (nanos : UInt64) :
    (w.record nanos).capacity = w.capacity :=
  rfl

@[simp] theorem toList_clear (w : Window) : w.clear.samples.toList = [] :=
  rfl

@[simp] theorem capacity_clear (w : Window) : w.clear.capacity = w.capacity :=
  rfl

end Window

end QuoteFeed.Latency
