import QuoteFeed.Binary64.Arith
import QuoteFeed.Decimal
import QuoteFeed.Text.Span

/-! # Clocks

A clock converts readings of a cycle counter to nanoseconds by one ratio, fixed when it is made. The
readings themselves are data: a ticker hands them out one after the other.
-/

namespace QuoteFeed

/-- A counter that is read again and again. -/
structure Ticker where
  /-- What each reading shows. -/
  readings : Nat → UInt64
  taken : Nat := 0

def Ticker.read (t : Ticker) : UInt64 × Ticker :=
  (t.readings t.taken, { t with taken := t.taken + 1 })

namespace Clock

/-- Whether a number can be the nanoseconds of a cycle: it is finite and above zero. -/
def isRatio (ratio : Binary64) : Bool :=
  ratio.isFinite && !ratio.atMost Binary64.zero

inductive Error
  /-- The counter did not advance while it was measured. -/
  | stalled (interval : Span)
  /-- The number cannot be the nanoseconds of a cycle. -/
  | invalidRatio (ratio : Binary64)
deriving DecidableEq

def Error.message : Error → String
  | stalled interval => "cycle counter did not advance over " ++ interval.text
  | invalidRatio ratio => "invalid ns-per-cycle ratio: " ++ ratio.shortestText

/-- The cycles from one reading to another, none if the counter went back. -/
def cyclesBetween (since till : UInt64) : UInt64 :=
  UInt64.ofNat (till.toNat - since.toNat)

end Clock

/-- A converter between cycles and nanoseconds. -/
structure Clock where
  nanosPerCycle : Binary64
  /-- The reading when the clock was made. -/
  baseline : UInt64
  isRatio_nanosPerCycle : Clock.isRatio nanosPerCycle = true
deriving DecidableEq

namespace Clock

def ofRatio (ratio : Binary64) (baseline : UInt64) : Except Error Clock :=
  if h : isRatio ratio = true then .ok ⟨ratio, baseline, h⟩ else .error (.invalidRatio ratio)

/-- The cycles of a nanosecond, which is the counter's rate in gigahertz. -/
def cyclesPerNano (c : Clock) : Binary64 :=
  Binary64.one / c.nanosPerCycle

/-- The whole nanoseconds of a number of cycles. -/
def toNanos (c : Clock) (cycles : UInt64) : UInt64 :=
  (Binary64.ofNat cycles.toNat * c.nanosPerCycle).toUInt64

/-- The whole cycles of a number of nanoseconds. -/
def toCycles (c : Clock) (nanos : UInt64) : UInt64 :=
  (Binary64.ofNat nanos.toNat * c.cyclesPerNano).toUInt64

/-- A reading as a moment. -/
def now (c : Clock) (reading : UInt64) : UInt64 :=
  c.toNanos reading

/-- The nanoseconds from the making of the clock to a reading. -/
def elapsed (c : Clock) (reading : UInt64) : UInt64 :=
  c.toNanos (cyclesBetween c.baseline reading)

/-! ## Calibration

The ratio is measured by reading the counter at both ends of an interval of known length. -/

/-- The interval over which a clock is measured. -/
def calibrationInterval : Span := ⟨10000000⟩

/-- The counter at both ends of a stretch of time. -/
structure Measurement where
  start : UInt64
  stop : UInt64
  /-- How long the stretch was by the wall clock. -/
  wall : Span
deriving DecidableEq

/-- The clock of a measurement. It fails if the counter stood still. -/
def calibrate (interval : Span) (m : Measurement) (baseline : UInt64) : Except Error Clock :=
  let cycles := cyclesBetween m.start m.stop
  if cycles = 0 then .error (.stalled interval)
  else ofRatio (Binary64.ofNat m.wall.nanos / Binary64.ofNat cycles.toNat) baseline

end Clock

/-! ## Stopwatches -/

/-- A measurement that began at a reading. -/
structure Stopwatch where
  start : UInt64
deriving DecidableEq

namespace Stopwatch

def elapsedCycles (w : Stopwatch) (reading : UInt64) : UInt64 :=
  Clock.cyclesBetween w.start reading

def elapsed (w : Stopwatch) (clock : Clock) (reading : UInt64) : UInt64 :=
  clock.toNanos (w.elapsedCycles reading)

end Stopwatch

end QuoteFeed
