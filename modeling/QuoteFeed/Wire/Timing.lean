import QuoteFeed.Binary64.Arith

/-! # Timing markers

The sender stamps a payload with four readings of a counter that wraps. Only differences of two
readings mean anything, and they are taken modulo the counter's range.
-/

namespace QuoteFeed.Wire

/-- The sender's counter at four moments. -/
structure Markers where
  /-- Parsing began. -/
  parseStart : UInt32
  /-- The parsed packet was queued. -/
  parseWrite : UInt32
  /-- The packet was taken from the output queue. -/
  outputRead : UInt32
  /-- Sending began. -/
  transmitStart : UInt32
deriving DecidableEq

/-- Markers together with the latencies they show, in microseconds. -/
structure Timing where
  markers : Markers
  /-- From the begin of parsing to the queue. -/
  parse : Binary64
  /-- From the output queue to the begin of sending. -/
  transmit : Binary64
  total : Binary64
deriving DecidableEq

/-- The sender's counter runs at 125 MHz: eight nanoseconds to a tick. -/
def nanosPerTick : Binary64 := ⟨0x4020000000000000⟩

/-- The number nearest to `0.001`. -/
def microsPerNano : Binary64 := ⟨0x3F50624DD2F1A9FC⟩

/-- The microseconds from one reading to a later one. -/
def latency (since till : UInt32) : Binary64 :=
  Binary64.ofNat (till - since).toNat * nanosPerTick * microsPerNano

def Markers.timing (m : Markers) : Timing :=
  let parse := latency m.parseStart m.parseWrite
  let transmit := latency m.outputRead m.transmitStart
  { markers := m, parse, transmit, total := parse + transmit }

end QuoteFeed.Wire
