import QuoteFeed.Clock
import QuoteFeed.Intake.Config
import QuoteFeed.Intake.Event
import QuoteFeed.Report
import QuoteFeed.Sink
import QuoteFeed.Source
import QuoteFeed.Wire.Packet

/-! # Intakes

An intake takes payloads one at a time: it gives each a sequence number and a receive time, decodes
it into the pool, offers the quote to the sink and counts what became of it. A burst is its payloads
one after the other. A warm-up decodes synthetic packets that neither sink nor tally ever see.
-/

namespace QuoteFeed

/-- Takes payloads, decodes them and offers the quotes to a sink. -/
structure Intake (σ : Type) where
  config : Intake.Config
  pool : Pool
  clock : Clock
  /-- The counter that receive times are read from. -/
  ticker : Ticker
  sink : σ
  tally : Tally := {}
  /-- Set when the intake is asked to stop; never cleared. -/
  stopped : Bool := false
  /-- The sequence number of the next packet. -/
  sequence : UInt32 := 0

namespace Intake

variable {σ : Type}

/-! ## Making an intake -/

/-- An intake with a clock that is known, in a memory whose largest block has `memory` bytes. -/
def create (memory : Nat) (config : Config) (clock : Clock) (ticker : Ticker) (sink : σ) :
    Except Error (Intake σ) := do
  config.check
  let pool ← (Pool.create memory config.poolCapacity).mapError .pool
  return { config, pool, clock, ticker, sink }

/-- An intake with a clock that is measured first. -/
def createMeasured (memory : Nat) (config : Config) (measurement : Clock.Measurement)
    (ticker : Ticker) (sink : σ) : Except Error (Intake σ) := do
  config.check
  let baseline := ticker.read
  let clock ← (Clock.calibrate Clock.calibrationInterval measurement baseline.1).mapError .clock
  create memory config clock baseline.2 sink

def creationEvents (s : Intake σ) : List Event :=
  [.poolAllocated s.pool.capacity s.pool.bytes,
    .created s.config.udpPort s.config.channel s.config.poolCapacity]

/-! ## Packets -/

/-- What became of a packet. -/
inductive Outcome
  /-- The sink took the quote. -/
  | published
  /-- The sink did not take the quote. -/
  | dropped
  /-- The payload could not be decoded. -/
  | rejected
deriving DecidableEq

def Outcome.counter : Outcome → Tally.Counter
  | published => .processed
  | dropped => .dropped
  | rejected => .rejected

def tallyAfter (s : Intake σ) (outcome : Outcome) : Tally :=
  if s.config.counting then (s.tally.bump .received).bump outcome.counter else s.tally

/-- Takes a payload whose receive time is known. A payload that cannot be decoded uses up its
sequence number all the same. -/
def process [Sink σ] (s : Intake σ) (payload : Payload) (time : UInt64) : Outcome × Intake σ :=
  match s.pool.decode payload time s.sequence with
  | (none, pool) =>
      (.rejected, { s with pool, tally := s.tallyAfter .rejected, sequence := s.sequence + 1 })
  | (some placed, pool) =>
      let response := Sink.offer s.sink placed.quote
      let outcome := if response.taken then .published else .dropped
      (outcome, { s with
        pool
        sink := response.sink
        tally := s.tallyAfter outcome
        stopped := s.stopped || response.stops
        sequence := s.sequence + 1 })

/-- Reads the counter: the moment that it shows. -/
def readTime (s : Intake σ) : UInt64 × Intake σ :=
  let reading := s.ticker.read
  (s.clock.now reading.1, { s with ticker := reading.2 })

/-- Takes a payload that arrives now. -/
def receive [Sink σ] (s : Intake σ) (payload : Payload) : Outcome × Intake σ :=
  let moment := s.readTime
  moment.2.process payload moment.1

def receiveAll [Sink σ] (s : Intake σ) (burst : List Payload) : Intake σ :=
  burst.foldl (fun s payload => (s.receive payload).2) s

/-! ## Warming up -/

def warmUpPacket : Wire.Packet :=
  { Wire.Packet.ofSides "WARMUP" 1500000 100 1500000 100 with spreadRaw := 1000 }.withMarkers
    ⟨0, 0, 0, 0⟩

/-- Decodes one synthetic packet, and counts it. -/
def warmUpOnce (progress : Nat × Intake σ) : Nat × Intake σ :=
  let moment := progress.2.readTime
  let s := moment.2
  match s.pool.decode warmUpPacket.encode moment.1 0 with
  | (none, pool) => (progress.1, { s with pool })
  | (some placed, pool) =>
      (progress.1 + 1,
        { s with pool := pool.modify placed.slot fun quote => quote.setFlag Flag.synthetic })

/-- Reads the counter once and decodes the synthetic packets of a warm-up; also tells how many they
were. -/
def warmUp (s : Intake σ) : Nat × Intake σ :=
  Nat.repeat warmUpOnce s.config.warmUpPackets (0, s.readTime.2)

def warmUpEvents (s : Intake σ) (decoded : Nat) : List Event :=
  [.warmingUp s.config.warmUpPackets, .warmedUp decoded]

/-! ## Control and reports -/

def stop (s : Intake σ) : Intake σ :=
  { s with stopped := true }

@[simp] theorem stopped_stop (s : Intake σ) : s.stop.stopped = true := rfl

/-- To ask a second time changes nothing. -/
theorem stop_of_stopped {s : Intake σ} (h : s.stopped = true) : s.stop = s := by
  rw [stop, ← h]

def resetTally (s : Intake σ) : Intake σ :=
  { s with tally := {} }

/-- The tally with the clock's rate and the state of the pool. Which pages the pool lies in is up to
the memory it was taken from; they are ordinary ones unless it is told otherwise. -/
def report (s : Intake σ) (hugePages : Bool := false) : Report where
  tally := s.tally
  gigahertz := s.clock.cyclesPerNano
  poolHead := s.pool.head
  poolCapacity := s.pool.capacity
  hugePages := hugePages

def reportEvent (s : Intake σ) : Event :=
  .summarized s.report.tally s.report.gigahertz s.report.poolHead

end Intake

end QuoteFeed
