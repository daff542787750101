import QuoteFeed.Binary64.Basic
import QuoteFeed.Tally

/-! # Events

What an intake tells its log. Each event has a message and named values.
-/

namespace QuoteFeed.Intake

inductive Event.Value
  | count (n : Nat)
  | number (x : Binary64)
  | text (s : String)
deriving DecidableEq

/-- What an intake tells its log. -/
inductive Event
  | poolAllocated (capacity bytes : Nat)
  | clockCalibrated
  | created (udpPort : UInt16) (channel : String) (poolCapacity : UInt64)
  | warmingUp (packets : Nat)
  | warmedUp (packets : Nat)
  | pollingStarted (udpPort : UInt16) (channel : String)
  | pollingStopped (packets : UInt64)
  | counted (tally : Tally)
  | summarized (tally : Tally) (gigahertz : Binary64) (poolHead : Nat)
deriving DecidableEq

namespace Event

/-- How urgent an event is; all are for information. -/
def level (_ : Event) : String := "INFO"

def message : Event → String
  | poolAllocated .. => "record pool allocated"
  | clockCalibrated => "time base calibrated"
  | created .. => "ingest pipeline created"
  | warmingUp .. => "warming up"
  | warmedUp .. => "warm-up complete"
  | pollingStarted .. => "starting poll loop"
  | pollingStopped .. => "poll loop stopped"
  | counted .. => "pipeline stats"
  | summarized .. => "pipeline summary"

def tallyValues (t : Tally) : List (String × Value) :=
  [("received", .count t.received.toNat), ("processed", .count t.processed.toNat),
    ("dropped", .count t.dropped.toNat), ("parse_errors", .count t.rejected.toNat)]

def values : Event → List (String × Value)
  | poolAllocated capacity bytes => [("capacity", .count capacity), ("bytes", .count bytes)]
  | clockCalibrated => []
  | created udpPort channel poolCapacity =>
      [("udp_port", .count udpPort.toNat), ("channel", .text channel),
        ("pool_capacity", .count poolCapacity.toNat)]
  | warmingUp packets => [("packets", .count packets)]
  | warmedUp packets => [("packets", .count packets)]
  | pollingStarted udpPort channel =>
      [("udp_port", .count udpPort.toNat), ("channel", .text channel)]
  | pollingStopped packets => [("packets", .count packets.toNat)]
  | counted tally => tallyValues tally
  | summarized tally gigahertz poolHead =>
      tallyValues tally ++ [("tsc_ghz", .number gigahertz), ("pool_head", .count poolHead)]

end Event

end QuoteFeed.Intake
