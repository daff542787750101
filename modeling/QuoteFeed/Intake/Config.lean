import QuoteFeed.Clock
import QuoteFeed.Pool

/-! # Settings of an intake

The only setting that can be wrong is the pool's capacity. An intake fails to be made for want of a
pool or of a clock.
-/

namespace QuoteFeed

namespace Intake

structure Config where
  poolCapacity : UInt64 := Pool.defaultCapacity
  warmUpPackets : Nat := 1000
  /-- The destination of the packets that the source delivers. -/
  udpPort : UInt16 := 12345
  /-- The channel that the sink publishes to. -/
  channel : String := "gateway"
  counting : Bool := true
deriving DecidableEq

/-- Why an intake cannot be made. -/
inductive Error
  | pool (cause : Pool.Error)
  | clock (cause : Clock.Error)
deriving DecidableEq

def Error.cause : Error → String
  | pool cause => cause.message
  | clock cause => cause.message

def Error.message : Error → String
  | pool cause => "record pool unavailable: " ++ cause.message
  | clock cause => "time base calibration failed: " ++ cause.message

def Config.check (c : Config) : Except Error Unit :=
  (Pool.checkCapacity c.poolCapacity).mapError .pool

end Intake

end QuoteFeed
