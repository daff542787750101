import QuoteFeed.SlotRing
import QuoteFeed.Wire.View

/-! # Pools of quotes

A pool is a ring of quotes of an accepted capacity. Decoding takes one slot of it and overwrites the
whole quote there; a payload that cannot be decoded takes none.
-/

namespace QuoteFeed

abbrev Pool := SlotRing Quote

namespace Pool

/-- The capacity of a pool for which none is asked. -/
def defaultCapacity : UInt64 := 1024

def minCapacity : UInt64 := 64

inductive Error
  /-- The capacity is not a power of two, too small, or too large for its bytes to be counted. -/
  | invalidCapacity (capacity : UInt64)
  /-- The memory has no block of so many bytes. -/
  | allocationFailed (bytes : UInt64)
deriving DecidableEq

def Error.message : Error → String
  | invalidCapacity capacity =>
      "invalid pool capacity " ++ toString capacity.toNat ++
        ": must be a power of two and at least 64"
  | allocationFailed bytes =>
      "failed to allocate " ++ toString bytes.toNat ++ " bytes for record pool"

/-- Whether a capacity is a power of two and large enough. -/
def isCapacity (capacity : UInt64) : Bool :=
  minCapacity ≤ capacity && decide capacity.toNat.isPowerOfTwo

def checkCapacity (capacity : UInt64) : Except Error Unit :=
  if isCapacity capacity then .ok () else .error (.invalidCapacity capacity)

/-- The bytes that so many quotes fill. -/
def bytesFor (capacity : Nat) : Nat :=
  cacheLineSize * capacity

/-- A pool of blank quotes, taken from a memory whose largest block has `memory` bytes. -/
def create (memory : Nat) (capacity : UInt64) : Except Error Pool :=
  if h : isCapacity capacity then
    let bytes := bytesFor capacity.toNat
    if 2 ^ 64 ≤ bytes then .error (.invalidCapacity capacity)
    else if memory < bytes then .error (.allocationFailed (UInt64.ofNat bytes))
    else .ok (SlotRing.replicate capacity.toNat Quote.blank
      (by simp [isCapacity] at h; exact h.2) capacity.toNat_lt)
  else .error (.invalidCapacity capacity)

def bytes (pool : Pool) : Nat :=
  bytesFor pool.capacity

structure Placed where
  slot : Nat
  quote : Quote
deriving DecidableEq

/-- Decodes a payload into the next slot. A payload that is too short leaves the pool as it is. -/
def decode (pool : Pool) (payload : Payload) (timestamp : UInt64) (sequence : UInt32) :
    Option Placed × Pool :=
  match Wire.View.of? payload with
  | none => (none, pool)
  | some view =>
      let quote := view.quote timestamp sequence
      let pushed := pool.push quote
      (some ⟨pushed.1, quote⟩, pushed.2)

/-- A description of the pool, given the one of its memory. -/
def describe (pool : Pool) (memory : String) : String :=
  "RecordPool \x7b capacity: " ++ toString pool.capacity ++ ", backing: " ++ memory ++
    ", cursor: " ++ toString pool.cursor.toNat ++ " \x7d"

end Pool

end QuoteFeed
