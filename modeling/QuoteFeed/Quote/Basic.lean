import QuoteFeed.Binary64.Basic
import QuoteFeed.Bytes.Basic

/-! # Quotes

A quote is the best bid and offer of one symbol at one moment, as it is handed to consumers. It
fills one cache line, padding included, and the padding is part of its value.
-/

namespace QuoteFeed

def symbolSize : Nat := 8

/-- The bytes that a quote fills, and the alignment it is kept at. -/
def cacheLineSize : Nat := 64

namespace Flag

/-- The payload carried timing markers. -/
def extendedTiming : UInt8 := 0x01

/-- The quote was made by a warm-up and is never offered to a sink. -/
def synthetic : UInt8 := 0x02

/-- The quote may be outdated. -/
def stale : UInt8 := 0x04

end Flag

structure Quote where
  symbol : Bytes 8
  bid : Binary64
  ask : Binary64
  bidShares : UInt32
  askShares : UInt32
  spread : Binary64
  /-- When the payload arrived, in nanoseconds. -/
  timestamp : UInt64
  sequence : UInt32
  /-- Zero in a slot that was never filled. -/
  valid : UInt8
  flags : UInt8
  padding : Bytes 10
deriving DecidableEq

namespace Quote

/-- The quote whose every byte is zero. -/
def blank : Quote where
  symbol := Bytes.replicate 8 0
  bid := Binary64.zero
  ask := Binary64.zero
  bidShares := 0
  askShares := 0
  spread := Binary64.zero
  timestamp := 0
  sequence := 0
  valid := 0
  flags := 0
  padding := Bytes.replicate 10 0

/-! ## Flags -/

def hasFlag (q : Quote) (flag : UInt8) : Bool :=
  q.flags &&& flag != 0

def setFlag (q : Quote) (flag : UInt8) : Quote :=
  { q with flags := q.flags ||| flag }

def isValid (q : Quote) : Bool :=
  q.valid != 0

def hasExtendedTiming (q : Quote) : Bool :=
  q.hasFlag Flag.extendedTiming

def isSynthetic (q : Quote) : Bool :=
  q.hasFlag Flag.synthetic

def isStale (q : Quote) : Bool :=
  q.hasFlag Flag.stale

/-- Marks the quote as possibly outdated. -/
def markStale (q : Quote) : Quote :=
  q.setFlag Flag.stale

/-! ## Comparison -/

/-- Equality of quotes, in which prices are compared by value: a price that is no number makes a
quote differ from itself. -/
def agrees (p q : Quote) : Bool :=
  p.symbol == q.symbol && p.bid.sameValue q.bid && p.ask.sameValue q.ask &&
    p.bidShares == q.bidShares && p.askShares == q.askShares && p.spread.sameValue q.spread &&
    p.timestamp == q.timestamp && p.sequence == q.sequence && p.valid == q.valid &&
    p.flags == q.flags && p.padding == q.padding

end Quote

end QuoteFeed
