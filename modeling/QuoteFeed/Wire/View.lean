import QuoteFeed.Binary64.Arith
import QuoteFeed.Bytes.Endian
import QuoteFeed.Quote.Basic
import QuoteFeed.Wire.Layout
import QuoteFeed.Wire.Timing

/-! # Reading a payload

A view is a payload that is known to hold the mandatory fields. Every word is read with a proof that
its four bytes are there, so the fields of a view are total.
-/

namespace QuoteFeed

/-! ## Prices

On the wire a price is a whole number of ten-thousandths. A raw price becomes a number by one
multiplication and a number becomes a raw price by rounding, within the range of a word. -/

namespace Price

/-- The number nearest to `0.0001`. -/
def multiplier : Binary64 := ⟨0x3F1A36E2EB1C432D⟩

/-- The number `10000`. -/
def rawPerUnit : Binary64 := ⟨0x40C3880000000000⟩

/-- The price that a raw price stands for. -/
def ofRaw (raw : UInt32) : Binary64 :=
  Binary64.ofNat raw.toNat * multiplier

/-- The raw price nearest to a price. -/
def toRaw (price : Binary64) : UInt32 :=
  (price * rawPerUnit).roundHalfAway.toUInt32

end Price

namespace Wire

/-! ## Words and views -/

/-- The word whose first byte is at `offset`. -/
def wordAt (payload : Payload) (offset : Nat) (_ : offset + 4 ≤ payload.length) : UInt32 :=
  UInt32.ofNat (Bytes.ofBigEndian ((payload.drop offset).take 4))

/-- A payload that holds the mandatory fields. -/
structure View where
  payload : Payload
  minSize_le : minSize ≤ payload.length
deriving DecidableEq

namespace View

/-- The view of a payload, unless it is too short. -/
def of? (payload : Payload) : Option View :=
  if h : minSize ≤ payload.length then some ⟨payload, h⟩ else none

def size (v : View) : Nat :=
  v.payload.length

/-- The word at any offset, unless the payload ends before its last byte. -/
def word? (v : View) (offset : UInt64) : Option UInt32 :=
  if h : offset.toNat + 4 ≤ v.payload.length then some (wordAt v.payload offset.toNat h) else none

/-- The word at an offset within the mandatory fields. -/
def mandatory (v : View) (offset : Nat) (h : offset + 4 ≤ minSize) : UInt32 :=
  wordAt v.payload offset (Nat.le_trans h v.minSize_le)

/-! ## The mandatory fields -/

def symbol (v : View) : Bytes 8 :=
  Bytes.ofTake 8 v.payload (Nat.le_trans (by decide) v.minSize_le)

def bidRaw (v : View) : UInt32 :=
  v.mandatory bidOffset (by decide)

def bidShares (v : View) : UInt32 :=
  v.mandatory bidSharesOffset (by decide)

def askRaw (v : View) : UInt32 :=
  v.mandatory askOffset (by decide)

def askShares (v : View) : UInt32 :=
  v.mandatory askSharesOffset (by decide)

def spreadRaw (v : View) : UInt32 :=
  v.mandatory spreadOffset (by decide)

/-! ## The timing markers -/

/-- Whether the payload is long enough for timing markers. -/
def hasTiming (v : View) : Bool :=
  fullSize ≤ v.size

def markers? (v : View) : Option Markers :=
  if v.hasTiming then do
    let parseStart ← v.word? (UInt64.ofNat parseStartOffset)
    let parseWrite ← v.word? (UInt64.ofNat parseWriteOffset)
    let outputRead ← v.word? (UInt64.ofNat outputReadOffset)
    let transmitStart ← v.word? (UInt64.ofNat transmitStartOffset)
    some { parseStart, parseWrite, outputRead, transmitStart }
  else none

/-! ## The quote -/

/-- The quote that the payload stands for. -/
def quote (v : View) (timestamp : UInt64) (sequence : UInt32) : Quote where
  symbol := v.symbol
  bid := Price.ofRaw v.bidRaw
  ask := Price.ofRaw v.askRaw
  bidShares := v.bidShares
  askShares := v.askShares
  spread := Price.ofRaw v.spreadRaw
  timestamp := timestamp
  sequence := sequence
  valid := 1
  flags := if v.hasTiming then Flag.extendedTiming else 0
  padding := Bytes.replicate 10 0

theorem of?_eq_none_iff {payload : Payload} : of? payload = none ↔ payload.length < minSize := by
  unfold of?
  split <;> simp <;> omega

theorem of?_eq_some_iff {payload : Payload} {v : View} :
    of? payload = some v ↔ v.payload = payload := by
  unfold of?
  split
  · obtain ⟨bytes, _⟩ := v
    simp [eq_comm]
  · next h =>
      simp only [reduceCtorEq, false_iff]
      intro hv
      exact h (hv ▸ v.minSize_le)

end View

/-- The latencies that a payload shows, if it carries timing markers. -/
def timing? (payload : Payload) : Option Timing := do
  let view ← View.of? payload
  let markers ← view.markers?
  some markers.timing

end Wire

end QuoteFeed
