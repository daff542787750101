import QuoteFeed.Bytes.Endian
import QuoteFeed.Quote.Symbol
import QuoteFeed.Wire.Layout
import QuoteFeed.Wire.Timing

/-! # Writing a payload

A packet is the content of a payload. `encode` lays its fields one after the other; `writeInto` puts
each field at its offset in a buffer that is already there.
-/

namespace QuoteFeed.Wire

/-- A quote in the terms of the wire. -/
structure Packet where
  symbol : Bytes 8
  bidRaw : UInt32
  bidShares : UInt32
  askRaw : UInt32
  askShares : UInt32
  spreadRaw : UInt32
  markers : Option Markers
deriving DecidableEq

namespace Packet

/-- The packet of a name and two sides, without timing markers. A crossed quote has no spread. -/
def ofSides (name : String) (bidRaw bidShares askRaw askShares : UInt32) : Packet where
  symbol := Symbol.field (Utf8.encode name)
  bidRaw := bidRaw
  bidShares := bidShares
  askRaw := askRaw
  askShares := askShares
  spreadRaw := UInt32.ofNat (askRaw.toNat - bidRaw.toNat)
  markers := none

def withMarkers (p : Packet) (markers : Markers) : Packet :=
  { p with markers := some markers }

def size (p : Packet) : Nat :=
  if p.markers.isSome then fullSize else minSize

def wordBytes (word : UInt32) : List UInt8 :=
  Bytes.bigEndian 4 word.toNat

/-- The fields of timing markers, each with its offset. -/
def markerFields (m : Markers) : List (Nat × List UInt8) :=
  [(parseStartOffset, wordBytes m.parseStart), (parseWriteOffset, wordBytes m.parseWrite),
    (outputReadOffset, wordBytes m.outputRead), (transmitStartOffset, wordBytes m.transmitStart)]

/-- The fields of the packet, each with its offset. -/
def fields (p : Packet) : List (Nat × List UInt8) :=
  [(symbolOffset, p.symbol.toList), (bidOffset, wordBytes p.bidRaw),
    (bidSharesOffset, wordBytes p.bidShares), (askOffset, wordBytes p.askRaw),
    (askSharesOffset, wordBytes p.askShares), (spreadOffset, wordBytes p.spreadRaw)] ++
    p.markers.elim [] markerFields

def encode (p : Packet) : Payload :=
  p.fields.flatMap Prod.snd

/-- The buffer with the bytes from `offset` on replaced. -/
def overwrite (buffer : List UInt8) (offset : Nat) (bytes : List UInt8) : List UInt8 :=
  buffer.take offset ++ bytes ++ buffer.drop (offset + bytes.length)

/-- Writes the packet into a buffer, and tells how many bytes it took. A buffer that is too short is
left as it is. -/
def writeInto (p : Packet) (buffer : List UInt8) : Option Nat × List UInt8 :=
  if buffer.length < p.size then (none, buffer)
  else (some p.size, p.fields.foldl (fun written f => overwrite written f.1 f.2) buffer)

@[simp] theorem length_wordBytes (word : UInt32) : (wordBytes word).length = 4 := by
  simp [wordBytes]

@[simp] theorem length_encode (p : Packet) : p.encode.length = p.size := by
  cases h : p.markers <;> simp [encode, fields, size, markerFields, h, minSize, fullSize]

end Packet

end QuoteFeed.Wire
