import QuoteFeed.Bytes.Endian
import QuoteFeed.Quote.Basic

/-! # The memory image of a quote

The image is the fields one after the other, numbers with their lowest byte first. Reading takes
each field from its place in the layout. The two are inverse to each other.
-/

namespace QuoteFeed

namespace Quote

inductive Field
  | symbol
  | bid
  | ask
  | bidShares
  | askShares
  | spread
  | timestamp
  | sequence
  | valid
  | flags
  | padding
deriving DecidableEq

namespace Field

/-- Every field, in the order of the image. -/
def all : List Field :=
  [symbol, bid, ask, bidShares, askShares, spread, timestamp, sequence, valid, flags, padding]

def offset : Field → Nat
  | symbol => 0
  | bid => 8
  | ask => 16
  | bidShares => 24
  | askShares => 28
  | spread => 32
  | timestamp => 40
  | sequence => 48
  | valid => 52
  | flags => 53
  | padding => 54

def width : Field → Nat
  | symbol => 8
  | bid => 8
  | ask => 8
  | bidShares => 4
  | askShares => 4
  | spread => 8
  | timestamp => 8
  | sequence => 4
  | valid => 1
  | flags => 1
  | padding => 10

end Field

def fieldBytes (q : Quote) : Field → List UInt8
  | .symbol => q.symbol.toList
  | .bid => Bytes.littleEndian 8 q.bid.bits.toNat
  | .ask => Bytes.littleEndian 8 q.ask.bits.toNat
  | .bidShares => Bytes.littleEndian 4 q.bidShares.toNat
  | .askShares => Bytes.littleEndian 4 q.askShares.toNat
  | .spread => Bytes.littleEndian 8 q.spread.bits.toNat
  | .timestamp => Bytes.littleEndian 8 q.timestamp.toNat
  | .sequence => Bytes.littleEndian 4 q.sequence.toNat
  | .valid => [q.valid]
  | .flags => [q.flags]
  | .padding => q.padding.toList

@[simp] theorem length_fieldBytes (q : Quote) (f : Field) : (q.fieldBytes f).length = f.width := by
  cases f <;> simp [fieldBytes, Field.width]

/-- The quote as it lies in memory. -/
def image (q : Quote) : Bytes 64 :=
  ⟨Field.all.flatMap q.fieldBytes, by simp [Field.all, Field.width]⟩

/-- The bytes of one field of an image. -/
def slice (image : Bytes 64) (f : Field) : List UInt8 :=
  (image.toList.drop f.offset).take f.width

@[simp] theorem length_slice (image : Bytes 64) (f : Field) : (slice image f).length = f.width := by
  cases f <;> simp [slice, Field.offset, Field.width]

/-- The quote that lies in memory as the given image. -/
def ofImage (image : Bytes 64) : Quote :=
  let word (f : Field) : Nat := Bytes.ofLittleEndian (slice image f)
  { symbol := ⟨slice image .symbol, length_slice image .symbol⟩
    bid := ⟨UInt64.ofNat (word .bid)⟩
    ask := ⟨UInt64.ofNat (word .ask)⟩
    bidShares := UInt32.ofNat (word .bidShares)
    askShares := UInt32.ofNat (word .askShares)
    spread := ⟨UInt64.ofNat (word .spread)⟩
    timestamp := UInt64.ofNat (word .timestamp)
    sequence := UInt32.ofNat (word .sequence)
    valid := UInt8.ofNat (word .valid)
    flags := UInt8.ofNat (word .flags)
    padding := ⟨slice image .padding, length_slice image .padding⟩ }

end Quote

end QuoteFeed
