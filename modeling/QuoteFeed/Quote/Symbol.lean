import QuoteFeed.Quote.Basic
import QuoteFeed.Text.Utf8

/-! # Symbols of quotes

A symbol shorter than its field is filled up with spaces. Spaces and NULs at the end do not belong
to it when it is read; those inside it do.
-/

namespace QuoteFeed

namespace Symbol

def space : UInt8 := 0x20

/-- Whether a byte is dropped from the end of a symbol. -/
def isBlank (b : UInt8) : Bool :=
  b == space || b == 0

/-- The bytes without the blank ones at the end. -/
def trimEnd (bs : List UInt8) : List UInt8 :=
  (bs.reverse.dropWhile isBlank).reverse

/-- The field of a symbol: its first eight bytes, filled up with spaces. -/
def field (name : List UInt8) : Bytes 8 :=
  Bytes.padded 8 space name

theorem trimEnd_append_eq (bs : List UInt8) :
    trimEnd bs ++ (bs.reverse.takeWhile isBlank).reverse = bs := by
  rw [trimEnd, ← List.reverse_append, List.takeWhile_append_dropWhile, List.reverse_reverse]

end Symbol

namespace Quote

/-- The quote with the symbol of the given name. -/
def setSymbol (q : Quote) (name : List UInt8) : Quote :=
  { q with symbol := Symbol.field name }

/-- The symbol's bytes without the blank ones at the end. -/
def symbolBytes (q : Quote) : List UInt8 :=
  Symbol.trimEnd q.symbol.toList

def symbolText (q : Quote) : String :=
  Utf8.decodeText q.symbolBytes

end Quote

end QuoteFeed
