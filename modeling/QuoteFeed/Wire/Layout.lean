/-! # The layout of a payload

A payload begins with the symbol and five words. Four more words follow if it carries timing
markers, and whatever comes after them is ignored. Words have their highest byte first.
-/

namespace QuoteFeed

/-- The bytes of one packet. -/
abbrev Payload := List UInt8

namespace Wire

/-- The size of a payload without timing markers. -/
def minSize : Nat := 28

/-- The size of a payload with timing markers. -/
def fullSize : Nat := 44

/-! ## Where the fields begin -/

def symbolOffset : Nat := 0

def bidOffset : Nat := 8

def bidSharesOffset : Nat := 12

def askOffset : Nat := 16

def askSharesOffset : Nat := 20

def spreadOffset : Nat := 24

def parseStartOffset : Nat := 28

def parseWriteOffset : Nat := 32

def outputReadOffset : Nat := 36

def transmitStartOffset : Nat := 40

def offsets : List Nat :=
  [symbolOffset, bidOffset, bidSharesOffset, askOffset, askSharesOffset, spreadOffset,
    parseStartOffset, parseWriteOffset, outputReadOffset, transmitStartOffset]

end Wire

end QuoteFeed
