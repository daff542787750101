import QuoteFeed.Arithmetic

/-! # Numbers in the binary64 format

A number is held as its 64 bits. Apart from the sign they form the magnitude, and magnitudes are
ordered as the absolute values they stand for. Every finite value is a whole number of steps of
`2 ^ -1074`, so the arithmetic on values is arithmetic on natural numbers.
-/

namespace QuoteFeed

/-- A number in the IEEE 754 binary64 format, held as its bits. -/
structure Binary64 where
  /-- Sign, exponent and fraction, from the highest bit down. -/
  bits : UInt64
deriving DecidableEq

namespace Binary64

/-- The magnitude of the infinities; the magnitudes above it are not numbers. -/
def infiniteMagnitude : Nat := 0x7FF0000000000000

/-- The number of steps of `2 ^ -1074` in one. -/
def stepsInOne : Nat := 2 ^ 1074

/-- The bits below the sign. -/
def magnitude (x : Binary64) : Nat :=
  x.bits.toNat % 2 ^ 63

def isNegative (x : Binary64) : Bool :=
  2 ^ 63 ≤ x.bits.toNat

/-- Whether the bits stand for no number at all. -/
def isNaN (x : Binary64) : Bool :=
  infiniteMagnitude < x.magnitude

def isInfinite (x : Binary64) : Bool :=
  x.magnitude == infiniteMagnitude

def isFinite (x : Binary64) : Bool :=
  x.magnitude < infiniteMagnitude

/-- Whether the value is zero, of either sign. -/
def isZero (x : Binary64) : Bool :=
  x.magnitude == 0

/-- The steps of `2 ^ -1074` that a magnitude stands for. The lowest `2 ^ 52` magnitudes are one
step apart, and from there on the distance doubles every `2 ^ 52` magnitudes. -/
def stepsOf (magnitude : Nat) : Nat :=
  if magnitude < 2 ^ 52 then magnitude
  else (2 ^ 52 + magnitude % 2 ^ 52) * 2 ^ (magnitude / 2 ^ 52 - 1)

/-- The absolute value in steps of `2 ^ -1074`. -/
def steps (x : Binary64) : Nat :=
  stepsOf x.magnitude

def ofMagnitude (negative : Bool) (magnitude : Nat) : Binary64 :=
  ⟨UInt64.ofNat (if negative then magnitude + 2 ^ 63 else magnitude)⟩

/-- The canonical bits that stand for no number. -/
def nan : Binary64 := ⟨0x7FF8000000000000⟩

def zero : Binary64 := ⟨0⟩

def one : Binary64 := ⟨0x3FF0000000000000⟩

def infinity (negative : Bool) : Binary64 :=
  ofMagnitude negative infiniteMagnitude

/-- The place of a number in the order of values: both zeros are at zero. -/
def rank (x : Binary64) : Int :=
  if x.isNegative then -(x.magnitude : Int) else x.magnitude

/-- Equality of values: both zeros are equal, and what is no number equals nothing. -/
def sameValue (x y : Binary64) : Bool :=
  !x.isNaN && !y.isNaN && x.rank == y.rank

/-- The order of values: what is no number is above and below nothing. -/
def atMost (x y : Binary64) : Bool :=
  !x.isNaN && !y.isNaN && decide (x.rank ≤ y.rank)

theorem magnitude_lt (x : Binary64) : x.magnitude < 2 ^ 63 :=
  Nat.mod_lt _ (by decide)

@[simp] theorem magnitude_ofMagnitude (negative : Bool) {m : Nat} (h : m < 2 ^ 63) :
    (ofMagnitude negative m).magnitude = m := by
  cases negative <;> simp [ofMagnitude, magnitude] <;> omega

@[simp] theorem isNegative_ofMagnitude (negative : Bool) {m : Nat} (h : m < 2 ^ 63) :
    (ofMagnitude negative m).isNegative = negative := by
  cases negative <;> simp [ofMagnitude, isNegative] <;> omega

theorem ofMagnitude_magnitude (x : Binary64) :
    ofMagnitude x.isNegative x.magnitude = x := by
  have hx := x.bits.toNat_lt
  obtain ⟨b⟩ := x
  simp only [ofMagnitude, isNegative, magnitude, Binary64.mk.injEq]
  apply UInt64.toNat_inj.mp
  simp only at hx
  by_cases h : 2 ^ 63 ≤ b.toNat
  · simp only [h, decide_true, if_true, UInt64.toNat_ofNat']
    omega
  · simp only [h, decide_false, Bool.false_eq_true, if_false, UInt64.toNat_ofNat']
    omega

end Binary64

end QuoteFeed
