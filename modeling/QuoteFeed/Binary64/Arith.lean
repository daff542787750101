import QuoteFeed.Binary64.Round

/-! # Arithmetic on binary64

Each operation takes the exact result in steps and rounds it once. Conversion to a word drops the
fraction and stops at the ends of the word's range.
-/

namespace QuoteFeed.Binary64

def ofNat (n : Nat) : Binary64 :=
  ofSteps false (n * stepsInOne) 1

/-- The product, rounded to nearest. -/
def mul (x y : Binary64) : Binary64 :=
  let negative := x.isNegative != y.isNegative
  if x.isNaN || y.isNaN then nan
  else if x.isInfinite || y.isInfinite then
    if x.isZero || y.isZero then nan else infinity negative
  else ofSteps negative (x.steps * y.steps) stepsInOne

/-- The quotient, rounded to nearest. -/
def div (x y : Binary64) : Binary64 :=
  let negative := x.isNegative != y.isNegative
  if x.isNaN || y.isNaN then nan
  else if x.isInfinite then
    if y.isInfinite then nan else infinity negative
  else if y.isInfinite then ofMagnitude negative 0
  else if y.isZero then
    if x.isZero then nan else infinity negative
  else ofSteps negative (x.steps * stepsInOne) y.steps

/-- The value in steps, with its sign. -/
def signedSteps (x : Binary64) : Int :=
  if x.isNegative then -(x.steps : Int) else x.steps

/-- The sum, rounded to nearest. A sum of zero is negative only if both terms are. -/
def add (x y : Binary64) : Binary64 :=
  if x.isNaN || y.isNaN then nan
  else if x.isInfinite then
    if y.isInfinite && x.isNegative != y.isNegative then nan else x
  else if y.isInfinite then y
  else
    let total := x.signedSteps + y.signedSteps
    let negative := if total = 0 then x.isNegative && y.isNegative else decide (total < 0)
    ofSteps negative total.natAbs 1

instance : Mul Binary64 := ⟨mul⟩

instance : Div Binary64 := ⟨div⟩

instance : Add Binary64 := ⟨add⟩

/-- The nearest whole number, a half going away from zero. -/
def roundHalfAway (x : Binary64) : Binary64 :=
  if x.isFinite then
    ofSteps x.isNegative ((x.steps + stepsInOne / 2) / stepsInOne * stepsInOne) 1
  else x

/-- The whole part, at least zero and at most `limit`; zero for what is no number. -/
def truncate (limit : Nat) (x : Binary64) : Nat :=
  if x.isNaN || x.isNegative then 0 else min limit (x.steps / stepsInOne)

theorem truncate_le (limit : Nat) (x : Binary64) : x.truncate limit ≤ limit := by
  unfold truncate
  split
  · exact Nat.zero_le _
  · exact Nat.min_le_left _ _

/-- The whole part as a 64-bit word, the nearest word where none holds it. -/
def toUInt64 (x : Binary64) : UInt64 :=
  UInt64.ofNat (x.truncate (2 ^ 64 - 1))

/-- The whole part as a 32-bit word, the nearest word where none holds it. -/
def toUInt32 (x : Binary64) : UInt32 :=
  UInt32.ofNat (x.truncate (2 ^ 32 - 1))

theorem toNat_toUInt64 (x : Binary64) : x.toUInt64.toNat = x.truncate (2 ^ 64 - 1) := by
  have h := x.truncate_le (2 ^ 64 - 1)
  simp only [toUInt64, UInt64.toNat_ofNat']
  omega

theorem toNat_toUInt32 (x : Binary64) : x.toUInt32.toNat = x.truncate (2 ^ 32 - 1) := by
  have h := x.truncate_le (2 ^ 32 - 1)
  simp only [toUInt32, UInt32.toNat_ofNat']
  omega

end QuoteFeed.Binary64
