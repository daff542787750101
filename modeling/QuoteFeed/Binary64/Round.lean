import QuoteFeed.Arithmetic
import QuoteFeed.Binary64.Basic

/-! # Rounding to binary64

`nearest` rounds a fraction of steps to a magnitude, once and to nearest. The quotient keeps 53
binary digits, and because magnitudes count on across a change of exponent, a carry out of the
rounded quotient lands on the right magnitude by itself. Small results, whose digits are fewer, need
no case of their own.
-/

namespace QuoteFeed.Binary64

/-- How many binary digits of a whole number of steps a number cannot keep. -/
def excess (steps : Nat) : Nat :=
  steps.log2 - 52

/-- The magnitude nearest to `num / den` steps, a tie going to the even one. Beyond the largest
finite value it is infinite. -/
def nearest (num den : Nat) : Nat :=
  let shift := excess (num / den)
  min infiniteMagnitude (shift * 2 ^ 52 + roundHalfEven num (den * 2 ^ shift))

theorem nearest_le (num den : Nat) : nearest num den ≤ infiniteMagnitude :=
  Nat.min_le_left _ _

theorem nearest_lt (num den : Nat) : nearest num den < 2 ^ 63 :=
  Nat.lt_of_le_of_lt (nearest_le num den) (by decide)

/-- The number of the given sign nearest to `num / den` steps. -/
def ofSteps (negative : Bool) (num den : Nat) : Binary64 :=
  ofMagnitude negative (nearest num den)

@[simp] theorem magnitude_ofSteps (negative : Bool) (num den : Nat) :
    (ofSteps negative num den).magnitude = nearest num den :=
  magnitude_ofMagnitude negative (nearest_lt num den)

@[simp] theorem isNegative_ofSteps (negative : Bool) (num den : Nat) :
    (ofSteps negative num den).isNegative = negative :=
  isNegative_ofMagnitude negative (nearest_lt num den)

@[simp] theorem isNaN_ofSteps (negative : Bool) (num den : Nat) :
    (ofSteps negative num den).isNaN = false := by
  simp [isNaN, nearest_le]

end QuoteFeed.Binary64
