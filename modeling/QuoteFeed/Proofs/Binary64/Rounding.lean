import Mathlib.Tactic.ByContra
import QuoteFeed.Binary64.Arith

/-! # Errors of rounding

A fraction of steps is rounded to a whole number of units, where the unit is the last binary digit
that is kept. The value stays below the next power of two but one, so the error is at most half a
unit, and the unit is at most `2 ^ -52` of the value. -/

namespace QuoteFeed

/-! ## Quotients -/

theorem roundHalfEven_le {num den n : Nat} (hden : 0 < den) (h : num ≤ den * n) :
    roundHalfEven num den ≤ n := by
  have hbounds := (roundHalfEven_bounds num hden).2
  by_contra hlt
  have hmul := Nat.mul_le_mul_left den (Nat.lt_of_not_le hlt)
  rw [Nat.succ_eq_add_one, Nat.mul_add] at hmul
  omega

theorem le_roundHalfEven {num den n : Nat} (hden : 0 < den) (h : den * n ≤ num) :
    n ≤ roundHalfEven num den := by
  have hbounds := (roundHalfEven_bounds num hden).1
  by_contra hlt
  have hmul := Nat.mul_le_mul_left den (Nat.lt_of_not_le hlt)
  rw [Nat.succ_eq_add_one, Nat.mul_add] at hmul
  omega

namespace Binary64

/-! ## The steps of a magnitude -/

/-- Magnitudes count on across a change of exponent: a carry out of the 53 digits is right. -/
theorem stepsOf_add {shift digits : Nat} (hle : digits ≤ 2 ^ 53)
    (h : shift = 0 ∨ 2 ^ 52 ≤ digits) :
    stepsOf (shift * 2 ^ 52 + digits) = digits * 2 ^ shift := by
  by_cases hsmall : digits < 2 ^ 52
  · have hshift : shift = 0 := by omega
    simp [stepsOf, hshift, hsmall]
  · have hlarge : ¬ shift * 2 ^ 52 + digits < 2 ^ 52 := by omega
    rw [stepsOf, if_neg hlarge]
    by_cases hcarry : digits = 2 ^ 53
    · have hmod : (shift * 2 ^ 52 + digits) % 2 ^ 52 = 0 := by omega
      have hdiv : (shift * 2 ^ 52 + digits) / 2 ^ 52 - 1 = shift + 1 := by omega
      rw [hmod, hdiv, hcarry, Nat.pow_succ]
      omega
    · have hmod : 2 ^ 52 + (shift * 2 ^ 52 + digits) % 2 ^ 52 = digits := by omega
      have hdiv : (shift * 2 ^ 52 + digits) / 2 ^ 52 - 1 = shift := by omega
      rw [hmod, hdiv]

/-! ## The digits that are kept -/

/-- The digits of `num / den` that are kept, rounded. -/
def digits (num den : Nat) : Nat :=
  roundHalfEven num (den * 2 ^ excess (num / den))

theorem nearest_eq_min (num den : Nat) :
    nearest num den =
      min infiniteMagnitude (excess (num / den) * 2 ^ 52 + digits num den) :=
  rfl

theorem lt_of_excess (num : Nat) {den : Nat} (hden : 0 < den) :
    num < den * 2 ^ excess (num / den) * 2 ^ 53 := by
  have hlog : num / den < 2 ^ ((num / den).log2 + 1) := Nat.lt_log2_self
  have hpow : 2 ^ ((num / den).log2 + 1) ≤ 2 ^ (excess (num / den) + 53) := by
    apply Nat.pow_le_pow_right (by decide)
    rw [excess]
    omega
  rw [Nat.mul_assoc, ← Nat.pow_add, Nat.mul_comm, ← Nat.div_lt_iff_lt_mul hden]
  omega

/-- Where digits are lost, no fewer than 53 are there. -/
theorem le_of_excess {num den : Nat} (hden : 0 < den) (h : excess (num / den) ≠ 0) :
    den * 2 ^ excess (num / den) * 2 ^ 52 ≤ num := by
  have hnonzero : num / den ≠ 0 := by
    intro hzero
    rw [hzero] at h
    exact h rfl
  have hlog := Nat.log2_self_le hnonzero
  have hexponent : excess (num / den) + 52 = (num / den).log2 := by
    rw [excess] at h ⊢
    omega
  rw [Nat.mul_assoc, ← Nat.pow_add, hexponent, Nat.mul_comm, ← Nat.le_div_iff_mul_le hden]
  exact hlog

theorem excess_le {num den width : Nat} (hden : 0 < den) (h : num < den * 2 ^ width) :
    excess (num / den) ≤ width - 53 := by
  by_contra hlt
  have hle := le_of_excess hden (show excess (num / den) ≠ 0 by omega)
  have hpow : 2 ^ width ≤ 2 ^ excess (num / den) * 2 ^ 52 := by
    rw [← Nat.pow_add]
    exact Nat.pow_le_pow_right (by decide) (by omega)
  have hmul := Nat.mul_le_mul_left den hpow
  rw [Nat.mul_assoc] at hle
  omega

theorem unit_pos (num : Nat) {den : Nat} (hden : 0 < den) : 0 < den * 2 ^ excess (num / den) :=
  Nat.mul_pos hden (Nat.two_pow_pos _)

theorem digits_le (num : Nat) {den : Nat} (hden : 0 < den) : digits num den ≤ 2 ^ 53 :=
  roundHalfEven_le (unit_pos num hden) (Nat.le_of_lt (lt_of_excess num hden))

theorem excess_eq_zero_or (num : Nat) {den : Nat} (hden : 0 < den) :
    excess (num / den) = 0 ∨ 2 ^ 52 ≤ digits num den := by
  by_cases h : excess (num / den) = 0
  · exact .inl h
  · exact .inr (le_roundHalfEven (unit_pos num hden) (le_of_excess hden h))

/-! ## Rounding within the range of finite values -/

/-- Below twice the largest power of two that is finite, infinity is reached only by rounding. -/
theorem stepsOf_nearest {num den : Nat} (hden : 0 < den) (h : num < den * 2 ^ 2098) :
    stepsOf (nearest num den) = digits num den * 2 ^ excess (num / den) := by
  have hle := excess_le hden h
  have hdigits := digits_le num hden
  have hfinite : excess (num / den) * 2 ^ 52 + digits num den ≤ infiniteMagnitude := by
    rw [infiniteMagnitude]
    omega
  rw [nearest_eq_min, Nat.min_eq_right hfinite]
  exact stepsOf_add hdigits (excess_eq_zero_or num hden)

theorem nearest_lt_infinite {num den : Nat} (hden : 0 < den) (h : num < den * 2 ^ 2097) :
    nearest num den < infiniteMagnitude := by
  have hle := excess_le hden h
  have hdigits := digits_le num hden
  rw [nearest_eq_min, infiniteMagnitude]
  omega

/-! ## Errors -/

/-- Rounding moves a value by at most half a unit. -/
theorem nearest_bounds {num den : Nat} (hden : 0 < den) (h : num < den * 2 ^ 2098) :
    2 * num ≤ 2 * (den * stepsOf (nearest num den)) + den * 2 ^ excess (num / den) ∧
      2 * (den * stepsOf (nearest num den)) ≤ 2 * num + den * 2 ^ excess (num / den) := by
  have hbounds := roundHalfEven_bounds num (unit_pos num hden)
  have hvalue : den * (digits num den * 2 ^ excess (num / den)) =
      den * 2 ^ excess (num / den) * digits num den := by
    rw [Nat.mul_comm (digits num den), Nat.mul_assoc]
  rw [stepsOf_nearest hden h, hvalue]
  exact hbounds

/-- A whole number of steps is within a part of `2 ^ 53` of `num / den` steps. -/
structure Approximates (steps num den : Nat) : Prop where
  le : 2 ^ 53 * (den * steps) ≤ 2 ^ 53 * num + num
  ge : 2 ^ 53 * num ≤ 2 ^ 53 * (den * steps) + num

/-- The error is relative to the value, unless the value is too small to keep 53 digits. -/
theorem nearest_approximates {num den : Nat} (hden : 0 < den)
    (hnormal : num = 0 ∨ den * 2 ^ 52 ≤ num) (h : num < den * 2 ^ 2098) :
    Approximates (stepsOf (nearest num den)) num den := by
  have hbounds := nearest_bounds hden h
  rcases hnormal with hzero | hnormal
  · have hsteps : den * stepsOf (nearest num den) = 0 := by
      have hexcess : excess (num / den) = 0 := by
        rw [hzero, Nat.zero_div]
        rfl
      rw [hexcess, Nat.pow_zero, Nat.mul_one] at hbounds
      by_contra hne
      have hle := Nat.le_mul_of_pos_right den (Nat.pos_of_mul_pos_left (Nat.pos_of_ne_zero hne))
      omega
    constructor <;> omega
  · -- The unit is one step, of which there are enough, or the last of 53 digits.
    have hunit : den * 2 ^ excess (num / den) * 2 ^ 52 ≤ num := by
      by_cases hexcess : excess (num / den) = 0
      · rw [hexcess, Nat.pow_zero, Nat.mul_one]
        exact hnormal
      · exact le_of_excess hden hexcess
    constructor <;> omega

theorem Approximates.cancel {steps n den : Nat} (hden : 0 < den)
    (h : Approximates steps (den * n) den) : Approximates steps n 1 := by
  constructor
  · apply Nat.le_of_mul_le_mul_left _ hden
    have hle := h.le
    rw [Nat.mul_add, Nat.one_mul, Nat.mul_left_comm den, Nat.mul_left_comm den]
    exact hle
  · apply Nat.le_of_mul_le_mul_left _ hden
    have hge := h.ge
    rw [Nat.mul_add, Nat.one_mul, Nat.mul_left_comm den, Nat.mul_left_comm den]
    exact hge

/-- A value of at most 53 digits is its own rounding. -/
theorem stepsOf_nearest_exact {k exponent den : Nat} (hden : 0 < den) (hk : k < 2 ^ 53)
    (h : exponent ≤ 2045) :
    stepsOf (nearest (den * (k * 2 ^ exponent)) den) = k * 2 ^ exponent := by
  have hwidth : k * 2 ^ exponent < 2 ^ (exponent + 53) := by
    rw [Nat.pow_add, Nat.mul_comm]
    exact Nat.mul_lt_mul_of_pos_left hk (Nat.two_pow_pos _)
  have hlt := Nat.mul_lt_mul_of_pos_left hwidth hden
  have hrange : den * (k * 2 ^ exponent) < den * 2 ^ 2098 := by
    have hpow := Nat.pow_le_pow_right (show 0 < 2 by decide) (show exponent + 53 ≤ 2098 by omega)
    exact Nat.lt_of_lt_of_le hlt (Nat.mul_le_mul_left den hpow)
  have hexcess := excess_le hden hlt
  rw [stepsOf_nearest hden hrange, digits]
  generalize excess (den * (k * 2 ^ exponent) / den) = shift at hexcess ⊢
  obtain ⟨rest, rfl⟩ : ∃ rest, exponent = shift + rest := Nat.exists_eq_add_of_le hexcess
  have hvalue : k * 2 ^ (shift + rest) = 2 ^ shift * (k * 2 ^ rest) := by
    rw [Nat.pow_add, Nat.mul_left_comm]
  rw [hvalue, ← Nat.mul_assoc, roundHalfEven_mul_left _ (Nat.mul_pos hden (Nat.two_pow_pos _)),
    Nat.mul_comm]

/-- A whole number of steps has no digits that are too small to keep. -/
theorem nearest_approximates_whole {den n : Nat} (hden : 0 < den) (h : n < 2 ^ 2098) :
    Approximates (stepsOf (nearest (den * n) den)) n 1 := by
  by_cases hsmall : n < 2 ^ 52
  · have hexact := stepsOf_nearest_exact hden (show n < 2 ^ 53 by omega) (Nat.zero_le 2045)
    rw [Nat.pow_zero, Nat.mul_one] at hexact
    rw [hexact]
    constructor <;> omega
  · apply Approximates.cancel hden
    exact nearest_approximates hden (.inr (Nat.mul_le_mul_left den (Nat.le_of_not_lt hsmall)))
      (Nat.mul_lt_mul_of_pos_left h hden)

/-! ## Arithmetic on finite values -/

theorem stepsInOne_pos : 0 < stepsInOne := by
  rw [stepsInOne]
  exact Nat.two_pow_pos 1074

theorem two_pow_mul_stepsInOne (exponent : Nat) :
    2 ^ exponent * stepsInOne = 2 ^ (exponent + 1074) := by
  rw [Nat.pow_add, stepsInOne]

theorem steps_ofSteps (negative : Bool) (num den : Nat) :
    (ofSteps negative num den).steps = stepsOf (nearest num den) := by
  rw [steps, magnitude_ofSteps]

/-- A finite value that is not negative. -/
structure IsAmount (x : Binary64) : Prop where
  isFinite : x.isFinite = true
  isNegative : x.isNegative = false

theorem isNaN_of_isFinite {x : Binary64} (h : x.isFinite = true) : x.isNaN = false := by
  have hlt : x.magnitude < infiniteMagnitude := of_decide_eq_true h
  exact decide_eq_false (Nat.not_lt_of_le (Nat.le_of_lt hlt))

theorem isAmount_ofSteps {num den : Nat} (hden : 0 < den) (h : num < den * 2 ^ 2097) :
    (ofSteps false num den).IsAmount where
  isFinite := decide_eq_true (by simpa using nearest_lt_infinite hden h)
  isNegative := isNegative_ofSteps false num den

namespace IsAmount

variable {x y : Binary64}

theorem isNaN (hx : x.IsAmount) : x.isNaN = false :=
  isNaN_of_isFinite hx.isFinite

theorem isInfinite (hx : x.IsAmount) : x.isInfinite = false := by
  have hlt : x.magnitude < infiniteMagnitude := of_decide_eq_true hx.isFinite
  exact beq_eq_false_iff_ne.mpr (Nat.ne_of_lt hlt)

theorem mul_eq (hx : x.IsAmount) (hy : y.IsAmount) :
    x * y = ofSteps false (x.steps * y.steps) stepsInOne := by
  change mul x y = _
  simp [mul, hx.isNaN, hx.isInfinite, hx.isNegative, hy.isNaN, hy.isInfinite, hy.isNegative]

/-- A product that is a whole number of steps before it is rounded. -/
theorem mul_approximates {n : Nat} (hx : x.IsAmount) (hy : y.IsAmount)
    (hn : x.steps * y.steps = stepsInOne * n) (hrange : n < 2 ^ 2097) :
    (x * y).IsAmount ∧ Approximates (x * y).steps n 1 := by
  have hpow := Nat.pow_le_pow_right (show 0 < 2 by decide) (show 2097 ≤ 2098 by decide)
  rw [mul_eq hx hy, hn, steps_ofSteps]
  exact ⟨isAmount_ofSteps stepsInOne_pos (Nat.mul_lt_mul_of_pos_left hrange stepsInOne_pos),
    nearest_approximates_whole stepsInOne_pos (Nat.lt_of_lt_of_le hrange hpow)⟩

end IsAmount

/-! ## Whole numbers -/

/-- The natural numbers below `2 ^ 53` are values. -/
theorem steps_ofNat {n : Nat} (h : n < 2 ^ 53) : (ofNat n).steps = n * stepsInOne := by
  have hexact := stepsOf_nearest_exact Nat.one_pos h (show 1074 ≤ 2045 by decide)
  rw [Nat.one_mul] at hexact
  rw [ofNat, steps_ofSteps, stepsInOne, hexact]

theorem isAmount_ofNat {n : Nat} (h : n < 2 ^ 128) : (ofNat n).IsAmount := by
  apply isAmount_ofSteps Nat.one_pos
  have hpow := Nat.pow_le_pow_right (show 0 < 2 by decide) (show 128 + 1074 ≤ 2097 by decide)
  have hlt := Nat.mul_lt_mul_of_pos_right h stepsInOne_pos
  rw [two_pow_mul_stepsInOne] at hlt
  simpa only [Nat.one_mul] using Nat.lt_of_lt_of_le hlt hpow

end Binary64

end QuoteFeed
