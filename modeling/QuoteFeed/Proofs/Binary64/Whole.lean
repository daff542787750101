import Mathlib.Algebra.Order.Group.Abs
import Mathlib.Tactic.Linarith
import QuoteFeed.Proofs.Binary64.Order

/-! # Nearest whole numbers

Numbers are ordered as their values are, the infinities at the ends. The nearest whole number, as a
word, is a function of the steps alone, also where it is infinite or beyond the range of words. -/

namespace QuoteFeed.Binary64

/-! ## The order of numbers -/

theorem atMost_iff {x y : Binary64} :
    x.atMost y = true ↔ x.isNaN = false ∧ y.isNaN = false ∧ x.rank ≤ y.rank := by
  simp [atMost, and_assoc]

theorem rank_le_rank_iff {x y : Binary64} : x.rank ≤ y.rank ↔ x.value ≤ y.value := by
  have hsteps : x.steps ≤ y.steps ↔ x.magnitude ≤ y.magnitude := stepsOf_strictMono.le_iff_le
  have hsteps' : y.steps ≤ x.steps ↔ y.magnitude ≤ x.magnitude := stepsOf_strictMono.le_iff_le
  have hzero : x.steps = 0 ↔ x.magnitude = 0 := stepsOf_strictMono.injective.eq_iff' stepsOf_zero
  have hzero' : y.steps = 0 ↔ y.magnitude = 0 := stepsOf_strictMono.injective.eq_iff' stepsOf_zero
  rw [value, value, div_le_div_iff_of_pos_right cast_stepsInOne_pos, Int.cast_le, rank, rank,
    signedSteps, signedSteps]
  by_cases hx : x.isNegative = true <;> by_cases hy : y.isNegative = true <;>
    simp only [hx, hy, if_true, if_false, Bool.false_eq_true] <;> omega

theorem value_zero : zero.value = 0 := by
  have hsteps : zero.signedSteps = 0 := by decide
  rw [value, hsteps, Int.cast_zero, zero_div]

/-! ## Whole numbers -/

/-- Up to the end of the range of words, a whole number is not rounded. -/
theorem min_steps_ofNat (n : Nat) :
    min (2 ^ 32 - 1) ((ofNat n).steps / stepsInOne) = min (2 ^ 32 - 1) n := by
  by_cases hsmall : n < 2 ^ 53
  · rw [steps_ofNat hsmall, Nat.mul_div_cancel _ stepsInOne_pos]
  · have hlarge := steps_ofNat_mono (show 2 ^ 52 ≤ n by omega)
    rw [steps_ofNat (by decide)] at hlarge
    have hwhole := (Nat.le_div_iff_mul_le stepsInOne_pos).mpr hlarge
    omega

theorem le_steps_of_isInfinite {x : Binary64} (h : x.isInfinite = true) :
    2 ^ 32 * stepsInOne ≤ x.steps := by
  have hpow := Nat.pow_le_pow_right (show 0 < 2 by decide) (show 32 ≤ 1024 by decide)
  have hmul := Nat.mul_le_mul_right stepsInOne hpow
  rw [steps_of_isInfinite h]
  exact hmul

/-- The word is the nearest one to the value, a half going up. -/
theorem IsNonneg.toNat_toUInt32_roundHalfAway {x : Binary64} (h : x.IsNonneg) :
    x.roundHalfAway.toUInt32.toNat =
      min (2 ^ 32 - 1) ((x.steps + stepsInOne / 2) / stepsInOne) := by
  rw [toNat_toUInt32]
  by_cases hinfinite : x.isInfinite = true
  · have hfinite : ¬ x.isFinite = true := by
      rw [isFinite, beq_iff_eq.mp hinfinite]
      decide
    have hlarge := le_steps_of_isInfinite hinfinite
    have hwhole : 2 ^ 32 ≤ x.steps / stepsInOne := (Nat.le_div_iff_mul_le stepsInOne_pos).mpr hlarge
    have hhalf : x.steps / stepsInOne ≤ (x.steps + stepsInOne / 2) / stepsInOne :=
      Nat.div_le_div_right (Nat.le_add_right ..)
    rw [roundHalfAway, if_neg hfinite, h.truncate_eq, Nat.min_eq_left (by omega),
      Nat.min_eq_left (by omega)]
  · have hamount := h.isAmount (Bool.eq_false_iff.mpr hinfinite)
    have hrounded : x.roundHalfAway = ofNat ((x.steps + stepsInOne / 2) / stepsInOne) := by
      rw [roundHalfAway, if_pos hamount.isFinite, h.isNegative]
      rfl
    have hnonneg : (ofNat ((x.steps + stepsInOne / 2) / stepsInOne)).IsNonneg :=
      isNonneg_ofSteps ..
    rw [hrounded, hnonneg.truncate_eq, min_steps_ofNat]

theorem two_mul_half : 2 * (stepsInOne / 2) = stepsInOne := by
  have heven := Nat.pow_dvd_pow 2 (show 1 ≤ 1074 by decide)
  rw [Nat.pow_one] at heven
  exact Nat.mul_div_cancel' (by simpa only [stepsInOne] using heven)

theorem abs_nearest_sub_le (steps : ℕ) :
    |(((steps + stepsInOne / 2) / stepsInOne : ℕ) : ℚ) - steps / stepsInOne| ≤ 1 / 2 := by
  have hone := cast_stepsInOne_pos
  have hhalf : (2 : ℚ) * (stepsInOne / 2 : ℕ) = stepsInOne := by
    exact_mod_cast two_mul_half
  have hle := Nat.div_mul_le_self (steps + stepsInOne / 2) stepsInOne
  have hlt := Nat.lt_div_mul_add (a := steps + stepsInOne / 2) stepsInOne_pos
  generalize (steps + stepsInOne / 2) / stepsInOne = whole at hle hlt ⊢
  have hle : (whole : ℚ) * stepsInOne ≤ steps + (stepsInOne / 2 : ℕ) := by
    exact_mod_cast hle
  have hlt : (steps : ℚ) + (stepsInOne / 2 : ℕ) < whole * stepsInOne + stepsInOne := by
    exact_mod_cast hlt
  rw [abs_le]
  constructor
  · rw [neg_le_sub_iff_le_add, div_le_iff₀ hone]
    linarith
  · rw [sub_le_iff_le_add, ← sub_le_iff_le_add', le_div_iff₀ hone]
    linarith

/-- What is negative stays negative, and is no word. -/
theorem toUInt32_roundHalfAway_of_isNegative {x : Binary64} (h : x.isNegative = true) :
    x.roundHalfAway.toUInt32 = 0 := by
  have hnegative : x.roundHalfAway.isNegative = true := by
    rw [roundHalfAway]
    split
    · rw [h, isNegative_ofSteps]
    · exact h
  rw [toUInt32, truncate, hnegative, Bool.or_true, if_pos rfl]
  rfl

end QuoteFeed.Binary64
