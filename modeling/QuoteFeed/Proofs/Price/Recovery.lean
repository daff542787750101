import QuoteFeed.Proofs.Binary64.Whole
import QuoteFeed.Wire.View

/-! # Raw prices are recovered

The multiplier is not quite `0.0001`, and the products with it and with `10000` are rounded. All of
it moves the value by less than a part of `2 ^ 50`, so that it stays within a half of the raw price,
which has only 32 binary digits. -/

namespace QuoteFeed.Price

open Binary64

/-! ## The constants -/

/-- The last binary digit of the multiplier, in steps. -/
def grain : Nat := 2 ^ 1008

theorem two_pow_mul_grain (exponent : Nat) : 2 ^ exponent * grain = 2 ^ (exponent + 1008) := by
  rw [Nat.pow_add, grain]

theorem stepsInOne_eq : stepsInOne = 2 ^ 66 * grain := by
  simp only [two_pow_mul_grain, stepsInOne, Nat.reduceAdd]

theorem grain_pos : 0 < grain := by
  rw [grain]
  exact Nat.two_pow_pos 1008

theorem steps_multiplier : multiplier.steps = 7378697629483821 * grain := by
  have hmagnitude : multiplier.magnitude = 1008 * 2 ^ 52 + 7378697629483821 := by decide
  rw [steps, hmagnitude, stepsOf_add (by decide) (.inr (by decide)), grain]

theorem steps_rawPerUnit : rawPerUnit.steps = 10000 * stepsInOne := by
  have hmagnitude : rawPerUnit.magnitude = 1035 * 2 ^ 52 + 10000 * 2 ^ 39 := by decide
  have hscale : 10000 * 2 ^ 39 * 2 ^ 1035 = 10000 * stepsInOne := by
    simp only [Nat.mul_assoc, ← Nat.pow_add, stepsInOne, Nat.reduceAdd]
  rw [steps, hmagnitude, stepsOf_add (by decide) (.inr (by decide)), hscale]

theorem isAmount_multiplier : multiplier.IsAmount :=
  ⟨by decide, by decide⟩

theorem isAmount_rawPerUnit : rawPerUnit.IsAmount :=
  ⟨by decide, by decide⟩

theorem lt_range {n : Nat} (h : n < 2 ^ 128 * grain) : n < 2 ^ 2097 := by
  have hpow := Nat.pow_le_pow_right (show 0 < 2 by decide) (show 128 + 1008 ≤ 2097 by decide)
  rw [two_pow_mul_grain] at h
  exact Nat.lt_of_lt_of_le h hpow

/-! ## The two products -/

theorem ofRaw_approximates (raw : UInt32) :
    (ofRaw raw).IsAmount ∧
      Approximates (ofRaw raw).steps (7378697629483821 * (raw.toNat * grain)) 1 := by
  have hraw := raw.toNat_lt
  have hwhole : raw.toNat < 2 ^ 53 := by omega
  apply (isAmount_ofNat (by omega)).mul_approximates isAmount_multiplier
  · rw [steps_ofNat hwhole, steps_multiplier, Nat.mul_comm raw.toNat, Nat.mul_assoc,
      Nat.mul_left_comm raw.toNat]
  · apply lt_range
    have hle := Nat.mul_le_mul_right grain (Nat.le_of_lt hraw)
    have hgrain := grain_pos
    omega

theorem scaled_approximates {price : Binary64} (hprice : price.IsAmount)
    (hrange : price.steps < 2 ^ 100 * grain) :
    (price * rawPerUnit).IsAmount ∧
      Approximates (price * rawPerUnit).steps (10000 * price.steps) 1 := by
  apply hprice.mul_approximates isAmount_rawPerUnit
  · rw [steps_rawPerUnit, Nat.mul_left_comm, Nat.mul_comm stepsInOne, Nat.mul_assoc]
  · apply lt_range
    omega

/-- Every raw price is recovered from the price it became. -/
theorem toRaw_ofRaw (raw : UInt32) : toRaw (ofRaw raw) = raw := by
  have hraw := raw.toNat_lt
  have hgrain := grain_pos
  obtain ⟨hprice, hle, hge⟩ := ofRaw_approximates raw
  have hsmall := Nat.mul_le_mul_right grain (show raw.toNat ≤ 2 ^ 32 - 1 by omega)
  obtain ⟨hscaled, hle', hge'⟩ := scaled_approximates hprice (by omega)
  -- A raw price of one is `2 ^ 66` grains, and half of it `2 ^ 65`. The errors of both products and
  -- of the multiplier together come to less than `2 ^ 48` grains.
  have hword : ((ofRaw raw * rawPerUnit).steps + stepsInOne / 2) / stepsInOne = raw.toNat := by
    apply Nat.div_eq_of_lt_le
    · rw [stepsInOne_eq, Nat.mul_left_comm]
      omega
    · rw [Nat.add_mul, Nat.one_mul, stepsInOne_eq, Nat.mul_left_comm]
      omega
  apply UInt32.toNat_inj.mp
  rw [toRaw, hscaled.isNonneg.toNat_toUInt32_roundHalfAway, hword]
  omega

end QuoteFeed.Price
