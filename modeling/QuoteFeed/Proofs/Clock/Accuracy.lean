import QuoteFeed.Proofs.Binary64.Error
import QuoteFeed.Proofs.Clock.Order

/-! # The accuracy of clocks

A conversion gives the whole part of the exact result up to a few roundings: two from cycles to
nanoseconds, and three back, where the inverse of the ratio was rounded before. The inverse may also
be infinite or have lost digits. It then belongs to a ratio so far from one that no exact result is
between zero and the end of the range. -/

namespace QuoteFeed

namespace Clock

open Binary64

/-- The nanoseconds of a number of cycles, without rounding. -/
def exactNanos (c : Clock) (cycles : UInt64) : ℚ :=
  cycles.toNat * c.nanosPerCycle.value

/-- The cycles of a number of nanoseconds, without rounding. -/
def exactCycles (c : Clock) (nanos : UInt64) : ℚ :=
  nanos.toNat / c.nanosPerCycle.value

theorem value_nanosPerCycle_pos (c : Clock) : 0 < c.nanosPerCycle.value :=
  (isRatio_iff.mp c.isRatio_nanosPerCycle).2

theorem exactNanos_nonneg (c : Clock) (cycles : UInt64) : 0 ≤ c.exactNanos cycles :=
  mul_nonneg (Nat.cast_nonneg _) c.value_nanosPerCycle_pos.le

theorem exactCycles_nonneg (c : Clock) (nanos : UInt64) : 0 ≤ c.exactCycles nanos :=
  div_nonneg (Nat.cast_nonneg _) c.value_nanosPerCycle_pos.le

/-! ## Counting the roundings -/

theorem toNanos_truncates (c : Clock) (cycles : UInt64) :
    Truncates 2 (c.exactNanos cycles) (c.toNanos cycles).toNat := by
  have hratio : Within 0 c.nanosPerCycle.value (c.nanosPerCycle.steps / stepsInOne) := by
    rw [← c.isAmount_nanosPerCycle.isNonneg.value_eq]
    exact .refl _
  rw [exactNanos, toNat_toNanos]
  exact wholeProduct_ofNat_truncates (toNat_lt_128 cycles) c.value_nanosPerCycle_pos.le hratio

theorem steps_cyclesPerNano (c : Clock) : c.cyclesPerNano.steps =
    stepsOf (nearest (stepsInOne * stepsInOne) c.nanosPerCycle.steps) := by
  rw [c.cyclesPerNano_eq, steps_ofSteps]

theorem exactCycles_eq (c : Clock) (nanos : UInt64) :
    c.exactCycles nanos = nanos.toNat *
      ((stepsInOne * stepsInOne : ℕ) / c.nanosPerCycle.steps / stepsInOne) := by
  have hone := cast_stepsInOne_pos.ne'
  rw [exactCycles, c.isAmount_nanosPerCycle.isNonneg.value_eq, Nat.cast_mul, div_div_eq_mul_div,
    mul_div_assoc, div_right_comm, mul_div_cancel_right₀ _ hone]

theorem exactCycles_eq_div (c : Clock) (nanos : UInt64) :
    c.exactCycles nanos = (nanos.toNat * (stepsInOne * stepsInOne) : ℕ) /
      c.nanosPerCycle.steps / stepsInOne := by
  rw [exactCycles_eq, Nat.cast_mul nanos.toNat, mul_div_assoc, mul_div_assoc]

/-- The inverse of a very large ratio has lost digits, but no time takes a whole cycle. -/
theorem toCycles_truncates_of_le (c : Clock) (nanos : UInt64)
    (h : stepsInOne * stepsInOne ≤ c.nanosPerCycle.steps * 2 ^ 52) :
    Truncates 3 (c.exactCycles nanos) (c.toCycles nanos).toNat := by
  have hinverse : c.cyclesPerNano.steps ≤ 2 ^ 52 := by
    rw [steps_cyclesPerNano]
    exact stepsOf_nearest_le c.steps_nanosPerCycle_pos (by decide) h
  have hproduct : (ofNat nanos.toNat).steps * c.cyclesPerNano.steps ≤ stepsInOne * 2 ^ 127 := by
    calc (ofNat nanos.toNat).steps * c.cyclesPerNano.steps ≤ 2 ^ 64 * stepsInOne * 2 ^ 52 :=
          Nat.mul_le_mul (steps_ofNat_le (by decide) nanos.toNat_lt.le) hinverse
      _ = stepsInOne * (2 ^ 64 * 2 ^ 52) := by rw [Nat.mul_comm (2 ^ 64), Nat.mul_assoc]
      _ ≤ stepsInOne * 2 ^ 127 := Nat.mul_le_mul_left _ (by decide)
  have hexact : nanos.toNat * (stepsInOne * stepsInOne) ≤ c.nanosPerCycle.steps * 2 ^ 127 := by
    calc nanos.toNat * (stepsInOne * stepsInOne) ≤ 2 ^ 64 * (c.nanosPerCycle.steps * 2 ^ 52) :=
          Nat.mul_le_mul nanos.toNat_lt.le h
      _ = c.nanosPerCycle.steps * (2 ^ 64 * 2 ^ 52) := Nat.mul_left_comm ..
      _ ≤ c.nanosPerCycle.steps * 2 ^ 127 := Nat.mul_le_mul_left _ (by decide)
  have hlt : c.exactCycles nanos < 1 := by
    have hone := two_pow_128_le_stepsInOne
    rw [exactCycles_eq_div]
    exact div_div_lt_one c.steps_nanosPerCycle_pos (by omega) hexact
  rw [toNat_toCycles, wholeProduct_eq_zero hproduct]
  exact truncates_zero 3 (c.exactCycles_nonneg nanos) hlt

/-- The inverse of a very small ratio is infinite, and any time at all takes more cycles than can be
counted. -/
theorem toCycles_truncates_of_ge (c : Clock) (nanos : UInt64)
    (h : c.nanosPerCycle.steps * 2 ^ 2098 ≤ stepsInOne * stepsInOne) :
    Truncates 3 (c.exactCycles nanos) (c.toCycles nanos).toNat := by
  have hratio := c.steps_nanosPerCycle_pos
  have hinverse : c.cyclesPerNano.steps = 2 ^ 2098 := by
    rw [steps_cyclesPerNano, nearest_of_le hratio h, stepsOf_infiniteMagnitude,
      two_pow_1024_mul_stepsInOne]
  rw [toNat_toCycles]
  by_cases hzero : nanos.toNat = 0
  · have hexact : c.exactCycles nanos = 0 := by
      rw [exactCycles, hzero, Nat.cast_zero, zero_div]
    rw [hzero, wholeProduct_ofNat_zero, hexact]
    exact truncates_zero 3 le_rfl zero_lt_one
  · have hpos := Nat.pos_of_ne_zero hzero
    have hrange : stepsInOne * 2 ^ 2098 ≤ (ofNat nanos.toNat).steps * c.cyclesPerNano.steps := by
      rw [hinverse]
      exact Nat.mul_le_mul_right _ (stepsInOne_le_steps_ofNat hpos)
    have hmax : (2 ^ 64 : ℕ) ≤ c.exactCycles nanos := by
      rw [exactCycles_eq_div]
      apply le_div_div hratio stepsInOne_pos
      calc c.nanosPerCycle.steps * (2 ^ 64 * stepsInOne) ≤ c.nanosPerCycle.steps * 2 ^ 2098 :=
            Nat.mul_le_mul_left _ two_pow_64_mul_stepsInOne_le
        _ ≤ stepsInOne * stepsInOne := h
        _ ≤ nanos.toNat * (stepsInOne * stepsInOne) := Nat.le_mul_of_pos_left _ hpos
    rw [wholeProduct_of_le hrange]
    exact truncates_max 3 hmax

theorem toCycles_truncates (c : Clock) (nanos : UInt64) :
    Truncates 3 (c.exactCycles nanos) (c.toCycles nanos).toNat := by
  by_cases hsmall : stepsInOne * stepsInOne ≤ c.nanosPerCycle.steps * 2 ^ 52
  · exact c.toCycles_truncates_of_le nanos hsmall
  by_cases hlarge : c.nanosPerCycle.steps * 2 ^ 2098 ≤ stepsInOne * stepsInOne
  · exact c.toCycles_truncates_of_ge nanos hlarge
  have hinverse := (within_nearest c.steps_nanosPerCycle_pos (.inr (Nat.le_of_not_le hsmall))
    (Nat.lt_of_not_le hlarge)).div_right cast_stepsInOne_pos
  have hnonneg : (0 : ℚ) ≤ (stepsInOne * stepsInOne : ℕ) / c.nanosPerCycle.steps / stepsInOne :=
    div_nonneg (div_nonneg (Nat.cast_nonneg _) (Nat.cast_nonneg _)) cast_stepsInOne_pos.le
  rw [← steps_cyclesPerNano] at hinverse
  rw [exactCycles_eq, toNat_toCycles]
  exact wholeProduct_ofNat_truncates (toNat_lt_128 nanos) hnonneg hinverse

/-- How far the conversions of a clock are from the exact results. -/
structure AccuracySpec (c : Clock) : Prop where
  toNanos : ∀ cycles, c.exactNanos cycles < 2 ^ 64 →
    |((c.toNanos cycles).toNat : ℚ) - c.exactNanos cycles| < 1 + c.exactNanos cycles / 2 ^ 50
  toCycles : ∀ nanos, c.exactCycles nanos < 2 ^ 64 →
    |((c.toCycles nanos).toNat : ℚ) - c.exactCycles nanos| < 1 + c.exactCycles nanos / 2 ^ 50
  toNanos_max : ∀ cycles, 2 ^ 64 * (1 + 1 / 2 ^ 50) ≤ c.exactNanos cycles →
    c.toNanos cycles = 0xFFFFFFFFFFFFFFFF
  toCycles_max : ∀ nanos, 2 ^ 64 * (1 + 1 / 2 ^ 50) ≤ c.exactCycles nanos →
    c.toCycles nanos = 0xFFFFFFFFFFFFFFFF
  roundTrip : ∀ cycles : UInt64, c.exactNanos cycles < 2 ^ 64 →
    cycles.toNat * (1 - 1 / 2 ^ 50) - 1 / c.nanosPerCycle.value - 1 ≤
      (c.toCycles (c.toNanos cycles)).toNat ∧
    (c.toCycles (c.toNanos cycles)).toNat ≤ (cycles.toNat * (1 + 1 / 2 ^ 50) : ℚ)

theorem accuracySpec (c : Clock) : c.AccuracySpec := by
  constructor
  case toNanos =>
    intro cycles hlt
    exact (c.toNanos_truncates cycles).abs_sub_lt (by decide) (c.exactNanos_nonneg cycles) hlt
  case toCycles =>
    intro nanos hlt
    exact (c.toCycles_truncates nanos).abs_sub_lt (by decide) (c.exactCycles_nonneg nanos) hlt
  case toNanos_max =>
    intro cycles hle
    exact UInt64.toNat_inj.mp ((c.toNanos_truncates cycles).eq_max_of_le (by decide) hle)
  case toCycles_max =>
    intro nanos hle
    exact UInt64.toNat_inj.mp ((c.toCycles_truncates nanos).eq_max_of_le (by decide) hle)
  case roundTrip =>
    intro cycles hlt
    have hmax : (cycles.toNat : ℚ) ≤ 2 ^ 64 - 1 := by
      have hword := cycles.toNat_lt
      rw [le_sub_iff_add_le]
      exact_mod_cast hword
    exact Truncates.roundTrip c.value_nanosPerCycle_pos (Nat.cast_nonneg _) hmax hlt
      (c.toNanos_truncates cycles) (c.toCycles_truncates _) (by decide)

/-- Every clock that is made converts accurately, also where the inverse of its ratio is infinite or
has lost digits. -/
theorem ofRatio_accuracySpec {ratio : Binary64} {baseline : UInt64} {c : Clock}
    (h : ofRatio ratio baseline = .ok c) : c.nanosPerCycle = ratio ∧ c.AccuracySpec :=
  ⟨(ofRatio_eq_ok h).1, c.accuracySpec⟩

/-- At a third of a nanosecond for a cycle, ten cycles come back as nine. -/
theorem ofRatio_accuracySpec_third :
    ∃ c, ofRatio ⟨0x3FD5555555555555⟩ 7 = .ok c ∧ c.toNanos 10 = 3 ∧ c.toCycles 3 = 9 ∧
      c.nanosPerCycle = ⟨0x3FD5555555555555⟩ ∧ c.AccuracySpec := by
  have hmade : ofRatio ⟨0x3FD5555555555555⟩ 7 = .ok ⟨⟨0x3FD5555555555555⟩, 7, by decide⟩ := rfl
  exact ⟨⟨⟨0x3FD5555555555555⟩, 7, by decide⟩, hmade, by decide +kernel, by decide +kernel,
    ofRatio_accuracySpec hmade⟩

end Clock

end QuoteFeed
