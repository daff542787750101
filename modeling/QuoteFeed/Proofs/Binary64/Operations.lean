import QuoteFeed.Proofs.Binary64.Error

/-! # Operations on amounts

Sums, products and quotients of values that are finite and not negative are rounded once, and stay
finite as long as the exact result is far from the end of the range. -/

namespace QuoteFeed.Binary64

section quotient

variable {m n : ℕ} {x y a b q : ℚ}

theorem Within.div_bounds (hx : 0 ≤ x) (hy : 0 < y) (ha : Within m x a) (hb : Within n y b) :
    x / y * ((1 - roundoff) ^ m / (1 + roundoff) ^ n) ≤ a / b ∧
      a / b ≤ x / y * ((1 + roundoff) ^ m / (1 - roundoff) ^ n) := by
  have hrest : 0 < y * (1 - roundoff) ^ n := mul_pos hy (pow_one_sub_roundoff_pos n)
  have hmore : 0 ≤ (1 + roundoff) ^ m := zero_le_one.trans (one_le_pow_one_add_roundoff m)
  rw [div_mul_div_comm, div_mul_div_comm]
  exact ⟨div_le_div₀ (ha.nonneg hx) ha.ge (hrest.trans_le hb.ge) hb.le,
    div_le_div₀ (mul_nonneg hx hmore) ha.le hrest hb.ge⟩

/-- Of a quotient, both numbers and the result are rounded. -/
theorem Within.abs_div_sub_le (hx : 0 ≤ x) (hy : 0 < y) (ha : Within 1 x a) (hb : Within 1 y b)
    (hq : Within 1 (a / b) q) : |q - x / y| ≤ x / y / 2 ^ 51 := by
  obtain ⟨hgeQuotient, hleQuotient⟩ := Within.div_bounds hx hy ha hb
  have hquotient : 0 ≤ x / y := div_nonneg hx hy.le
  have hmore : 0 ≤ (1 + roundoff) ^ 1 := zero_le_one.trans (one_le_pow_one_add_roundoff 1)
  have hle : q ≤ x / y * (1 + 1 / 2 ^ 51) := by
    calc q ≤ a / b * (1 + roundoff) ^ 1 := hq.le
      _ ≤ x / y * ((1 + roundoff) ^ 1 / (1 - roundoff) ^ 1) * (1 + roundoff) ^ 1 :=
          mul_le_mul_of_nonneg_right hleQuotient hmore
      _ ≤ x / y * (1 + 1 / 2 ^ 51) := by
          rw [mul_assoc]
          exact mul_le_mul_of_nonneg_left (by norm_num [roundoff]) hquotient
  have hge : x / y * (1 - 1 / 2 ^ 51) ≤ q := by
    calc x / y * (1 - 1 / 2 ^ 51)
        ≤ x / y * ((1 - roundoff) ^ 1 / (1 + roundoff) ^ 1) * (1 - roundoff) ^ 1 := by
          rw [mul_assoc]
          exact mul_le_mul_of_nonneg_left (by norm_num [roundoff]) hquotient
      _ ≤ a / b * (1 - roundoff) ^ 1 :=
          mul_le_mul_of_nonneg_right hgeQuotient (pow_one_sub_roundoff_pos 1).le
      _ ≤ q := hq.ge
  rw [abs_le]
  constructor <;> linarith

end quotient

theorem two_pow_128_mul_stepsInOne_le : 2 ^ 128 * stepsInOne ≤ 2 ^ 1202 := by
  simp only [two_pow_mul_stepsInOne, Nat.reduceAdd, Nat.le_refl]

/-- As far as whole numbers of 128 binary digits go, no result is near the end of the range. -/
theorem lt_two_pow_2097 {n : ℕ} (h : n ≤ 2 ^ 128 * stepsInOne) : n < 2 ^ 2097 := by
  have hpow := Nat.pow_lt_pow_right (show 1 < 2 by decide) (show 1202 < 2097 by decide)
  exact (h.trans two_pow_128_mul_stepsInOne_le).trans_lt hpow

namespace IsAmount

variable {x y : Binary64}

theorem value_eq (hx : x.IsAmount) : x.value = x.steps / stepsInOne :=
  hx.isNonneg.value_eq

theorem steps_le_iff (hx : x.IsAmount) (k : ℕ) : x.steps ≤ k * stepsInOne ↔ x.value ≤ k := by
  rw [hx.value_eq, div_le_iff₀ cast_stepsInOne_pos]
  exact_mod_cast Iff.rfl

theorem within_value {n : ℕ} {exact : ℚ} (hx : x.IsAmount) (h : Within n exact x.steps) :
    Within n (exact / stepsInOne) x.value := by
  rw [hx.value_eq]
  exact h.div_right cast_stepsInOne_pos

/-! ## Products and sums -/

/-- What is a whole number of steps is rounded once, however small it is. -/
theorem ofSteps_within {den n : ℕ} (hden : 0 < den) (hrange : n ≤ 2 ^ 128 * stepsInOne) :
    (ofSteps false (den * n) den).IsAmount ∧
      Within 1 (n / stepsInOne) (ofSteps false (den * n) den).value := by
  have hlt := lt_two_pow_2097 hrange
  have hpow := Nat.pow_le_pow_right (show 0 < 2 by decide) (show 2097 ≤ 2098 by decide)
  have hamount := isAmount_ofSteps hden (Nat.mul_lt_mul_of_pos_left hlt hden)
  have happroximates := nearest_approximates_whole hden (hlt.trans_le hpow)
  rw [← steps_ofSteps false] at happroximates
  refine ⟨hamount, hamount.within_value ?_⟩
  simpa using happroximates.within Nat.one_pos

theorem mul_within {n : ℕ} (hx : x.IsAmount) (hy : y.IsAmount)
    (hn : x.steps * y.steps = stepsInOne * n) (hrange : n ≤ 2 ^ 128 * stepsInOne) :
    (x * y).IsAmount ∧ Within 1 (x.value * y.value) (x * y).value := by
  have hone := cast_stepsInOne_pos.ne'
  have hexact : x.value * y.value = n / stepsInOne := by
    have hproduct : (x.steps * y.steps : ℚ) = stepsInOne * n := by exact_mod_cast hn
    rw [hx.value_eq, hy.value_eq, div_mul_div_comm, hproduct, mul_div_mul_left _ _ hone]
  rw [hexact, hx.mul_eq hy, hn]
  exact ofSteps_within stepsInOne_pos hrange

theorem add_eq (hx : x.IsAmount) (hy : y.IsAmount) :
    x + y = ofSteps false (x.steps + y.steps) 1 := by
  change add x y = _
  have htotal : x.signedSteps + y.signedSteps = (x.steps + y.steps : ℕ) := by
    simp [signedSteps, hx.isNegative, hy.isNegative]
  have hsign : ¬ ((x.steps + y.steps : ℕ) : ℤ) < 0 := Int.not_lt.mpr (Int.natCast_nonneg _)
  rw [add, htotal]
  simp only [hx.isNaN, hy.isNaN, hx.isInfinite, hy.isInfinite, hx.isNegative, hsign,
    Bool.or_false, Bool.false_and, Bool.false_eq_true, if_false, decide_false, ite_self,
    Int.natAbs_natCast]

theorem add_within (hx : x.IsAmount) (hy : y.IsAmount)
    (hrange : x.steps + y.steps ≤ 2 ^ 128 * stepsInOne) :
    (x + y).IsAmount ∧ Within 1 (x.value + y.value) (x + y).value := by
  have hsum := ofSteps_within Nat.one_pos hrange
  rw [Nat.one_mul, ← hx.add_eq hy, Nat.cast_add, add_div, ← hx.value_eq, ← hy.value_eq] at hsum
  exact hsum

/-! ## Quotients -/

theorem div_within (hx : x.IsAmount) (hy : y.IsAmount) (hpos : 0 < y.steps)
    (hnormal : x.steps = 0 ∨ y.steps * 2 ^ 52 ≤ x.steps * stepsInOne)
    (hrange : x.steps ≤ 2 ^ 128 * y.steps) :
    (x / y).IsAmount ∧ Within 1 (x.value / y.value) (x / y).value := by
  have hone := cast_stepsInOne_pos.ne'
  have hexact : x.value / y.value = (x.steps * stepsInOne : ℕ) / y.steps / stepsInOne := by
    rw [hx.value_eq, hy.value_eq, div_div_div_cancel_right₀ hone, Nat.cast_mul, div_right_comm,
      mul_div_cancel_right₀ _ hone]
  have hle : x.steps * stepsInOne ≤ y.steps * (2 ^ 128 * stepsInOne) := by
    calc x.steps * stepsInOne ≤ 2 ^ 128 * y.steps * stepsInOne := Nat.mul_le_mul_right _ hrange
      _ = y.steps * (2 ^ 128 * stepsInOne) := by rw [Nat.mul_comm (2 ^ 128), Nat.mul_assoc]
  have hlt := hle.trans_lt (Nat.mul_lt_mul_of_pos_left (lt_two_pow_2097 le_rfl) hpos)
  have hpow := Nat.pow_le_pow_right (show 0 < 2 by decide) (show 2097 ≤ 2098 by decide)
  have hwithin := within_nearest hpos (hnormal.imp_left (by simp +contextual))
    (hlt.trans_le (Nat.mul_le_mul_left _ hpow))
  have hamount := isAmount_ofSteps hpos hlt
  rw [← steps_ofSteps false] at hwithin
  rw [hexact, hx.div_eq hy hpos]
  exact ⟨hamount, hamount.within_value hwithin⟩

end IsAmount

/-! ## Whole numbers -/

theorem stepsOf_nearest_whole {den k : ℕ} (hden : 0 < den) (hk : k < 2 ^ 53) :
    stepsOf (nearest (den * (k * stepsInOne)) den) = k * stepsInOne := by
  have hexact := stepsOf_nearest_exact hden hk (show 1074 ≤ 2045 by decide)
  rw [stepsInOne, hexact]

/-- Whole numbers that are kept to the last digit are multiplied exactly. -/
theorem ofNat_mul_ofNat {m n : ℕ} (hm : m < 2 ^ 53) (hn : n < 2 ^ 53) (h : m * n < 2 ^ 53) :
    ofNat m * ofNat n = ofNat (m * n) := by
  have hproduct : m * stepsInOne * (n * stepsInOne) = stepsInOne * (m * n * stepsInOne) := by
    rw [Nat.mul_comm m, Nat.mul_assoc, Nat.mul_assoc]
  have hnearest : nearest (stepsInOne * (m * n * stepsInOne)) stepsInOne =
      nearest (1 * (m * n * stepsInOne)) 1 :=
    stepsOf_strictMono.injective ((stepsOf_nearest_whole stepsInOne_pos h).trans
      (stepsOf_nearest_whole Nat.one_pos h).symm)
  rw [(isAmount_ofNat (by omega)).mul_eq (isAmount_ofNat (by omega)), steps_ofNat hm,
    steps_ofNat hn, hproduct, ofSteps, hnearest, Nat.one_mul]
  rfl

theorem value_ofNat {n : ℕ} (h : n < 2 ^ 53) : (ofNat n).value = n := by
  rw [(isAmount_ofNat (by omega)).value_eq, steps_ofNat h, Nat.cast_mul,
    mul_div_cancel_right₀ _ cast_stepsInOne_pos.ne']

/-- A number that is not above one may be multiplied by any whole number that is kept to the last
digit. -/
theorem ofNat_mul_within {n : ℕ} {x : Binary64} (hn : n < 2 ^ 53) (hx : x.IsAmount)
    (hone : x.value ≤ 1) : (ofNat n * x).IsAmount ∧ Within 1 (n * x.value) (ofNat n * x).value := by
  have hsteps : x.steps ≤ 1 * stepsInOne := (hx.steps_le_iff 1).mpr (by simpa using hone)
  have hproduct : (ofNat n).steps * x.steps = stepsInOne * (n * x.steps) := by
    rw [steps_ofNat hn, Nat.mul_assoc, Nat.mul_left_comm]
  have hrange : n * x.steps ≤ 2 ^ 128 * stepsInOne :=
    Nat.mul_le_mul (by omega) (hsteps.trans_eq (Nat.one_mul _))
  have hwithin := (isAmount_ofNat (by omega)).mul_within hx hproduct hrange
  rwa [value_ofNat hn] at hwithin

/-- Whole numbers are not too small, and their quotients do not become so. -/
theorem ofNat_div_within {m n : ℕ} (hm : m < 2 ^ 128) (hpos : 0 < n) (hn : n < 2 ^ 64) :
    (ofNat m / ofNat n).IsAmount ∧
      Within 1 ((ofNat m).value / (ofNat n).value) (ofNat m / ofNat n).value := by
  have hone := stepsInOne_le_steps_ofNat hpos
  have hlarge := two_pow_128_le_stepsInOne
  apply (isAmount_ofNat hm).div_within (isAmount_ofNat (by omega)) (stepsInOne_pos.trans_le hone)
  · by_cases hzero : m = 0
    · exact .inl (by rw [hzero, steps_ofNat (by decide), Nat.zero_mul])
    · right
      calc (ofNat n).steps * 2 ^ 52 ≤ 2 ^ 64 * stepsInOne * 2 ^ 52 :=
            Nat.mul_le_mul_right _ (steps_ofNat_le (by decide) hn.le)
        _ = 2 ^ 116 * stepsInOne := by omega
        _ ≤ stepsInOne * stepsInOne := Nat.mul_le_mul_right _ (by omega)
        _ ≤ (ofNat m).steps * stepsInOne :=
            Nat.mul_le_mul_right _ (stepsInOne_le_steps_ofNat (Nat.pos_of_ne_zero hzero))
  · exact (steps_ofNat_le le_rfl hm.le).trans (Nat.mul_le_mul_left _ hone)

theorem value_ofNat_within {n : ℕ} (h : n < 2 ^ 128) : Within 1 n (ofNat n).value := by
  rw [(isAmount_ofNat h).value_eq]
  exact within_ofNat h

theorem abs_ofNat_div_sub_le {m n : ℕ} (hm : m < 2 ^ 128) (hpos : 0 < n) (hn : n < 2 ^ 64) :
    |(ofNat m / ofNat n).value - m / n| ≤ m / n / 2 ^ 51 := by
  have hcount := value_ofNat_within (show n < 2 ^ 128 by omega)
  have hquotient := (ofNat_div_within hm hpos hn).2
  exact Within.abs_div_sub_le (Nat.cast_nonneg _) (Nat.cast_pos.mpr hpos)
    (value_ofNat_within hm) hcount hquotient

/-! ## Quotients keep order -/

namespace IsAmount

variable {x y x' y' : Binary64}

theorem value_div_eq (hx : x.IsAmount) (hy : y.IsAmount) (hpos : 0 < y.steps) :
    (x / y).value = stepsOf (nearest (x.steps * stepsInOne) y.steps) / stepsInOne := by
  rw [hx.div_eq hy hpos, (isNonneg_ofSteps _ _).value_eq, steps_ofSteps]

/-- A larger quotient is never rounded to a smaller number. -/
theorem value_div_mono (hx : x.IsAmount) (hy : y.IsAmount) (hpos : 0 < y.steps)
    (hx' : x'.IsAmount) (hy' : y'.IsAmount) (hpos' : 0 < y'.steps)
    (h : x.steps * y'.steps ≤ x'.steps * y.steps) : (x / y).value ≤ (x' / y').value := by
  have hscaled : x.steps * stepsInOne * y'.steps ≤ x'.steps * stepsInOne * y.steps := by
    rw [Nat.mul_right_comm, Nat.mul_right_comm x'.steps]
    exact Nat.mul_le_mul_right stepsInOne h
  have hsteps := stepsOf_strictMono.monotone (nearest_mono hpos hpos' hscaled)
  rw [hx.value_div_eq hy hpos, hx'.value_div_eq hy' hpos',
    div_le_div_iff_of_pos_right cast_stepsInOne_pos]
  exact_mod_cast hsteps

end IsAmount

theorem value_ofNat_div_one {k : ℕ} (hk : k < 2 ^ 53) : (ofNat k / ofNat 1).value = k := by
  have hpos := steps_ofNat_one.symm ▸ stepsInOne_pos
  rw [(isAmount_ofNat (by omega)).value_div_eq (isAmount_ofNat (by decide)) hpos,
    steps_ofNat_one, steps_ofNat hk, Nat.mul_comm _ stepsInOne,
    stepsOf_nearest_whole stepsInOne_pos hk, Nat.cast_mul,
    mul_div_cancel_right₀ _ cast_stepsInOne_pos.ne']

namespace IsAmount

variable {x y : Binary64} {k : ℕ}

/-- A quotient that is at least a whole number stays so if the number is kept to the last digit. -/
theorem le_value_div (hx : x.IsAmount) (hy : y.IsAmount) (hpos : 0 < y.steps) (hk : k < 2 ^ 53)
    (h : k * y.steps ≤ x.steps) : (k : ℚ) ≤ (x / y).value := by
  rw [← value_ofNat_div_one hk]
  apply (isAmount_ofNat (by omega)).value_div_mono (isAmount_ofNat (by decide))
    (steps_ofNat_one.symm ▸ stepsInOne_pos) hx hy hpos
  rw [steps_ofNat_one, steps_ofNat hk, Nat.mul_right_comm]
  exact Nat.mul_le_mul_right stepsInOne h

theorem value_div_le (hx : x.IsAmount) (hy : y.IsAmount) (hpos : 0 < y.steps) (hk : k < 2 ^ 53)
    (h : x.steps ≤ k * y.steps) : (x / y).value ≤ k := by
  rw [← value_ofNat_div_one hk]
  apply hx.value_div_mono hy hpos (isAmount_ofNat (by omega)) (isAmount_ofNat (by decide))
    (steps_ofNat_one.symm ▸ stepsInOne_pos)
  rw [steps_ofNat_one, steps_ofNat hk, Nat.mul_right_comm]
  exact Nat.mul_le_mul_right stepsInOne h

end IsAmount

end QuoteFeed.Binary64
