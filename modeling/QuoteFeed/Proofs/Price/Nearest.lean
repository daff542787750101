import QuoteFeed.Proofs.Binary64.Whole
import QuoteFeed.Proofs.Price.Accuracy

/-! # Every number has a raw price

A number becomes the nearest raw price up to one rounding of the product, which may carry it across
a half. What is below all prices becomes the least word and what is above them the greatest, and
no order is turned round anywhere. -/

namespace QuoteFeed.Price

open Binary64

/-- The number nearest to `429496.7295`, which is the price of the largest word. -/
def greatest : Binary64 := ⟨0x411A36E2EB020C4A⟩

/-! ## Words as functions of steps -/

/-- The nearest word to the scaled value of so many steps. -/
def nearestWord (steps : ℕ) : ℕ :=
  min (2 ^ 32 - 1)
    ((stepsOf (nearest (rawPerUnit.steps * steps) stepsInOne) + stepsInOne / 2) / stepsInOne)

theorem nearestWord_mono {steps steps' : ℕ} (h : steps ≤ steps') :
    nearestWord steps ≤ nearestWord steps' := by
  have hproduct := Nat.mul_le_mul_right stepsInOne (Nat.mul_le_mul_left rawPerUnit.steps h)
  have hnearest := nearest_mono stepsInOne_pos stepsInOne_pos hproduct
  have hsteps := Nat.add_le_add_right (stepsOf_strictMono.monotone hnearest) (stepsInOne / 2)
  exact min_le_min_left _ (Nat.div_le_div_right hsteps)

theorem toNat_toRaw {price : Binary64} (h : price.IsNonneg) :
    (toRaw price).toNat = nearestWord price.steps := by
  have hone : stepsInOne ≤ rawPerUnit.steps := by
    rw [steps_rawPerUnit]
    exact Nat.le_mul_of_pos_left _ (by decide)
  have hproduct := isAmount_rawPerUnit.mul_nonneg_eq hone h
  rw [Binary64.mul_comm] at hproduct
  have hnonneg : (price * rawPerUnit).IsNonneg := by
    rw [hproduct]
    exact isNonneg_ofSteps ..
  rw [toRaw, hnonneg.toNat_toUInt32_roundHalfAway, hproduct, steps_ofSteps, nearestWord]

theorem toRaw_of_isNaN {price : Binary64} (h : price.isNaN = true) : toRaw price = 0 := by
  have hproduct : price * rawPerUnit = nan := by
    change mul price rawPerUnit = nan
    simp [mul, h]
  rw [toRaw, hproduct]
  decide

theorem toRaw_of_isNegative {price : Binary64} (h : price.isNegative = true)
    (hNaN : price.isNaN = false) : toRaw price = 0 := by
  have hunit := isAmount_rawPerUnit
  have hnonzero : rawPerUnit.isZero = false := by decide
  have hproduct : (price * rawPerUnit).isNegative = true := by
    change (mul price rawPerUnit).isNegative = true
    by_cases hinfinite : price.isInfinite = true
    · simp [mul, h, hNaN, hunit.isNaN, hunit.isNegative, hinfinite, hnonzero,
        isZero_of_isInfinite hinfinite]
      decide
    · simp [mul, h, hNaN, hunit.isNaN, hunit.isNegative, hunit.isInfinite, hinfinite]
  exact toUInt32_roundHalfAway_of_isNegative hproduct

theorem toRaw_of_value_nonpos {price : Binary64} (hNaN : price.isNaN = false)
    (h : price.value ≤ 0) : toRaw price = 0 := by
  by_cases hnegative : price.isNegative = true
  · exact toRaw_of_isNegative hnegative hNaN
  · have hnonneg : price.IsNonneg := ⟨hNaN, Bool.eq_false_iff.mpr hnegative⟩
    have hmagnitude : price.magnitude = 0 := by
      by_contra hne
      have hpos := (value_pos_iff price).mpr ⟨hnonneg.isNegative, Nat.pos_of_ne_zero hne⟩
      exact absurd h (not_le_of_gt hpos)
    apply UInt32.toNat_inj.mp
    rw [toNat_toRaw hnonneg, steps, hmagnitude, stepsOf_zero, nearestWord, Nat.mul_zero,
      nearest_zero stepsInOne_pos, stepsOf_zero, Nat.zero_add,
      Nat.div_eq_of_lt (Nat.div_lt_self stepsInOne_pos (by decide))]
    rfl

theorem isNonneg_of_value_pos {price : Binary64} (hNaN : price.isNaN = false)
    (h : 0 < price.value) : price.IsNonneg :=
  ⟨hNaN, ((value_pos_iff price).mp h).1⟩

theorem toRaw_mono {price other : Binary64} (h : price.atMost other = true) :
    toRaw price ≤ toRaw other := by
  obtain ⟨hNaN, hNaN', hrank⟩ := atMost_iff.mp h
  have hvalue := rank_le_rank_iff.mp hrank
  rw [UInt32.le_iff_toNat_le]
  by_cases hpos : 0 < price.value
  · have hprice := isNonneg_of_value_pos hNaN hpos
    have hother := isNonneg_of_value_pos hNaN' (hpos.trans_le hvalue)
    have hmagnitude := (hprice.value_le_value_iff hother).mp hvalue
    rw [toNat_toRaw hprice, toNat_toRaw hother]
    exact nearestWord_mono (stepsOf_strictMono.monotone hmagnitude)
  · rw [toRaw_of_value_nonpos hNaN (le_of_not_gt hpos)]
    exact Nat.zero_le _

/-! ## The greatest price -/

theorem magnitude_greatest : greatest.magnitude = 1040 * 2 ^ 52 + 7378697627765834 := by
  decide

/-- There the last of the digits stands for a part of `2 ^ 34`. -/
theorem stepsOf_near_greatest {digits : ℕ} (hlow : 2 ^ 52 ≤ digits) (hhigh : digits ≤ 2 ^ 53) :
    stepsOf (1040 * 2 ^ 52 + digits) = digits * (2 ^ 32 * grain) := by
  have hscale : 2 ^ 32 * grain = 2 ^ 1040 := by
    simp only [two_pow_mul_grain, Nat.reduceAdd]
  rw [hscale, stepsOf_add hhigh (.inr hlow)]

theorem cast_steps_div (digits : ℕ) :
    ((digits * (2 ^ 32 * grain) : ℕ) : ℚ) / stepsInOne = digits / 2 ^ 34 := by
  have hgrain : (grain : ℚ) ≠ 0 := Nat.cast_ne_zero.mpr grain_pos.ne'
  rw [stepsInOne_eq]
  push_cast
  field_simp
  ring

theorem value_le_of_steps_le {price : Binary64} (hprice : price.IsNonneg) {digits : ℕ}
    (h : price.steps ≤ digits * (2 ^ 32 * grain)) : price.value ≤ digits / 2 ^ 34 := by
  rw [hprice.value_eq, ← cast_steps_div]
  exact div_le_div_of_nonneg_right (Nat.cast_le.mpr h) cast_stepsInOne_pos.le

theorem steps_greatest : greatest.steps = 7378697627765834 * (2 ^ 32 * grain) := by
  rw [steps, magnitude_greatest, stepsOf_near_greatest (by decide) (by decide)]

theorem isAmount_greatest : greatest.IsAmount :=
  ⟨by decide, by decide⟩

theorem value_greatest : greatest.value = 7378697627765834 / 2 ^ 34 := by
  rw [isAmount_greatest.isNonneg.value_eq, steps_greatest, cast_steps_div]
  norm_num

/-- No finite number lies between the greatest price and the decimal it is nearest to. -/
theorem greatest_atMost_iff {price : Binary64} (h : price.isFinite = true) :
    greatest.atMost price = true ↔ 4294967295 / 10000 ≤ price.value := by
  have hNaN := isNaN_of_isFinite h
  rw [atMost_iff, rank_le_rank_iff]
  constructor
  · rintro ⟨_, _, hle⟩
    rw [value_greatest] at hle
    exact le_trans (by norm_num) hle
  · intro hle
    refine ⟨isAmount_greatest.isNaN, hNaN, ?_⟩
    have hprice := isNonneg_of_value_pos hNaN (lt_of_lt_of_le (by norm_num) hle)
    rw [isAmount_greatest.isNonneg.value_le_value_iff hprice, magnitude_greatest]
    by_contra hlt
    have hmagnitude : price.magnitude ≤ 1040 * 2 ^ 52 + 7378697627765833 := by omega
    have hsteps := stepsOf_strictMono.monotone hmagnitude
    rw [stepsOf_near_greatest (by decide) (by decide)] at hsteps
    have hvalue := hle.trans (value_le_of_steps_le hprice hsteps)
    norm_num at hvalue

/-! ## Prices within the range of words -/

theorem scaled_within {price : Binary64} (hprice : price.IsAmount)
    (happroximates : Approximates (price * rawPerUnit).steps (10000 * price.steps) 1) :
    Within 1 (10000 * price.value) ((price * rawPerUnit).steps / stepsInOne) := by
  have hwithin := (happroximates.within Nat.one_pos).div_right cast_stepsInOne_pos
  have hexact : ((10000 * price.steps : ℕ) : ℚ) / (1 : ℕ) / stepsInOne = 10000 * price.value := by
    rw [hprice.isNonneg.value_eq, Nat.cast_one, div_one, Nat.cast_mul, Nat.cast_ofNat,
      mul_div_assoc]
  rw [hexact] at hwithin
  exact hwithin

/-- Up to the greatest price, the word is the nearest one to a product that was rounded once. -/
theorem abs_toRaw_sub_le_of_steps_le {price : Binary64} (hprice : price.IsAmount)
    (h : price.steps ≤ greatest.steps) :
    |((toRaw price).toNat : ℚ) - 10000 * price.value| ≤
      1 / 2 + 10000 * price.value / 2 ^ 53 := by
  have hgrain := grain_pos
  rw [steps_greatest] at h
  obtain ⟨hscaled, happroximates⟩ := scaled_approximates hprice (by omega)
  have hword : ((price * rawPerUnit).steps + stepsInOne / 2) / stepsInOne ≤ 2 ^ 32 - 1 := by
    have hle := happroximates.le
    have hlt : (price * rawPerUnit).steps + stepsInOne / 2 < 2 ^ 32 * stepsInOne := by
      rw [stepsInOne_eq]
      omega
    have hquotient := (Nat.div_lt_iff_lt_mul stepsInOne_pos).mpr hlt
    omega
  have hrounded := abs_le.mp (abs_nearest_sub_le (price * rawPerUnit).steps)
  obtain ⟨hge, hle⟩ := scaled_within hprice happroximates
  rw [toRaw, hscaled.isNonneg.toNat_toUInt32_roundHalfAway, Nat.min_eq_right hword]
  rw [pow_one, roundoff] at hge hle
  rw [abs_le]
  constructor <;> linarith [hrounded.1, hrounded.2]

theorem abs_toRaw_sub_le {price : Binary64} (hlow : Binary64.zero.atMost price = true)
    (hhigh : price.atMost greatest = true) :
    |((toRaw price).toNat : ℚ) - 10000 * price.value| ≤
      1 / 2 + 10000 * price.value / 2 ^ 53 := by
  obtain ⟨_, hNaN, hrank⟩ := atMost_iff.mp hlow
  obtain ⟨_, _, hrank'⟩ := atMost_iff.mp hhigh
  have hnonneg := rank_le_rank_iff.mp hrank
  have hle := rank_le_rank_iff.mp hrank'
  rw [value_zero] at hnonneg
  rcases hnonneg.eq_or_lt with hzero | hpos
  · rw [toRaw_of_value_nonpos hNaN hzero.ge, ← hzero]
    norm_num
  · have hprice := isNonneg_of_value_pos hNaN hpos
    have hmagnitude := (hprice.value_le_value_iff isAmount_greatest.isNonneg).mp hle
    have hamount := hprice.isAmount_of_le isAmount_greatest hmagnitude
    exact abs_toRaw_sub_le_of_steps_le hamount (stepsOf_strictMono.monotone hmagnitude)

/-- The price of the word is as close as the halves that are lost in it allow. -/
theorem abs_ofRaw_toRaw_sub_le {price : Binary64} (hlow : Binary64.zero.atMost price = true)
    (hhigh : price.atMost greatest = true) :
    |(ofRaw (toRaw price)).value - price.value| ≤ 5 / 10 ^ 5 + 1 / 10 ^ 9 := by
  have hword := abs_le.mp (abs_toRaw_sub_le hlow hhigh)
  have hprice := abs_le.mp (abs_value_ofRaw_sub_le (toRaw price))
  have hmax := cast_toNat_le (toRaw price)
  have hle := rank_le_rank_iff.mp (atMost_iff.mp hhigh).2.2
  rw [value_greatest] at hle
  rw [abs_le]
  constructor <;> linarith [hword.1, hword.2, hprice.1, hprice.2]

/-- What becomes of a number as a price, whichever number it is. -/
structure NearestSpec (price : Binary64) : Prop where
  mono : ∀ other, price.atMost other = true → toRaw price ≤ toRaw other
  isNaN : price.isNaN = true → toRaw price = 0
  low : price.atMost Binary64.zero = true → toRaw price = 0
  high : greatest.atMost price = true → toRaw price = 0xFFFFFFFF
  /-- The greatest price is the least of the finite numbers from `429496.7295` on. -/
  greatest_iff : price.isFinite = true →
    (greatest.atMost price = true ↔ 4294967295 / 10000 ≤ price.value)
  /-- The product is rounded before it is rounded to a whole number, so a half may be exceeded. -/
  close : Binary64.zero.atMost price = true → price.atMost greatest = true →
    |((toRaw price).toNat : ℚ) - 10000 * price.value| ≤ 1 / 2 + 10000 * price.value / 2 ^ 53
  back : Binary64.zero.atMost price = true → price.atMost greatest = true →
    |(ofRaw (toRaw price)).value - price.value| ≤ 5 / 10 ^ 5 + 1 / 10 ^ 9

theorem toRaw_nearestSpec (price : Binary64) : NearestSpec price := by
  constructor
  case mono => exact fun other => toRaw_mono
  case isNaN => exact toRaw_of_isNaN
  case low =>
    intro h
    obtain ⟨hNaN, _, hrank⟩ := atMost_iff.mp h
    exact toRaw_of_value_nonpos hNaN (value_zero ▸ rank_le_rank_iff.mp hrank)
  case high =>
    intro h
    have hgreatest : toRaw greatest = 0xFFFFFFFF := by decide +kernel
    have hle := UInt32.le_iff_toNat_le.mp (toRaw_mono h)
    have hword := (toRaw price).toNat_lt
    apply UInt32.toNat_inj.mp
    rw [hgreatest] at hle
    exact Nat.le_antisymm (Nat.le_of_lt_succ hword) hle
  case greatest_iff => exact greatest_atMost_iff
  case close => exact abs_toRaw_sub_le
  case back => exact abs_ofRaw_toRaw_sub_le

end QuoteFeed.Price
