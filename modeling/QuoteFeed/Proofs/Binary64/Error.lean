import Mathlib.Data.Nat.Cast.Order.Field
import Mathlib.Tactic.FieldSimp
import Mathlib.Tactic.Linarith
import Mathlib.Tactic.NormNum
import Mathlib.Tactic.Ring
import QuoteFeed.Proofs.Binary64.Order

/-! # Relative errors

One rounding changes a value by at most a part of `2 ^ 53`, unless the value is too small to keep
all digits or too large to be finite. Roundings in a row are counted. The whole part of a product,
as a word, is right up to the roundings that are counted also in the two cases where a rounding is
not: what is too small has no whole part, and what is too large has no word. -/

namespace QuoteFeed.Binary64

/-! ## Counting roundings -/

/-- The largest part of a value by which one rounding changes it. -/
def roundoff : ℚ :=
  1 / 2 ^ 53

theorem roundoff_pos : 0 < roundoff := by
  norm_num [roundoff]

theorem roundoff_lt_one : roundoff < 1 := by
  norm_num [roundoff]

/-- The value comes from the exact one by at most `n` roundings. -/
structure Within (n : ℕ) (exact value : ℚ) : Prop where
  ge : exact * (1 - roundoff) ^ n ≤ value
  le : value ≤ exact * (1 + roundoff) ^ n

theorem pow_one_sub_roundoff_pos (n : ℕ) : 0 < (1 - roundoff) ^ n :=
  pow_pos (sub_pos.mpr roundoff_lt_one) n

theorem pow_one_sub_roundoff_le_one (n : ℕ) : (1 - roundoff) ^ n ≤ 1 :=
  pow_le_one₀ (sub_nonneg.mpr roundoff_lt_one.le) (sub_le_self 1 roundoff_pos.le)

theorem one_le_pow_one_add_roundoff (n : ℕ) : 1 ≤ (1 + roundoff) ^ n :=
  one_le_pow₀ (le_add_of_nonneg_right roundoff_pos.le)

namespace Within

variable {m n : ℕ} {x y a b : ℚ}

theorem refl (x : ℚ) : Within 0 x x := by
  constructor <;> simp

theorem nonneg (h : Within n x a) (hx : 0 ≤ x) : 0 ≤ a :=
  (mul_nonneg hx (pow_one_sub_roundoff_pos n).le).trans h.ge

theorem mul (hx : 0 ≤ x) (hy : 0 ≤ y) (ha : Within m x a) (hb : Within n y b) :
    Within (m + n) (x * y) (a * b) := by
  constructor
  · calc x * y * (1 - roundoff) ^ (m + n)
        = x * (1 - roundoff) ^ m * (y * (1 - roundoff) ^ n) := by ring
      _ ≤ a * b := mul_le_mul ha.ge hb.ge
          (mul_nonneg hy (pow_one_sub_roundoff_pos n).le) (ha.nonneg hx)
  · calc a * b ≤ x * (1 + roundoff) ^ m * (y * (1 + roundoff) ^ n) :=
          mul_le_mul ha.le hb.le (hb.nonneg hy)
            ((ha.nonneg hx).trans ha.le)
      _ = x * y * (1 + roundoff) ^ (m + n) := by ring

theorem div_right {c : ℚ} (hc : 0 < c) (h : Within n x a) : Within n (x / c) (a / c) := by
  constructor
  · rw [div_mul_eq_mul_div]
    exact div_le_div_of_nonneg_right h.ge hc.le
  · rw [div_mul_eq_mul_div]
    exact div_le_div_of_nonneg_right h.le hc.le

end Within

/-! ## One rounding -/

theorem Approximates.within {steps num den : ℕ} (hden : 0 < den) (h : Approximates steps num den) :
    Within 1 (num / den) steps := by
  have hden : (0 : ℚ) < den := Nat.cast_pos.mpr hden
  have hge : (2 : ℚ) ^ 53 * num ≤ 2 ^ 53 * (den * steps) + num := by
    exact_mod_cast h.ge
  have hle : (2 : ℚ) ^ 53 * (den * steps) ≤ 2 ^ 53 * num + num := by
    exact_mod_cast h.le
  constructor
  · rw [pow_one, div_mul_eq_mul_div, div_le_iff₀ hden, roundoff]
    linarith
  · rw [pow_one, div_mul_eq_mul_div, le_div_iff₀ hden, roundoff]
    linarith

theorem within_nearest {num den : ℕ} (hden : 0 < den) (hnormal : num = 0 ∨ den * 2 ^ 52 ≤ num)
    (h : num < den * 2 ^ 2098) : Within 1 (num / den) (stepsOf (nearest num den)) :=
  (nearest_approximates hden hnormal h).within hden

/-- A power of two is not passed by rounding. -/
theorem stepsOf_nearest_le {num den exponent : ℕ} (hden : 0 < den) (hexponent : exponent ≤ 2045)
    (h : num ≤ den * 2 ^ exponent) : stepsOf (nearest num den) ≤ 2 ^ exponent := by
  have hexact : stepsOf (nearest (den * (1 * 2 ^ exponent)) den) = 1 * 2 ^ exponent :=
    stepsOf_nearest_exact hden (by decide) hexponent
  rw [Nat.one_mul] at hexact
  have hle : nearest num den ≤ nearest (den * 2 ^ exponent) den :=
    nearest_mono hden hden (Nat.mul_le_mul_right den h)
  exact hexact ▸ stepsOf_strictMono.monotone hle

theorem steps_ofNat_le {n exponent : ℕ} (hexponent : exponent ≤ 128) (h : n ≤ 2 ^ exponent) :
    (ofNat n).steps ≤ 2 ^ exponent * stepsInOne := by
  have hle : n * stepsInOne ≤ 1 * 2 ^ (exponent + 1074) := by
    simpa only [Nat.one_mul, ← two_pow_mul_stepsInOne] using Nat.mul_le_mul_right stepsInOne h
  have hsteps := stepsOf_nearest_le Nat.one_pos (by omega) hle
  rw [ofNat, steps_ofSteps]
  exact hsteps.trans_eq (two_pow_mul_stepsInOne exponent).symm

theorem two_pow_128_le_stepsInOne : 2 ^ 128 ≤ stepsInOne := by
  have hpow := Nat.pow_le_pow_right (show 0 < 2 by decide) (show 128 ≤ 1074 by decide)
  simpa only [stepsInOne] using hpow

theorem within_ofNat {n : ℕ} (h : n < 2 ^ 128) : Within 1 n ((ofNat n).steps / stepsInOne) := by
  have hpos := stepsInOne_pos
  have hone := two_pow_128_le_stepsInOne
  have hnormal : n * stepsInOne = 0 ∨ 1 * 2 ^ 52 ≤ n * stepsInOne := by
    by_cases hn : n = 0
    · exact .inl (by rw [hn, Nat.zero_mul])
    · have hle := Nat.le_mul_of_pos_left stepsInOne (Nat.pos_of_ne_zero hn)
      omega
  have hrange : n * stepsInOne < 1 * 2 ^ 2098 := by
    have hpow := Nat.pow_le_pow_right (show 0 < 2 by decide) (show 128 + 1074 ≤ 2098 by decide)
    have hlt := Nat.mul_lt_mul_of_pos_right h hpos
    rw [two_pow_mul_stepsInOne] at hlt
    simpa only [Nat.one_mul] using Nat.lt_of_lt_of_le hlt hpow
  have hsteps := (within_nearest Nat.one_pos hnormal hrange).div_right cast_stepsInOne_pos
  have hexact : ((n * stepsInOne : ℕ) : ℚ) / (1 : ℕ) / stepsInOne = n := by
    rw [Nat.cast_one, div_one, Nat.cast_mul, mul_div_cancel_right₀ _ cast_stepsInOne_pos.ne']
  rw [hexact] at hsteps
  rw [ofNat, steps_ofSteps]
  exact hsteps

theorem cast_toNat_le (word : UInt32) : (word.toNat : ℚ) ≤ 2 ^ 32 - 1 := by
  have hword := word.toNat_lt
  rw [le_sub_iff_add_le]
  exact_mod_cast hword

/-! ## Whole parts -/

/-- The word is the whole part of a value that comes from the exact one by at most `n` roundings, or
the largest word where there is none for it. -/
structure Truncates (n : ℕ) (exact : ℚ) (word : ℕ) : Prop where
  le_max : word ≤ 2 ^ 64 - 1
  le : word ≤ exact * (1 + roundoff) ^ n
  gt : word = 2 ^ 64 - 1 ∨ exact * (1 - roundoff) ^ n < word + 1

theorem truncates_zero (n : ℕ) {x : ℚ} (hx : 0 ≤ x) (hlt : x < 1) : Truncates n x 0 := by
  refine ⟨Nat.zero_le _, ?_, .inr ?_⟩
  · rw [Nat.cast_zero]
    exact mul_nonneg hx (zero_le_one.trans (one_le_pow_one_add_roundoff n))
  · rw [Nat.cast_zero, zero_add]
    exact (mul_le_of_le_one_right hx (pow_one_sub_roundoff_le_one n)).trans_lt hlt

theorem truncates_max (n : ℕ) {x : ℚ} (hx : (2 ^ 64 : ℕ) ≤ x) : Truncates n x (2 ^ 64 - 1) := by
  refine ⟨Nat.le_refl _, ?_, .inl rfl⟩
  calc ((2 ^ 64 - 1 : ℕ) : ℚ) ≤ (2 ^ 64 : ℕ) := Nat.cast_le.mpr (Nat.sub_le ..)
    _ ≤ x := hx
    _ ≤ x * (1 + roundoff) ^ n :=
        le_mul_of_one_le_right ((Nat.cast_nonneg _).trans hx) (one_le_pow_one_add_roundoff n)

theorem Within.truncates {m n : ℕ} {x y : ℚ} {word : ℕ} (h : Within m x y)
    (hword : Truncates n y word) : Truncates (m + n) x word where
  le_max := hword.le_max
  le := by
    calc (word : ℚ) ≤ y * (1 + roundoff) ^ n := hword.le
      _ ≤ x * (1 + roundoff) ^ m * (1 + roundoff) ^ n :=
          mul_le_mul_of_nonneg_right h.le (zero_le_one.trans (one_le_pow_one_add_roundoff n))
      _ = x * (1 + roundoff) ^ (m + n) := by ring
  gt := by
    apply hword.gt.imp_right
    intro hlt
    calc x * (1 - roundoff) ^ (m + n) = x * (1 - roundoff) ^ m * (1 - roundoff) ^ n := by ring
      _ ≤ y * (1 - roundoff) ^ n :=
          mul_le_mul_of_nonneg_right h.ge (pow_one_sub_roundoff_pos n).le
      _ < word + 1 := hlt

theorem Within.truncates_div {n unit steps : ℕ} {exact : ℚ} (hunit : 0 < unit)
    (h : Within n exact steps) : Truncates n (exact / unit) (min (2 ^ 64 - 1) (steps / unit)) := by
  have hpos : (0 : ℚ) < unit := Nat.cast_pos.mpr hunit
  have hscaled := h.div_right hpos
  refine ⟨Nat.min_le_left .., ?_, ?_⟩
  · calc ((min (2 ^ 64 - 1) (steps / unit) : ℕ) : ℚ) ≤ (steps / unit : ℕ) :=
          Nat.cast_le.mpr (Nat.min_le_right ..)
      _ ≤ steps / unit := Nat.cast_div_le
      _ ≤ exact / unit * (1 + roundoff) ^ n := hscaled.le
  · by_cases hle : 2 ^ 64 - 1 ≤ steps / unit
    · exact .inl (Nat.min_eq_left hle)
    · have hrest : steps < (steps / unit + 1) * unit := Nat.lt_mul_of_div_lt (by omega) hunit
      rw [Nat.min_eq_right (Nat.le_of_not_le hle)]
      refine .inr (hscaled.ge.trans_lt ?_)
      rw [div_lt_iff₀ hpos]
      exact_mod_cast hrest

theorem wholeProduct_eq_zero {a b : ℕ} (h : a * b ≤ stepsInOne * 2 ^ 127) :
    wholeProduct a b = 0 := by
  have hone := two_pow_128_le_stepsInOne
  have hsteps := stepsOf_nearest_le stepsInOne_pos (by decide) h
  rw [wholeProduct, Nat.div_eq_of_lt (by omega), Nat.min_zero]

theorem div_div_lt_one {num den unit : ℕ} (hden : 0 < den) (hunit : 2 ^ 127 < unit)
    (h : num ≤ den * 2 ^ 127) : (num / den / unit : ℚ) < 1 := by
  have hpos : (0 : ℚ) < den * unit := by
    exact_mod_cast Nat.mul_pos hden (Nat.zero_lt_of_lt hunit)
  rw [div_div, div_lt_one hpos]
  exact_mod_cast h.trans_lt (Nat.mul_lt_mul_of_pos_left hunit hden)

theorem le_div_div {num den unit k : ℕ} (hden : 0 < den) (hunit : 0 < unit)
    (h : den * (k * unit) ≤ num) : (k : ℚ) ≤ num / den / unit := by
  have hpos : (0 : ℚ) < den * unit := by
    exact_mod_cast Nat.mul_pos hden hunit
  rw [div_div, le_div_iff₀ hpos, mul_left_comm]
  exact_mod_cast h

theorem two_pow_64_mul_stepsInOne_le : 2 ^ 64 * stepsInOne ≤ 2 ^ 2098 := by
  have hpow := Nat.pow_le_pow_right (show 0 < 2 by decide) (show 64 + 1074 ≤ 2098 by decide)
  rw [two_pow_mul_stepsInOne]
  exact hpow

/-- The whole part of a product is right up to one rounding, however small or large the product
is. -/
theorem wholeProduct_truncates (a b : ℕ) :
    Truncates 1 (a / stepsInOne * (b / stepsInOne)) (wholeProduct a b) := by
  have hone := two_pow_128_le_stepsInOne
  have hpos := cast_stepsInOne_pos
  have hexact : (a / stepsInOne * (b / stepsInOne) : ℚ) =
      (a * b : ℕ) / stepsInOne / stepsInOne := by
    rw [div_mul_div_comm, Nat.cast_mul, div_div]
  rw [hexact]
  by_cases hsmall : a * b ≤ stepsInOne * 2 ^ 127
  · have hnonneg : (0 : ℚ) ≤ (a * b : ℕ) / stepsInOne / stepsInOne :=
      div_nonneg (div_nonneg (Nat.cast_nonneg _) hpos.le) hpos.le
    rw [wholeProduct_eq_zero hsmall]
    exact truncates_zero 1 hnonneg (div_div_lt_one stepsInOne_pos (by omega) hsmall)
  have hnormal : stepsInOne * 2 ^ 52 ≤ a * b :=
    (Nat.mul_le_mul_left stepsInOne (by decide)).trans (Nat.le_of_not_le hsmall)
  by_cases hlarge : stepsInOne * 2 ^ 2098 ≤ a * b
  · have hrange := (Nat.mul_le_mul_left stepsInOne two_pow_64_mul_stepsInOne_le).trans hlarge
    rw [wholeProduct_of_le hlarge]
    exact truncates_max 1 (le_div_div stepsInOne_pos stepsInOne_pos hrange)
  · have hwithin := within_nearest stepsInOne_pos (.inr hnormal) (Nat.lt_of_not_le hlarge)
    exact hwithin.truncates_div stepsInOne_pos

/-- With a whole number, the number and the product are rounded too. -/
theorem wholeProduct_ofNat_truncates {m n steps : ℕ} {x : ℚ} (hn : n < 2 ^ 128) (hx : 0 ≤ x)
    (h : Within m x (steps / stepsInOne)) :
    Truncates (1 + m + 1) (n * x) (wholeProduct (ofNat n).steps steps) := by
  have hproduct := (within_ofNat hn).mul (Nat.cast_nonneg n) hx h
  exact hproduct.truncates (wholeProduct_truncates ..)

/-! ## A few roundings -/

theorem pow_one_add_roundoff_le {n : ℕ} (h : n ≤ 5) : (1 + roundoff) ^ n ≤ 1 + 1 / 2 ^ 50 := by
  calc (1 + roundoff) ^ n ≤ (1 + roundoff) ^ 5 :=
        pow_le_pow_right₀ (le_add_of_nonneg_right roundoff_pos.le) h
    _ ≤ 1 + 1 / 2 ^ 50 := by norm_num [roundoff]

theorem pow_five_le_pow_one_sub_roundoff {n : ℕ} (h : n ≤ 5) :
    (1 - roundoff) ^ 5 ≤ (1 - roundoff) ^ n :=
  pow_le_pow_of_le_one (sub_nonneg.mpr roundoff_lt_one.le) (sub_le_self 1 roundoff_pos.le) h

theorem le_pow_one_sub_roundoff {n : ℕ} (h : n ≤ 5) : 1 - 1 / 2 ^ 50 ≤ (1 - roundoff) ^ n := by
  have hfive : 1 - 1 / 2 ^ 50 ≤ (1 - roundoff) ^ 5 := by norm_num [roundoff]
  exact hfive.trans (pow_five_le_pow_one_sub_roundoff h)

theorem one_le_mul_pow_one_sub_roundoff {n : ℕ} (h : n ≤ 5) :
    1 ≤ (1 + 1 / 2 ^ 50) * (1 - roundoff) ^ n := by
  have hfive : 1 ≤ (1 + 1 / 2 ^ 50) * (1 - roundoff) ^ 5 := by norm_num [roundoff]
  exact hfive.trans
    (mul_le_mul_of_nonneg_left (pow_five_le_pow_one_sub_roundoff h) (by norm_num))

namespace Truncates

variable {m n word word' : ℕ} {x : ℚ}

theorem eq_max (h : Truncates n x word) (hx : 2 ^ 64 ≤ x * (1 - roundoff) ^ n) :
    word = 2 ^ 64 - 1 := by
  rcases h.gt with hmax | hgt
  · exact hmax
  · have hlt : 2 ^ 64 < word + 1 := by exact_mod_cast hx.trans_lt hgt
    have hle := h.le_max
    omega

theorem eq_max_of_le (h : Truncates n x word) (hn : n ≤ 5)
    (hx : 2 ^ 64 * (1 + 1 / 2 ^ 50) ≤ x) : word = 2 ^ 64 - 1 := by
  apply h.eq_max
  calc (2 : ℚ) ^ 64 ≤ 2 ^ 64 * ((1 + 1 / 2 ^ 50) * (1 - roundoff) ^ n) :=
        le_mul_of_one_le_right (by norm_num) (one_le_mul_pow_one_sub_roundoff hn)
    _ = 2 ^ 64 * (1 + 1 / 2 ^ 50) * (1 - roundoff) ^ n := by ring
    _ ≤ x * (1 - roundoff) ^ n :=
        mul_le_mul_of_nonneg_right hx (pow_one_sub_roundoff_pos n).le

/-- Within the range of words, the largest word is as good as the whole part. -/
theorem lt_add_one (h : Truncates n x word) (hx : 0 ≤ x) (hlt : x < 2 ^ 64) :
    x * (1 - roundoff) ^ n < word + 1 := by
  rcases h.gt with hmax | hgt
  · have hword : (word : ℚ) + 1 = 2 ^ 64 := by
      rw [hmax]
      norm_num
    rw [hword]
    exact (mul_le_of_le_one_right hx (pow_one_sub_roundoff_le_one n)).trans_lt hlt
  · exact hgt

theorem abs_sub_lt (h : Truncates n x word) (hn : n ≤ 5) (hx : 0 ≤ x) (hlt : x < 2 ^ 64) :
    |(word : ℚ) - x| < 1 + x / 2 ^ 50 := by
  have hle : (word : ℚ) ≤ x * (1 + 1 / 2 ^ 50) :=
    h.le.trans (mul_le_mul_of_nonneg_left (pow_one_add_roundoff_le hn) hx)
  have hgt : x * (1 - 1 / 2 ^ 50) < word + 1 :=
    (mul_le_mul_of_nonneg_left (le_pow_one_sub_roundoff hn) hx).trans_lt (h.lt_add_one hx hlt)
  rw [abs_lt]
  constructor <;> linarith

/-- What is multiplied by a ratio and then divided by it comes back, up to the whole parts that were
taken. -/
theorem roundTrip {ratio : ℚ} (hratio : 0 < ratio) (hx : 0 ≤ x) (hmax : x ≤ 2 ^ 64 - 1)
    (hlt : x * ratio < 2 ^ 64) (h : Truncates m (x * ratio) word)
    (h' : Truncates n (word / ratio) word') (hmn : m + n ≤ 5) :
    x * (1 - 1 / 2 ^ 50) - 1 / ratio - 1 ≤ word' ∧ word' ≤ x * (1 + 1 / 2 ^ 50) := by
  have hn := one_le_pow_one_add_roundoff n
  constructor
  · rcases h'.gt with hword' | hgt'
    · have hword' : (word' : ℚ) = 2 ^ 64 - 1 := by
        rw [hword']
        norm_num
      have hpos : 0 < 1 / ratio := one_div_pos.mpr hratio
      rw [hword']
      linarith
    · have hgt := h.lt_add_one (mul_nonneg hx hratio.le) hlt
      have hquotient : x * (1 - roundoff) ^ m - 1 / ratio < word / ratio := by
        rw [lt_div_iff₀ hratio, sub_mul, one_div_mul_cancel hratio.ne']
        linarith
      have hrounded := mul_lt_mul_of_pos_right hquotient (pow_one_sub_roundoff_pos n)
      have hlost : 1 / ratio * (1 - roundoff) ^ n ≤ 1 / ratio :=
        mul_le_of_le_one_right (one_div_pos.mpr hratio).le (pow_one_sub_roundoff_le_one n)
      have hkept : x * (1 - 1 / 2 ^ 50) ≤ x * (1 - roundoff) ^ m * (1 - roundoff) ^ n := by
        rw [mul_assoc, ← pow_add]
        exact mul_le_mul_of_nonneg_left (le_pow_one_sub_roundoff hmn) hx
      linarith
  · calc (word' : ℚ) ≤ word / ratio * (1 + roundoff) ^ n := h'.le
      _ ≤ x * ratio * (1 + roundoff) ^ m / ratio * (1 + roundoff) ^ n :=
          mul_le_mul_of_nonneg_right (div_le_div_of_nonneg_right h.le hratio.le)
            (zero_le_one.trans hn)
      _ = x * (1 + roundoff) ^ (m + n) := by
          field_simp
          ring
      _ ≤ x * (1 + 1 / 2 ^ 50) := mul_le_mul_of_nonneg_left (pow_one_add_roundoff_le hmn) hx

end Truncates

end QuoteFeed.Binary64
