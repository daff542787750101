import Mathlib.Algebra.Order.Field.Basic
import Mathlib.Algebra.Order.Field.Rat
import Mathlib.Data.Nat.Log
import QuoteFeed.Proofs.Binary64.Rounding

/-! # Rounding keeps order

A larger fraction is never rounded to a smaller number, also where the exponent changes and where
infinity is reached. Products with whole numbers, and their whole parts as words, keep order with
it. -/

namespace QuoteFeed

/-! ## Quotients -/

theorem div_le_div_of_mul_le_mul {num den num' den' : Nat} (hden : 0 < den) (hden' : 0 < den')
    (h : num * den' ≤ num' * den) : num / den ≤ num' / den' := by
  rw [Nat.le_div_iff_mul_le hden']
  apply Nat.le_of_mul_le_mul_right _ hden
  calc num / den * den' * den = num / den * den * den' := Nat.mul_right_comm ..
    _ ≤ num * den' := Nat.mul_le_mul_right den' (Nat.div_mul_le_self num den)
    _ ≤ num' * den := h

theorem div_le_roundHalfEven (num den : Nat) : num / den ≤ roundHalfEven num den := by
  unfold roundHalfEven
  simp only
  split <;> omega

theorem roundHalfEven_le_div_add_one (num den : Nat) : roundHalfEven num den ≤ num / den + 1 := by
  unfold roundHalfEven
  simp only
  split <;> omega

theorem roundHalfEven_mono {num den num' den' : Nat} (hden : 0 < den) (hden' : 0 < den')
    (h : num * den' ≤ num' * den) : roundHalfEven num den ≤ roundHalfEven num' den' := by
  have hquotient := div_le_div_of_mul_le_mul hden hden' h
  by_cases hlt : num / den < num' / den'
  · have hup := roundHalfEven_le_div_add_one num den
    have hdown := div_le_roundHalfEven num' den'
    omega
  · -- Of fractions with the same whole part, the remainders are ordered as the fractions are.
    have heq : num / den = num' / den' := by omega
    have hnum : num * den' = den * (num' / den') * den' + num % den * den' := by
      rw [← heq, ← Nat.add_mul, Nat.div_add_mod]
    have hnum' : num' * den = den * (num' / den') * den' + num' % den' * den := by
      rw [Nat.mul_comm den, Nat.mul_right_comm, Nat.mul_comm _ den', ← Nat.add_mul,
        Nat.div_add_mod]
    have hrest : 2 * (num % den) * den' ≤ 2 * (num' % den') * den := by
      rw [Nat.mul_assoc, Nat.mul_assoc]
      omega
    have hbelow : 2 * (num' % den') < den' → 2 * (num % den) < den := by
      intro hlt
      apply Nat.lt_of_mul_lt_mul_right (a := den')
      calc 2 * (num % den) * den' ≤ 2 * (num' % den') * den := hrest
        _ < den' * den := Nat.mul_lt_mul_of_pos_right hlt hden
        _ = den * den' := Nat.mul_comm ..
    have htie : 2 * (num' % den') ≤ den' → 2 * (num % den) ≤ den := by
      intro hle
      apply Nat.le_of_mul_le_mul_right _ hden'
      calc 2 * (num % den) * den' ≤ 2 * (num' % den') * den := hrest
        _ ≤ den' * den := Nat.mul_le_mul_right den hle
        _ = den * den' := Nat.mul_comm ..
    unfold roundHalfEven
    simp only [heq]
    split <;> split <;> omega

namespace Binary64

/-! ## Magnitudes -/

theorem excess_mono {steps steps' : Nat} (h : steps ≤ steps') : excess steps ≤ excess steps' := by
  have hlog := Nat.log_mono_right (b := 2) h
  rw [excess, excess, Nat.log2_eq_log_two, Nat.log2_eq_log_two]
  omega

theorem nearest_mono {num den num' den' : Nat} (hden : 0 < den) (hden' : 0 < den')
    (h : num * den' ≤ num' * den) : nearest num den ≤ nearest num' den' := by
  have hexcess := excess_mono (div_le_div_of_mul_le_mul hden hden' h)
  rw [nearest_eq_min, nearest_eq_min]
  by_cases heq : excess (num / den) = excess (num' / den')
  · have hdigits : digits num den ≤ digits num' den' := by
      rw [digits, digits, heq]
      apply roundHalfEven_mono (Nat.mul_pos hden (Nat.two_pow_pos _))
        (Nat.mul_pos hden' (Nat.two_pow_pos _))
      rw [← Nat.mul_assoc, ← Nat.mul_assoc]
      exact Nat.mul_le_mul_right _ h
    omega
  · -- A carry out of all the digits comes up to the next exponent at most.
    have hdigits := digits_le num hden
    have hdigits' := (excess_eq_zero_or num' hden').resolve_left (by omega)
    omega

/-- Every magnitude has at most 53 digits, and fewer only with the lowest exponent. -/
theorem exists_digits (magnitude : Nat) : ∃ shift digits, magnitude = shift * 2 ^ 52 + digits ∧
    digits < 2 ^ 53 ∧ (shift = 0 ∨ 2 ^ 52 ≤ digits) := by
  refine ⟨magnitude / 2 ^ 52 - 1, magnitude - (magnitude / 2 ^ 52 - 1) * 2 ^ 52, ?_⟩
  omega

theorem stepsOf_lt_succ (magnitude : Nat) : stepsOf magnitude < stepsOf (magnitude + 1) := by
  obtain ⟨shift, digits, rfl, hlt, hshift⟩ := exists_digits magnitude
  have hsucc : shift = 0 ∨ 2 ^ 52 ≤ digits + 1 := by omega
  rw [Nat.add_assoc, stepsOf_add (by omega) hshift, stepsOf_add (by omega) hsucc]
  exact Nat.mul_lt_mul_of_pos_right (Nat.lt_succ_self digits) (Nat.two_pow_pos shift)

theorem stepsOf_strictMono : StrictMono stepsOf :=
  strictMono_nat_of_lt_succ stepsOf_lt_succ

theorem stepsOf_zero : stepsOf 0 = 0 :=
  rfl

theorem stepsOf_infiniteMagnitude : stepsOf infiniteMagnitude = 2 ^ 1024 * stepsInOne := by
  have hmagnitude : infiniteMagnitude = 2046 * 2 ^ 52 + 2 ^ 52 := by decide
  have hscale : 2 ^ 52 * 2 ^ 2046 = 2 ^ 1024 * stepsInOne := by
    simp only [two_pow_mul_stepsInOne, ← Nat.pow_add, Nat.reduceAdd]
  rw [hmagnitude, stepsOf_add (by decide) (.inr (by decide)), hscale]

theorem nearest_zero {den : Nat} (hden : 0 < den) : nearest 0 den = 0 := by
  simp [nearest, excess, roundHalfEven, hden]

/-- From twice the largest power of two that is finite on, everything is rounded to infinity. -/
theorem nearest_of_le {num den : Nat} (hden : 0 < den) (h : den * 2 ^ 2098 ≤ num) :
    nearest num den = infiniteMagnitude := by
  have hexcess : 2046 ≤ excess (num / den) := by
    by_contra hlt
    have hwidth := lt_of_excess num hden
    have hpow := Nat.pow_le_pow_right (show 0 < 2 by decide)
      (show excess (num / den) + 53 ≤ 2098 by omega)
    rw [Nat.mul_assoc, ← Nat.pow_add] at hwidth
    exact absurd (Nat.lt_of_lt_of_le hwidth (Nat.mul_le_mul_left den hpow)) (Nat.not_lt_of_le h)
  have hdigits := (excess_eq_zero_or num hden).resolve_left (by omega)
  rw [nearest_eq_min, infiniteMagnitude]
  omega

/-! ## Values -/

/-- The number that the bits of a finite value stand for. -/
def value (x : Binary64) : ℚ :=
  x.signedSteps / stepsInOne

/-- A value that is not negative. It may be infinite. -/
structure IsNonneg (x : Binary64) : Prop where
  isNaN : x.isNaN = false
  isNegative : x.isNegative = false

theorem IsAmount.isNonneg {x : Binary64} (h : x.IsAmount) : x.IsNonneg :=
  ⟨h.isNaN, h.isNegative⟩

theorem isNonneg_ofSteps (num den : Nat) : (ofSteps false num den).IsNonneg :=
  ⟨isNaN_ofSteps false num den, isNegative_ofSteps false num den⟩

theorem cast_stepsInOne_pos : (0 : ℚ) < stepsInOne :=
  Nat.cast_pos.mpr stepsInOne_pos

theorem value_pos_iff (x : Binary64) :
    0 < x.value ↔ x.isNegative = false ∧ 0 < x.magnitude := by
  have hsteps : 0 < x.steps ↔ 0 < x.magnitude := by
    rw [steps, ← stepsOf_strictMono.lt_iff_lt (b := x.magnitude), stepsOf_zero]
  rw [value, div_pos_iff_of_pos_right cast_stepsInOne_pos, signedSteps, ← hsteps]
  by_cases h : x.isNegative = true
  · simp [h]
  · simp [h]

namespace IsNonneg

variable {x y : Binary64}

theorem value_eq (h : x.IsNonneg) : x.value = x.steps / stepsInOne := by
  have hsigned : x.signedSteps = x.steps := by simp [signedSteps, h.isNegative]
  rw [value, hsigned, Int.cast_natCast]

theorem value_le_value_iff (hx : x.IsNonneg) (hy : y.IsNonneg) :
    x.value ≤ y.value ↔ x.magnitude ≤ y.magnitude := by
  have hsteps : x.steps ≤ y.steps ↔ x.magnitude ≤ y.magnitude := stepsOf_strictMono.le_iff_le
  rw [hx.value_eq, hy.value_eq, div_le_div_iff_of_pos_right cast_stepsInOne_pos, Nat.cast_le,
    hsteps]

end IsNonneg

/-! ## Products with whole numbers -/

theorem steps_ofNat_mono {n n' : Nat} (h : n ≤ n') : (ofNat n).steps ≤ (ofNat n').steps := by
  rw [ofNat, ofNat, steps_ofSteps, steps_ofSteps]
  apply stepsOf_strictMono.monotone
  apply nearest_mono Nat.one_pos Nat.one_pos
  exact Nat.mul_le_mul_right 1 (Nat.mul_le_mul_right stepsInOne h)

theorem steps_ofNat_one : (ofNat 1).steps = stepsInOne := by
  rw [steps_ofNat (by decide), Nat.one_mul]

theorem stepsInOne_le_steps_ofNat {n : Nat} (h : 0 < n) : stepsInOne ≤ (ofNat n).steps := by
  rw [← steps_ofNat_one]
  exact steps_ofNat_mono h

theorem isZero_ofNat_iff {n : Nat} : (ofNat n).isZero = true ↔ n = 0 := by
  rw [isZero, beq_iff_eq]
  constructor
  · intro hmagnitude
    by_contra hne
    have hle := stepsInOne_le_steps_ofNat (Nat.pos_of_ne_zero hne)
    have hpos := stepsInOne_pos
    rw [steps, hmagnitude, stepsOf_zero] at hle
    omega
  · rintro rfl
    rw [ofNat, magnitude_ofSteps, Nat.zero_mul, nearest_zero Nat.one_pos]

/-- The whole part of a product of steps, as a word. -/
def wholeProduct (steps steps' : Nat) : Nat :=
  min (2 ^ 64 - 1) (stepsOf (nearest (steps * steps') stepsInOne) / stepsInOne)

theorem wholeProduct_mono {a a' b b' : Nat} (ha : a ≤ a') (hb : b ≤ b') :
    wholeProduct a b ≤ wholeProduct a' b' := by
  have hproduct := Nat.mul_le_mul_right stepsInOne (Nat.mul_le_mul ha hb)
  have hnearest := nearest_mono stepsInOne_pos stepsInOne_pos hproduct
  have hwhole : _ / stepsInOne ≤ _ / stepsInOne :=
    Nat.div_le_div_right (stepsOf_strictMono.monotone hnearest)
  exact min_le_min_left _ hwhole

theorem wholeProduct_zero (steps : Nat) : wholeProduct 0 steps = 0 := by
  simp [wholeProduct, nearest_zero stepsInOne_pos, stepsOf_zero]

theorem wholeProduct_ofNat_zero (steps : Nat) : wholeProduct (ofNat 0).steps steps = 0 := by
  rw [steps_ofNat (by decide), Nat.zero_mul, wholeProduct_zero]

theorem IsNonneg.truncate_eq {x : Binary64} (h : x.IsNonneg) (limit : Nat) :
    x.truncate limit = min limit (x.steps / stepsInOne) := by
  simp [truncate, h.isNaN, h.isNegative]

theorem steps_of_isInfinite {x : Binary64} (h : x.isInfinite = true) :
    x.steps = 2 ^ 1024 * stepsInOne := by
  have hmagnitude : x.magnitude = infiniteMagnitude := beq_iff_eq.mp h
  rw [steps, hmagnitude, stepsOf_infiniteMagnitude]

theorem whole_infinite {unit : Nat} (hunit : 0 < unit) :
    min (2 ^ 64 - 1) (2 ^ 1024 * unit / unit) = 2 ^ 64 - 1 := by
  have hpow := Nat.pow_le_pow_right (show 0 < 2 by decide) (show 64 ≤ 1024 by decide)
  generalize 2 ^ 1024 = range at hpow ⊢
  rw [Nat.mul_div_cancel _ hunit, Nat.min_eq_left (by omega)]

theorem wholeProduct_of_le {steps steps' : Nat} (h : stepsInOne * 2 ^ 2098 ≤ steps * steps') :
    wholeProduct steps steps' = 2 ^ 64 - 1 := by
  rw [wholeProduct, nearest_of_le stepsInOne_pos h, stepsOf_infiniteMagnitude,
    whole_infinite stepsInOne_pos]

theorem two_pow_1024_mul_stepsInOne : 2 ^ 1024 * stepsInOne = 2 ^ 2098 := by
  simp only [two_pow_mul_stepsInOne, Nat.reduceAdd]

theorem IsNonneg.isAmount {x : Binary64} (h : x.IsNonneg) (hfinite : x.isInfinite = false) :
    x.IsAmount := by
  have hNaN := of_decide_eq_false h.isNaN
  have hne : x.magnitude ≠ infiniteMagnitude := beq_eq_false_iff_ne.mp hfinite
  exact ⟨decide_eq_true (by omega), h.isNegative⟩

theorem IsNonneg.isAmount_of_le {x y : Binary64} (hx : x.IsNonneg) (hy : y.IsAmount)
    (h : x.magnitude ≤ y.magnitude) : x.IsAmount := by
  have hfinite : y.magnitude < infiniteMagnitude := of_decide_eq_true hy.isFinite
  exact ⟨decide_eq_true (Nat.lt_of_le_of_lt h hfinite), hx.isNegative⟩

theorem isZero_of_steps_pos {x : Binary64} (h : 0 < x.steps) : x.isZero = false := by
  rw [isZero, beq_eq_false_iff_ne]
  intro hmagnitude
  rw [steps, hmagnitude, stepsOf_zero] at h
  exact absurd h (Nat.lt_irrefl 0)

theorem isZero_of_isInfinite {x : Binary64} (h : x.isInfinite = true) : x.isZero = false := by
  rw [isZero, beq_iff_eq.mp h]
  decide

protected theorem mul_comm (x y : Binary64) : x * y = y * x := by
  change mul x y = mul y x
  simp only [mul, Bool.or_comm x.isNaN, Bool.or_comm x.isInfinite, Bool.or_comm x.isZero,
    bne_comm (a := x.isNegative), Nat.mul_comm x.steps]

/-- The product of a number from one on with a value that is not negative is the one of their steps,
also if the value is infinite. -/
theorem IsAmount.mul_nonneg_eq {x y : Binary64} (hx : x.IsAmount) (hone : stepsInOne ≤ x.steps)
    (hy : y.IsNonneg) : x * y = ofSteps false (x.steps * y.steps) stepsInOne := by
  by_cases hinfinite : y.isInfinite = true
  · have hnonzero := isZero_of_steps_pos (stepsInOne_pos.trans_le hone)
    have hmul : x * y = infinity false := by
      change mul x y = _
      simp [mul, hx.isNaN, hx.isNegative, hy.isNaN, hy.isNegative, hinfinite, hnonzero,
        isZero_of_isInfinite hinfinite]
    have hrange : stepsInOne * 2 ^ 2098 ≤ x.steps * y.steps := by
      rw [steps_of_isInfinite hinfinite, two_pow_1024_mul_stepsInOne]
      exact Nat.mul_le_mul_right _ hone
    rw [hmul, ofSteps, nearest_of_le stepsInOne_pos hrange, infinity]
  · exact hx.mul_eq (hy.isAmount (Bool.eq_false_iff.mpr hinfinite))

theorem IsAmount.div_eq {x y : Binary64} (hx : x.IsAmount) (hy : y.IsAmount)
    (hpos : 0 < y.steps) : x / y = ofSteps false (x.steps * stepsInOne) y.steps := by
  change div x y = _
  simp [div, hx.isNaN, hx.isInfinite, hx.isNegative, hy.isNaN, hy.isInfinite, hy.isNegative,
    isZero_of_steps_pos hpos]

/-- Nothing times infinity is no number, and its whole part is zero as that of any other product
with nothing. -/
theorem IsNonneg.toUInt64_ofNat_zero_mul {x : Binary64} (hx : x.IsNonneg) :
    (ofNat 0 * x).toUInt64 = 0 := by
  have hamount := isAmount_ofNat (show 0 < 2 ^ 128 by decide)
  by_cases hinfinite : x.isInfinite = true
  · have hmul : ofNat 0 * x = nan := by
      change mul (ofNat 0) x = _
      simp [mul, hamount.isNaN, hx.isNaN, hinfinite, isZero_ofNat_iff]
    rw [hmul]
    decide
  · have hproduct := hamount.mul_eq (hx.isAmount (Bool.eq_false_iff.mpr hinfinite))
    apply UInt64.toNat_inj.mp
    rw [toNat_toUInt64, hproduct, (isNonneg_ofSteps _ _).truncate_eq, steps_ofSteps]
    exact wholeProduct_ofNat_zero x.steps

theorem IsNonneg.toNat_ofNat_mul {x : Binary64} (hx : x.IsNonneg) {n : Nat} (hn : n < 2 ^ 128) :
    (ofNat n * x).toUInt64.toNat = wholeProduct (ofNat n).steps x.steps := by
  by_cases hzero : n = 0
  · rw [hzero, hx.toUInt64_ofNat_zero_mul, wholeProduct_ofNat_zero, UInt64.toNat_zero]
  · have hone := stepsInOne_le_steps_ofNat (Nat.pos_of_ne_zero hzero)
    rw [toNat_toUInt64, (isAmount_ofNat hn).mul_nonneg_eq hone hx,
      (isNonneg_ofSteps _ _).truncate_eq, steps_ofSteps, wholeProduct]

/-- The whole part of a product grows with both factors. -/
theorem IsNonneg.ofNat_mul_mono {x y : Binary64} (hx : x.IsNonneg) (hy : y.IsNonneg) {m n : Nat}
    (hmn : m ≤ n) (hn : n < 2 ^ 128) (hxy : x.magnitude ≤ y.magnitude) :
    (ofNat m * x).toUInt64 ≤ (ofNat n * y).toUInt64 := by
  rw [UInt64.le_iff_toNat_le, hx.toNat_ofNat_mul (Nat.lt_of_le_of_lt hmn hn),
    hy.toNat_ofNat_mul hn]
  exact wholeProduct_mono (steps_ofNat_mono hmn) (stepsOf_strictMono.monotone hxy)

end Binary64

end QuoteFeed
