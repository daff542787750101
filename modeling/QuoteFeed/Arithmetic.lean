/-! # Arithmetic on whole numbers

Words that count, and quotients that are rounded. `roundHalfEven` is the one place where a fraction
becomes a whole number; both binary rounding and decimal text use it.
-/

namespace QuoteFeed

-- Powers of whole numbers are the built-in ones, whatever a module imports besides and whether or
-- not the type of the exponent is known, so that a statement means the same wherever it is read.
attribute [scoped instance (10000)] instPowNat
attribute [default_instance (10000)] instPowNat

/-- A word that counts keeps the count modulo `2 ^ 64`, also when it wraps. -/
theorem toNat_add_one_eq_mod {x : UInt64} {n : Nat} (h : x.toNat = n % 2 ^ 64) :
    (x + 1).toNat = (n + 1) % 2 ^ 64 := by
  rw [UInt64.toNat_add, h]
  exact Nat.mod_add_mod ..

/-! ## Quotients rounded to nearest -/

/-- `num / den` rounded to the nearest whole number, a half going to the even one. -/
def roundHalfEven (num den : Nat) : Nat :=
  let quotient := num / den
  let twice := 2 * (num % den)
  if twice < den ∨ twice = den ∧ quotient % 2 = 0 then quotient else quotient + 1

/-- Rounding moves a fraction by at most a half. -/
theorem roundHalfEven_bounds (num : Nat) {den : Nat} (h : 0 < den) :
    2 * num ≤ 2 * (den * roundHalfEven num den) + den ∧
      2 * (den * roundHalfEven num den) ≤ 2 * num + den := by
  have hdiv := Nat.div_add_mod num den
  have hmod := Nat.mod_lt num h
  unfold roundHalfEven
  simp only
  split
  · omega
  · rw [Nat.mul_add]
    omega

/-- A whole number is its own rounding. -/
theorem roundHalfEven_mul_left (n : Nat) {den : Nat} (h : 0 < den) :
    roundHalfEven (den * n) den = n := by
  simp [roundHalfEven, Nat.mul_div_cancel_left n h, h]

end QuoteFeed
