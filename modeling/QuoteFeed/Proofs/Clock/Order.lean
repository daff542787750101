import QuoteFeed.Proofs.Binary64.Order
import QuoteFeed.Clock

/-! # Clocks keep order

Whatever ratio a clock is made with, its conversions never turn an order round: not where the
inverse of the ratio is infinite, not where a count has more digits than a number keeps, and not
where the result stops at the end of its range. -/

namespace QuoteFeed

namespace Clock

open Binary64

/-! ## Accepted ratios -/

theorem isRatio_iff {ratio : Binary64} :
    isRatio ratio = true ↔ ratio.isFinite = true ∧ 0 < ratio.value := by
  have hNaN : Binary64.zero.isNaN = false := by decide
  have hrank : Binary64.zero.rank = 0 := by decide
  have horder : ratio.atMost Binary64.zero = (!ratio.isNaN && decide (ratio.rank ≤ 0)) := by
    rw [atMost, hNaN, hrank, Bool.not_false, Bool.and_true]
  rw [value_pos_iff, isRatio, horder]
  by_cases hfinite : ratio.isFinite = true
  · have hNaN := isNaN_of_isFinite hfinite
    by_cases hnegative : ratio.isNegative = true
    · simp [hfinite, hNaN, hnegative, rank]
    · simp [hfinite, hNaN, hnegative, rank]
  · simp [hfinite]

theorem exists_ofRatio_iff {ratio : Binary64} {baseline : UInt64} :
    (∃ c, ofRatio ratio baseline = .ok c) ↔ isRatio ratio = true := by
  rw [ofRatio]
  split <;> simp [*]

theorem ofRatio_eq_ok {ratio : Binary64} {baseline : UInt64} {c : Clock}
    (h : ofRatio ratio baseline = .ok c) : c.nanosPerCycle = ratio ∧ c.baseline = baseline := by
  rw [ofRatio] at h
  split at h
  · cases h
    exact ⟨rfl, rfl⟩
  · cases h

theorem isAmount_nanosPerCycle (c : Clock) : c.nanosPerCycle.IsAmount := by
  obtain ⟨hfinite, hpos⟩ := isRatio_iff.mp c.isRatio_nanosPerCycle
  exact ⟨hfinite, ((value_pos_iff _).mp hpos).1⟩

theorem steps_nanosPerCycle_pos (c : Clock) : 0 < c.nanosPerCycle.steps := by
  obtain ⟨_, hpos⟩ := isRatio_iff.mp c.isRatio_nanosPerCycle
  exact stepsOf_strictMono ((value_pos_iff _).mp hpos).2

/-! ## The inverse ratio -/

theorem steps_one : one.steps = stepsInOne := by
  have hmagnitude : one.magnitude = 1022 * 2 ^ 52 + 2 ^ 52 := by decide
  have hscale : 2 ^ 52 * 2 ^ 1022 = stepsInOne := by
    simp only [stepsInOne, ← Nat.pow_add, Nat.reduceAdd]
  rw [steps, hmagnitude, stepsOf_add (by decide) (.inr (by decide)), hscale]

/-- The inverse is rounded once, and it is infinite where it is beyond the finite values. -/
theorem cyclesPerNano_eq (c : Clock) :
    c.cyclesPerNano = ofSteps false (stepsInOne * stepsInOne) c.nanosPerCycle.steps := by
  have hone : one.IsAmount := ⟨by decide, by decide⟩
  have hdiv := hone.div_eq c.isAmount_nanosPerCycle c.steps_nanosPerCycle_pos
  rw [steps_one] at hdiv
  exact hdiv

theorem isNonneg_cyclesPerNano (c : Clock) : c.cyclesPerNano.IsNonneg := by
  rw [c.cyclesPerNano_eq]
  exact isNonneg_ofSteps ..

theorem magnitude_cyclesPerNano_anti {c d : Clock}
    (h : c.nanosPerCycle.value ≤ d.nanosPerCycle.value) :
    d.cyclesPerNano.magnitude ≤ c.cyclesPerNano.magnitude := by
  have hmagnitude := (c.isAmount_nanosPerCycle.isNonneg.value_le_value_iff
    d.isAmount_nanosPerCycle.isNonneg).mp h
  rw [c.cyclesPerNano_eq, d.cyclesPerNano_eq, magnitude_ofSteps, magnitude_ofSteps]
  apply nearest_mono d.steps_nanosPerCycle_pos c.steps_nanosPerCycle_pos
  exact Nat.mul_le_mul_left _ (stepsOf_strictMono.monotone hmagnitude)

/-! ## Conversions -/

theorem toNat_lt_128 (word : UInt64) : word.toNat < 2 ^ 128 := by
  have hlt := word.toNat_lt
  omega

theorem toNat_toNanos (c : Clock) (cycles : UInt64) : (c.toNanos cycles).toNat =
    wholeProduct (ofNat cycles.toNat).steps c.nanosPerCycle.steps :=
  c.isAmount_nanosPerCycle.isNonneg.toNat_ofNat_mul (toNat_lt_128 cycles)

theorem toNat_toCycles (c : Clock) (nanos : UInt64) : (c.toCycles nanos).toNat =
    wholeProduct (ofNat nanos.toNat).steps c.cyclesPerNano.steps :=
  c.isNonneg_cyclesPerNano.toNat_ofNat_mul (toNat_lt_128 nanos)

theorem toNanos_mono {c d : Clock} (h : c.nanosPerCycle.value ≤ d.nanosPerCycle.value)
    {m n : UInt64} (hmn : m ≤ n) : c.toNanos m ≤ d.toNanos n := by
  have hc := c.isAmount_nanosPerCycle.isNonneg
  have hd := d.isAmount_nanosPerCycle.isNonneg
  exact hc.ofNat_mul_mono hd (UInt64.le_iff_toNat_le.mp hmn) (toNat_lt_128 n)
    ((hc.value_le_value_iff hd).mp h)

theorem toCycles_mono {c d : Clock} (h : c.nanosPerCycle.value ≤ d.nanosPerCycle.value)
    {m n : UInt64} (hmn : m ≤ n) : d.toCycles m ≤ c.toCycles n :=
  d.isNonneg_cyclesPerNano.ofNat_mul_mono c.isNonneg_cyclesPerNano
    (UInt64.le_iff_toNat_le.mp hmn) (toNat_lt_128 n) (magnitude_cyclesPerNano_anti h)

theorem toNanos_zero (c : Clock) : c.toNanos 0 = 0 := by
  apply UInt64.toNat_inj.mp
  rw [toNat_toNanos, UInt64.toNat_zero, wholeProduct_ofNat_zero]

theorem toCycles_zero (c : Clock) : c.toCycles 0 = 0 := by
  apply UInt64.toNat_inj.mp
  rw [toNat_toCycles, UInt64.toNat_zero, wholeProduct_ofNat_zero]

/-! ## Readings -/

theorem toNat_cyclesBetween (since till : UInt64) :
    (cyclesBetween since till).toNat = till.toNat - since.toNat := by
  have hlt := till.toNat_lt
  rw [cyclesBetween, UInt64.toNat_ofNat', Nat.mod_eq_of_lt (by omega)]

theorem cyclesBetween_le (since till : UInt64) : cyclesBetween since till ≤ till := by
  rw [UInt64.le_iff_toNat_le, toNat_cyclesBetween]
  exact Nat.sub_le ..

theorem cyclesBetween_eq_zero {since till : UInt64} (h : till ≤ since) :
    cyclesBetween since till = 0 := by
  apply UInt64.toNat_inj.mp
  rw [toNat_cyclesBetween]
  exact Nat.sub_eq_zero_of_le (UInt64.le_iff_toNat_le.mp h)

/-- What a clock does to the order of counts, and of readings. -/
structure OrderSpec (c : Clock) : Prop where
  toNanos_zero : c.toNanos 0 = 0
  toCycles_zero : c.toCycles 0 = 0
  toNanos_mono : ∀ m n, m ≤ n → c.toNanos m ≤ c.toNanos n
  toCycles_mono : ∀ m n, m ≤ n → c.toCycles m ≤ c.toCycles n
  /-- If a cycle is longer, it makes more nanoseconds, and fewer cycles make the same time. -/
  ratio : ∀ d : Clock, c.nanosPerCycle.value ≤ d.nanosPerCycle.value →
    ∀ n, c.toNanos n ≤ d.toNanos n ∧ d.toCycles n ≤ c.toCycles n
  now : ∀ readings : List UInt64, readings.Pairwise (· ≤ ·) →
    (readings.map c.now).Pairwise (· ≤ ·)
  elapsed_le : ∀ reading, c.elapsed reading ≤ c.now reading
  elapsed_eq_zero : ∀ reading, reading ≤ c.baseline → c.elapsed reading = 0
  stopwatch_le : ∀ (w : Stopwatch) (reading : UInt64), w.elapsed c reading ≤ c.now reading
  stopwatch_eq_zero : ∀ (w : Stopwatch) (reading : UInt64), reading ≤ w.start →
    w.elapsed c reading = 0

theorem orderSpec (c : Clock) : c.OrderSpec := by
  have hmono : ∀ m n, m ≤ n → c.toNanos m ≤ c.toNanos n := fun m n hmn =>
    toNanos_mono le_rfl hmn
  have hsince : ∀ since reading, c.toNanos (cyclesBetween since reading) ≤ c.now reading := by
    intro since reading
    exact hmono _ _ (cyclesBetween_le since reading)
  have hzero : ∀ since reading, reading ≤ since → c.toNanos (cyclesBetween since reading) = 0 := by
    intro since reading hle
    rw [cyclesBetween_eq_zero hle, c.toNanos_zero]
  constructor
  case toNanos_zero => exact c.toNanos_zero
  case toCycles_zero => exact c.toCycles_zero
  case toNanos_mono => exact hmono
  case toCycles_mono =>
    intro m n hmn
    exact toCycles_mono le_rfl hmn
  case ratio =>
    intro d hle n
    exact ⟨toNanos_mono hle (UInt64.le_refl n), toCycles_mono hle (UInt64.le_refl n)⟩
  case now =>
    intro readings hreadings
    exact List.pairwise_map.mpr (hreadings.imp (hmono _ _))
  case elapsed_le => exact hsince c.baseline
  case elapsed_eq_zero => exact hzero c.baseline
  case stopwatch_le => exact fun w => hsince w.start
  case stopwatch_eq_zero => exact fun w => hzero w.start

/-- A clock can be made exactly from the finite values above zero, and every clock that is made
keeps order. -/
theorem ofRatio_orderSpec (ratio : Binary64) (baseline : UInt64) :
    ((∃ c, ofRatio ratio baseline = .ok c) ↔ ratio.isFinite = true ∧ 0 < ratio.value) ∧
      ∀ c, ofRatio ratio baseline = .ok c →
        c.nanosPerCycle = ratio ∧ c.baseline = baseline ∧ c.OrderSpec := by
  refine ⟨exists_ofRatio_iff.trans isRatio_iff, ?_⟩
  intro c hc
  obtain ⟨hratio, hbaseline⟩ := ofRatio_eq_ok hc
  exact ⟨hratio, hbaseline, c.orderSpec⟩

/-- The inverse of the smallest ratio is infinite: no time takes no cycles, and any other time takes
as many as can be counted. -/
theorem ofRatio_orderSpec_smallest :
    ∃ c, ofRatio ⟨1⟩ 7 = .ok c ∧ c.cyclesPerNano = infinity false ∧ c.toCycles 0 = 0 ∧
      c.toCycles 1 = 0xFFFFFFFFFFFFFFFF ∧ c.OrderSpec := by
  have hmade : ofRatio ⟨1⟩ 7 = .ok ⟨⟨1⟩, 7, by decide⟩ := rfl
  exact ⟨⟨⟨1⟩, 7, by decide⟩, hmade, by decide +kernel, by decide +kernel, by decide +kernel,
    ((ofRatio_orderSpec ⟨1⟩ 7).2 _ hmade).2.2⟩

end Clock

end QuoteFeed
