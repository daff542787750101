import Mathlib.Algebra.Order.BigOperators.Group.List
import QuoteFeed.Proofs.Binary64.Operations
import QuoteFeed.Proofs.Latency.Ranking

/-! # Means and tail ratios

A mean comes from the exact sum of the samples by three roundings: of the sum, of the count and of
the quotient. It may leave the samples only where the sum has more digits than are kept. The ratio
of two percentiles is rounded as well, and rounding keeps their order. -/

namespace QuoteFeed.Latency

open Binary64

/-! ## Sums -/

/-- The exact sum of the samples. -/
def total (samples : List UInt64) : Nat :=
  (samples.map UInt64.toNat).sum

theorem total_eq_of_perm {samples other : List UInt64} (h : other.Perm samples) :
    total other = total samples :=
  (h.map UInt64.toNat).sum_nat

section bounds

variable {samples : List UInt64}

theorem total_le_length_mul {bound : Nat} (h : ∀ sample ∈ samples, sample.toNat ≤ bound) :
    total samples ≤ samples.length * bound := by
  have hsum := List.sum_le_card_nsmul (samples.map UInt64.toNat) bound (by simpa using h)
  rwa [List.length_map, nsmul_eq_mul, Nat.cast_id] at hsum

theorem length_mul_le_total {bound : Nat} (h : ∀ sample ∈ samples, bound ≤ sample.toNat) :
    samples.length * bound ≤ total samples := by
  have hsum := List.card_nsmul_le_sum (samples.map UInt64.toNat) bound (by simpa using h)
  rwa [List.length_map, nsmul_eq_mul, Nat.cast_id] at hsum

theorem toNat_le_total {sample : UInt64} (h : sample ∈ samples) : sample.toNat ≤ total samples :=
  List.le_sum_of_mem (List.mem_map_of_mem h)

/-- Two words hold the sum of no more samples than a word has values. -/
theorem total_lt (h : samples.length ≤ 2 ^ 64) : total samples < 2 ^ 128 := by
  have hword : ∀ sample ∈ samples, sample.toNat ≤ 2 ^ 64 - 1 := by
    intro sample _
    exact Nat.le_sub_one_of_lt sample.toNat_lt
  have hsum := total_le_length_mul hword
  omega

end bounds

namespace Summary

theorem meanOf_eq (samples : List UInt64) :
    meanOf samples = ofNat (total samples) / ofNat samples.length := by
  rw [meanOf, total, List.sum_eq_foldl, List.foldl_map]

theorem mean_of_ofSamples? {samples : List UInt64} {s : Summary} (h : ofSamples? samples = some s) :
    s.mean = meanOf samples := by
  have hmean : s.mean = meanOf (sort samples) := by
    rw [ofSamples?, summarize, ofSorted?] at h
    split at h
    case isTrue => cases h; rfl
    case isFalse => cases h
  rw [hmean, meanOf_eq, meanOf_eq, length_sort, total_eq_of_perm (sort_perm samples)]

/-! ## The mean -/

section mean

variable {samples : List UInt64}

theorem isAmount_meanOf (hpos : 0 < samples.length) (h : samples.length < 2 ^ 64) :
    (meanOf samples).IsAmount := by
  rw [meanOf_eq]
  exact (ofNat_div_within (total_lt h.le) hpos h).1

theorem abs_meanOf_sub_le (hpos : 0 < samples.length) (h : samples.length < 2 ^ 64) :
    |(meanOf samples).value - total samples / samples.length| ≤
      total samples / samples.length / 2 ^ 51 := by
  rw [meanOf_eq]
  exact abs_ofNat_div_sub_le (total_lt h.le) hpos h

/-- Where the count has too many digits to be kept and the sum has not, the sum is below the count,
and nothing but zero is below all samples. -/
theorem le_value_meanOf {bound : Nat} (hpos : 0 < samples.length) (h : samples.length < 2 ^ 64)
    (htotal : total samples < 2 ^ 53) (hbound : ∀ sample ∈ samples, bound ≤ sample.toNat) :
    (bound : ℚ) ≤ (meanOf samples).value := by
  have hsum := length_mul_le_total hbound
  have hcount := stepsInOne_pos.trans_le (stepsInOne_le_steps_ofNat hpos)
  have hle : bound ≤ total samples := (Nat.le_mul_of_pos_left bound hpos).trans hsum
  rw [meanOf_eq]
  apply (isAmount_ofNat (by omega)).le_value_div (isAmount_ofNat (by omega)) hcount (by omega)
  by_cases hexact : samples.length < 2 ^ 53
  · rw [steps_ofNat hexact, steps_ofNat htotal, ← Nat.mul_assoc, Nat.mul_comm bound]
    exact Nat.mul_le_mul_right stepsInOne hsum
  · have hzero : bound = 0 := by
      by_contra hne
      have hlarge := Nat.le_mul_of_pos_right samples.length (Nat.pos_of_ne_zero hne)
      omega
    rw [hzero, Nat.zero_mul]
    exact Nat.zero_le _

theorem value_meanOf_le {bound : Nat} (hpos : 0 < samples.length) (h : samples.length < 2 ^ 64)
    (htotal : total samples < 2 ^ 53) (hlt : bound < 2 ^ 53)
    (hbound : ∀ sample ∈ samples, sample.toNat ≤ bound) :
    (meanOf samples).value ≤ bound := by
  have hsum := total_le_length_mul hbound
  have hcount := stepsInOne_pos.trans_le (stepsInOne_le_steps_ofNat hpos)
  rw [meanOf_eq]
  apply (isAmount_ofNat (by omega)).value_div_le (isAmount_ofNat (by omega)) hcount hlt
  by_cases hexact : samples.length < 2 ^ 53
  · rw [steps_ofNat hexact, steps_ofNat htotal, ← Nat.mul_assoc, Nat.mul_comm bound]
    exact Nat.mul_le_mul_right stepsInOne hsum
  by_cases hzero : bound = 0
  · have hnone : total samples = 0 := by simpa [hzero] using hsum
    rw [hnone, steps_ofNat (by decide), Nat.zero_mul]
    exact Nat.zero_le _
  · -- The sum is below the count, and the bound is at least one.
    calc (ofNat (total samples)).steps ≤ (ofNat samples.length).steps :=
          steps_ofNat_mono (by omega)
      _ ≤ bound * (ofNat samples.length).steps :=
          Nat.le_mul_of_pos_left _ (Nat.pos_of_ne_zero hzero)

end mean

/-! ## The tail ratio -/

theorem toNat_p50_pos {s : Summary} (h : s.p50 ≠ 0) : 0 < s.p50.toNat :=
  UInt64.lt_iff_toNat_lt.mp (UInt64.pos_iff_ne_zero.mpr h)

theorem isAmount_tailRatio (s : Summary) : s.tailRatio.IsAmount := by
  have hword := s.p99.toNat_lt
  rw [tailRatio]
  split
  case isTrue => exact ⟨by decide, by decide⟩
  case isFalse hp50 =>
    exact (ofNat_div_within (by omega) (toNat_p50_pos hp50) s.p50.toNat_lt).1

theorem abs_tailRatio_sub_le {s : Summary} (hp50 : s.p50 ≠ 0) :
    |s.tailRatio.value - s.p99.toNat / s.p50.toNat| ≤ s.p99.toNat / s.p50.toNat / 2 ^ 51 := by
  have hword := s.p99.toNat_lt
  rw [tailRatio, if_neg hp50]
  exact abs_ofNat_div_sub_le (by omega) (toNat_p50_pos hp50) s.p50.toNat_lt

/-- Percentiles that are in order stay so when they are rounded. -/
theorem one_le_value_tailRatio {s : Summary} (hp50 : s.p50 ≠ 0) (h : s.p50 ≤ s.p99) :
    1 ≤ s.tailRatio.value := by
  have hmedian := s.p50.toNat_lt
  have htail := s.p99.toNat_lt
  have hsteps := steps_ofNat_mono (UInt64.le_iff_toNat_le.mp h)
  have hpos := stepsInOne_pos.trans_le (stepsInOne_le_steps_ofNat (toNat_p50_pos hp50))
  rw [tailRatio, if_neg hp50, ← Nat.cast_one]
  apply (isAmount_ofNat (by omega)).le_value_div (isAmount_ofNat (by omega)) hpos (by decide)
  rwa [Nat.one_mul]

/-! ## Both -/

/-- What the mean and the tail ratio tell about the samples. -/
structure MeanSpec (samples : List UInt64) (s : Summary) : Prop where
  /-- Two words hold the sum all along. -/
  summed : ∀ taken, taken <+: sort samples → total taken < 2 ^ 128
  isAmount_mean : s.mean.IsAmount
  mean_error : |s.mean.value - total samples / samples.length| ≤
    total samples / samples.length / 2 ^ 51
  mean_between : total samples < 2 ^ 53 →
    (s.min.toNat : ℚ) ≤ s.mean.value ∧ s.mean.value ≤ s.max.toNat
  isAmount_tailRatio : s.tailRatio.IsAmount
  tailRatio_eq_zero : s.p50 = 0 → s.tailRatio = Binary64.zero
  tailRatio_error : s.p50 ≠ 0 →
    |s.tailRatio.value - s.p99.toNat / s.p50.toNat| ≤ s.p99.toNat / s.p50.toNat / 2 ^ 51
  one_le_tailRatio : s.p50 ≠ 0 → 1 ≤ s.tailRatio.value

/-- Of every list of samples that can be held there is a mean and a tail ratio. -/
theorem ofSamples?_meanSpec {samples : List UInt64} (hne : samples ≠ [])
    (h : samples.length * 999 < 2 ^ 64) :
    ∃ s, ofSamples? samples = some s ∧ MeanSpec samples s := by
  have hpos := List.length_pos_iff.mpr hne
  have hlength : samples.length < 2 ^ 64 := by omega
  obtain ⟨s, hs, hdescribes⟩ := exists_describes hne h
  have hmean := mean_of_ofSamples? hs
  refine ⟨s, hs, ?_⟩
  constructor
  case summed =>
    intro taken htaken
    have hle := htaken.length_le
    rw [length_sort] at hle
    exact total_lt (hle.trans hlength.le)
  case isAmount_mean => exact hmean ▸ isAmount_meanOf hpos hlength
  case mean_error => exact hmean ▸ abs_meanOf_sub_le hpos hlength
  case mean_between =>
    intro htotal
    have hmax := toNat_le_total hdescribes.max.mem
    rw [hmean]
    constructor
    · apply le_value_meanOf hpos hlength htotal
      intro sample hsample
      exact UInt64.le_iff_toNat_le.mp (hdescribes.min_le sample hsample)
    · apply value_meanOf_le hpos hlength htotal (hmax.trans_lt htotal)
      intro sample hsample
      exact UInt64.le_iff_toNat_le.mp (hdescribes.le_max sample hsample)
  case isAmount_tailRatio => exact s.isAmount_tailRatio
  case tailRatio_eq_zero =>
    intro hp50
    rw [tailRatio, if_pos hp50]
  case tailRatio_error => exact abs_tailRatio_sub_le
  case one_le_tailRatio =>
    intro hp50
    exact one_le_value_tailRatio hp50 hdescribes.ascending.2.1

/-- Of two samples whose sum is beyond one word, the mean is right to the last digit. -/
theorem ofSamples?_meanSpec_huge :
    let samples : List UInt64 := [0x8000000000000000, 0x8000000000000000]
    samples ≠ [] ∧ samples.length * 999 < 2 ^ 64 ∧ total samples = 2 ^ 64 ∧
      meanOf samples = ofNat (2 ^ 63) ∧
      ∃ s, ofSamples? samples = some s ∧ MeanSpec samples s :=
  ⟨by decide, by decide, by decide, by decide +kernel, ofSamples?_meanSpec (by decide) (by decide)⟩

end Summary

end QuoteFeed.Latency
