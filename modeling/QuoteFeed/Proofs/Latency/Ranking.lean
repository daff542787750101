import QuoteFeed.Latency.Summary

/-! # Percentiles are ranks

Sorting settles which sample stands at which place, whatever order the samples came in. A sample at
a place has at least as many samples on either side as the place says, equal ones counted on both. -/

namespace QuoteFeed.Latency

/-! ## Sorting -/

theorem sort_perm (samples : List UInt64) : (sort samples).Perm samples :=
  List.mergeSort_perm samples _

@[simp] theorem length_sort (samples : List UInt64) : (sort samples).length = samples.length :=
  (sort_perm samples).length_eq

theorem sort_pairwise (samples : List UInt64) : (sort samples).Pairwise (· ≤ ·) := by
  have htrans : ∀ a b c : UInt64, decide (a ≤ b) = true → decide (b ≤ c) = true →
      decide (a ≤ c) = true := by
    intro a b c hab hbc
    exact decide_eq_true (UInt64.le_trans (of_decide_eq_true hab) (of_decide_eq_true hbc))
  have htotal : ∀ a b : UInt64, (decide (a ≤ b) || decide (b ≤ a)) = true := by
    intro a b
    simpa using UInt64.le_total a b
  exact (List.pairwise_mergeSort htrans htotal samples).imp of_decide_eq_true

/-- The order in which samples were taken is lost. -/
theorem sort_eq_of_perm {samples other : List UInt64} (h : other.Perm samples) :
    sort other = sort samples := by
  have hperm : (sort other).Perm (sort samples) :=
    ((sort_perm other).trans h).trans (sort_perm samples).symm
  apply hperm.eq_of_pairwise _ (sort_pairwise other) (sort_pairwise samples)
  intro a b _ _ hab hba
  exact UInt64.le_antisymm hab hba

theorem sort_eq_of_pairwise {samples sorted : List UInt64} (hperm : sorted.Perm samples)
    (h : sorted.Pairwise (· ≤ ·)) : sort samples = sorted := by
  rw [← sort_eq_of_perm hperm]
  exact List.mergeSort_of_pairwise (h.imp decide_eq_true)

theorem sort_eq_nil_iff {samples : List UInt64} : sort samples = [] ↔ samples = [] := by
  rw [← List.length_eq_zero_iff, length_sort, List.length_eq_zero_iff]

/-! ## Ranks -/

/-- The sample can stand at a place, counted from zero, when the samples are put in order. -/
structure Ranks (samples : List UInt64) (place : Nat) (sample : UInt64) : Prop where
  mem : sample ∈ samples
  atMost : place + 1 ≤ samples.countP (· ≤ sample)
  atLeast : samples.length - place ≤ samples.countP (sample ≤ ·)

theorem Ranks.perm {samples other : List UInt64} {place : Nat} {sample : UInt64}
    (h : Ranks other place sample) (hperm : other.Perm samples) : Ranks samples place sample where
  mem := hperm.mem_iff.mp h.mem
  atMost := hperm.countP_eq _ ▸ h.atMost
  atLeast := hperm.length_eq ▸ hperm.countP_eq _ ▸ h.atLeast

/-- What stands before all the others is the least. -/
theorem Ranks.le_of_mem {samples : List UInt64} {sample other : UInt64} (h : Ranks samples 0 sample)
    (hother : other ∈ samples) : sample ≤ other := by
  have hall : samples.countP (sample ≤ ·) = samples.length :=
    Nat.le_antisymm List.countP_le_length h.atLeast
  exact of_decide_eq_true (List.countP_eq_length.mp hall other hother)

/-- What stands behind all the others is the greatest. -/
theorem Ranks.ge_of_mem {samples : List UInt64} {sample other : UInt64}
    (h : Ranks samples (samples.length - 1) sample) (hother : other ∈ samples) :
    other ≤ sample := by
  have hpos := List.length_pos_of_mem h.mem
  have hatMost := h.atMost
  rw [Nat.sub_add_cancel hpos] at hatMost
  have hall : samples.countP (· ≤ sample) = samples.length :=
    Nat.le_antisymm List.countP_le_length hatMost
  exact of_decide_eq_true (List.countP_eq_length.mp hall other hother)

theorem le_of_pairwise {sorted : List UInt64} (h : sorted.Pairwise (· ≤ ·)) {i j : Nat}
    (hij : i ≤ j) (hj : j < sorted.length) : sorted[i] ≤ sorted[j] := by
  rcases Nat.lt_or_eq_of_le hij with hlt | rfl
  · exact List.pairwise_iff_getElem.mp h i j _ hj hlt
  · exact UInt64.le_refl _

theorem ranks_of_pairwise {sorted : List UInt64} (h : sorted.Pairwise (· ≤ ·)) {i : Nat}
    (hi : i < sorted.length) : Ranks sorted i sorted[i] := by
  refine ⟨List.getElem_mem hi, ?_, ?_⟩
  · have hall : (sorted.take (i + 1)).countP (· ≤ sorted[i]) = (sorted.take (i + 1)).length := by
      apply List.countP_eq_length.mpr
      intro sample hsample
      obtain ⟨j, hj, rfl⟩ := List.mem_take_iff_getElem.mp hsample
      exact decide_eq_true (le_of_pairwise h (by omega) hi)
    have hsome := (List.take_sublist (i + 1) sorted).countP_le (p := (· ≤ sorted[i]))
    rw [hall, List.length_take] at hsome
    omega
  · have hall : (sorted.drop i).countP (sorted[i] ≤ ·) = (sorted.drop i).length := by
      apply List.countP_eq_length.mpr
      intro sample hsample
      obtain ⟨j, hj, rfl⟩ := List.mem_drop_iff_getElem.mp hsample
      exact decide_eq_true (le_of_pairwise h (by omega) (by omega))
    have hsome := (List.drop_sublist i sorted).countP_le (p := (sorted[i] ≤ ·))
    rw [hall, List.length_drop] at hsome
    exact hsome

/-- The sample at a place of the sorted samples, and its rank among those that were taken. -/
structure Stands (samples : List UInt64) (place : Nat) (sample : UInt64) : Prop
    extends Ranks samples place sample where
  sorted : (sort samples)[place]? = some sample

theorem stands_of_getElem? {samples : List UInt64} {place : Nat} {sample : UInt64}
    (h : (sort samples)[place]? = some sample) : Stands samples place sample := by
  obtain ⟨hlt, rfl⟩ := List.getElem?_eq_some_iff.mp h
  have hranks := ranks_of_pairwise (sort_pairwise samples) hlt
  exact ⟨hranks.perm (sort_perm samples), h⟩

theorem Stands.le {samples : List UInt64} {i j : Nat} {sample other : UInt64}
    (h : Stands samples i sample) (hother : Stands samples j other) (hij : i ≤ j) :
    sample ≤ other := by
  obtain ⟨hi, rfl⟩ := List.getElem?_eq_some_iff.mp h.sorted
  obtain ⟨hj, rfl⟩ := List.getElem?_eq_some_iff.mp hother.sorted
  exact le_of_pairwise (sort_pairwise samples) hij hj

/-! ## Summaries -/

namespace Summary

theorem place_eq {size num : Nat} (h : size * num < 2 ^ 64) (den : Nat) :
    place size num den = size * num / den := by
  rw [place, Nat.mod_eq_of_lt h]

theorem exists_ofSorted?_eq {sorted : List UInt64} (h : sorted ≠ []) :
    ∃ s, ofSorted? sorted = some s ∧
      sorted[0]? = some s.min ∧ sorted[sorted.length - 1]? = some s.max ∧
      sorted[place sorted.length 1 2]? = some s.p50 ∧
      sorted[place sorted.length 99 100]? = some s.p99 ∧
      sorted[place sorted.length 999 1000]? = some s.p999 := by
  have hpos : 0 < sorted.toArray.size := List.length_pos_iff.mpr h
  rw [ofSorted?, dif_pos hpos]
  refine ⟨_, rfl, ?_, ?_, ?_, ?_, ?_⟩ <;>
    simp [percentile]

theorem ofSamples?_eq_none_iff {samples : List UInt64} :
    ofSamples? samples = none ↔ samples = [] := by
  constructor
  · intro hnone
    apply Classical.byContradiction
    intro hne
    obtain ⟨s, hs, _⟩ := exists_ofSorted?_eq (fun hnil => hne (sort_eq_nil_iff.mp hnil))
    rw [ofSamples?, summarize, hs] at hnone
    cases hnone
  · rintro rfl
    rw [ofSamples?, summarize, sort_eq_nil_iff.mpr rfl]
    rfl

/-- What the figures of a summary tell about the samples, the mean apart. -/
structure Describes (s : Summary) (samples : List UInt64) : Prop where
  min : Stands samples 0 s.min
  max : Stands samples (samples.length - 1) s.max
  p50 : Stands samples (samples.length / 2) s.p50
  p99 : Stands samples (samples.length * 99 / 100) s.p99
  p999 : Stands samples (samples.length * 999 / 1000) s.p999
  min_le : ∀ sample ∈ samples, s.min ≤ sample
  le_max : ∀ sample ∈ samples, sample ≤ s.max
  ascending : s.min ≤ s.p50 ∧ s.p50 ≤ s.p99 ∧ s.p99 ≤ s.p999 ∧ s.p999 ≤ s.max

theorem exists_describes {samples : List UInt64} (hne : samples ≠ [])
    (h : samples.length * 999 < 2 ^ 64) :
    ∃ s, ofSamples? samples = some s ∧ s.Describes samples := by
  have hpos := List.length_pos_iff.mpr hne
  obtain ⟨s, hs, hmin, hmax, hp50, hp99, hp999⟩ :=
    exists_ofSorted?_eq (fun hnil => hne (sort_eq_nil_iff.mp hnil))
  rw [length_sort] at hmax hp50 hp99 hp999
  rw [place_eq (by omega)] at hp50 hp99 hp999
  rw [Nat.mul_one] at hp50
  have hmin := stands_of_getElem? hmin
  have hmax := stands_of_getElem? hmax
  have hp50 := stands_of_getElem? hp50
  have hp99 := stands_of_getElem? hp99
  have hp999 := stands_of_getElem? hp999
  refine ⟨s, hs, hmin, hmax, hp50, hp99, hp999, ?_, ?_, ?_⟩
  · intro sample hsample
    exact hmin.toRanks.le_of_mem hsample
  · intro sample hsample
    exact hmax.toRanks.ge_of_mem hsample
  · exact ⟨hmin.le hp50 (by omega), hp50.le hp99 (by omega), hp99.le hp999 (by omega),
      hp999.le hmax (by omega)⟩

/-- How samples are summarised, and what is left of them. -/
structure RankingSpec (samples : List UInt64) : Prop where
  perm : (summarize samples).2.Perm samples
  ascending : (summarize samples).2.Pairwise (· ≤ ·)
  none_iff : (summarize samples).1 = none ↔ samples = []
  describes : ∀ s, (summarize samples).1 = some s → s.Describes samples
  /-- The order in which the samples were taken shows nowhere, not in the mean either. -/
  same : ∀ other : List UInt64, other.Perm samples → summarize other = summarize samples

/-- The places are right as long as no product of a count wraps. -/
theorem summarize_rankingSpec {samples : List UInt64} (h : samples.length * 999 < 2 ^ 64) :
    RankingSpec samples := by
  constructor
  case perm => exact sort_perm samples
  case ascending => exact sort_pairwise samples
  case none_iff => exact ofSamples?_eq_none_iff
  case describes =>
    intro s hs
    change ofSamples? samples = some s at hs
    have hne : samples ≠ [] := by
      intro hnil
      rw [ofSamples?_eq_none_iff.mpr hnil] at hs
      cases hs
    obtain ⟨_, hs', hdescribes⟩ := exists_describes hne h
    rw [hs, Option.some.injEq] at hs'
    exact hs' ▸ hdescribes
  case same =>
    intro other hperm
    rw [summarize, summarize, sort_eq_of_perm hperm]

/-- Of the numbers from one to a hundred, the median is 51 and the last percentile the greatest. -/
theorem summarize_rankingSpec_hundred :
    let ascending := (List.range' 1 100).map UInt64.ofNat
    ascending.reverse.length * 999 < 2 ^ 64 ∧
      (summarize ascending.reverse).1.map (fun s => (s.p50, s.p99)) = some (51, 100) ∧
      RankingSpec ascending.reverse := by
  intro ascending
  have hlength : ascending.reverse.length * 999 < 2 ^ 64 := by decide
  have hsort : sort ascending.reverse = ascending :=
    sort_eq_of_pairwise ascending.reverse_perm.symm (by decide +kernel)
  refine ⟨hlength, ?_, summarize_rankingSpec hlength⟩
  rw [summarize, hsort]
  decide +kernel

end Summary

end QuoteFeed.Latency
