import QuoteFeed.Proofs.Wire.Format
import QuoteFeed.Wire.Check

/-! # Judging a payload

A payload may be checked, viewed, decoded, asked for its timing or compared with a symbol. Each of
these looks at the bytes on its own, and they never disagree about what the payload holds. -/

namespace QuoteFeed

namespace Wire

variable {payload : Payload}

theorem check_of_lt (h : payload.length < 28) :
    check payload = .error (.tooShort 28 payload.length) :=
  if_pos h

theorem check_eq_tooShort_iff {need size : Nat} :
    check payload = .error (.tooShort need size) ↔
      payload.length < 28 ∧ need = 28 ∧ size = payload.length := by
  by_cases h : payload.length < 28
  · simp [check_of_lt h, h, eq_comm]
  · have hlong : ¬ payload.length < minSize := h
    rw [check, if_neg hlong]
    split <;> simp [h]

theorem isWellFormed_iff : isWellFormed payload = true ↔ check payload = .ok () := by
  rw [isWellFormed]
  split <;> simp [*]

/-- What is matched lies within the bytes that become the symbol of a decoded quote. -/
theorem matchesSymbol_iff (target : List UInt8) :
    matchesSymbol payload target = true ↔ target.take 8 <+: payload.take 8 := by
  have hlength : (target.take 8).length ≤ 8 := List.length_take_le 8 target
  rw [matchesSymbol, List.isPrefixOf_iff_prefix, List.prefix_take_iff]
  exact ⟨fun h => ⟨h, hlength⟩, And.left⟩

/-! ## Payloads of the full size -/

namespace View

theorem exists_full_iff :
    (∃ view, of? payload = some view ∧ 44 ≤ view.payload.length) ↔ 44 ≤ payload.length := by
  constructor
  · rintro ⟨view, hview, hfull⟩
    rw [← of?_eq_some_iff.mp hview]
    exact hfull
  · intro hfull
    obtain ⟨view, hview, rfl⟩ := exists_of?_eq_some (by omega : 28 ≤ payload.length)
    exact ⟨view, hview, hfull⟩

theorem isSome_markers?_iff (v : View) : v.markers?.isSome = true ↔ 44 ≤ v.payload.length := by
  by_cases h : 44 ≤ v.payload.length
  · simp [v.markers?_of_le h, h]
  · simp [v.markers?_of_lt (Nat.lt_of_not_le h), h]

theorem hasExtendedTiming_quote (v : View) (time : UInt64) (sequence : UInt32) :
    (v.quote time sequence).hasExtendedTiming = v.hasTiming := by
  have hflags : (v.quote time sequence).flags =
      if v.hasTiming then Flag.extendedTiming else 0 := rfl
  rw [Quote.hasExtendedTiming, Quote.hasFlag, hflags]
  cases v.hasTiming <;> decide

end View

theorem timing?_eq_some_iff {timing : Timing} :
    timing? payload = some timing ↔
      ∃ view, View.of? payload = some view ∧
        ∃ markers, view.markers? = some markers ∧ markers.timing = timing := by
  simp [timing?, Option.bind_eq_some_iff]

theorem exists_timing?_iff :
    (∃ timing, timing? payload = some timing) ↔ 44 ≤ payload.length := by
  rw [← View.exists_full_iff]
  constructor
  · rintro ⟨timing, htiming⟩
    obtain ⟨view, hview, markers, hmarkers, _⟩ := timing?_eq_some_iff.mp htiming
    have hsome : view.markers?.isSome = true := by rw [hmarkers, Option.isSome_some]
    exact ⟨view, hview, view.isSome_markers?_iff.mp hsome⟩
  · rintro ⟨view, hview, hfull⟩
    obtain ⟨markers, hmarkers⟩ := Option.isSome_iff_exists.mp (view.isSome_markers?_iff.mpr hfull)
    exact ⟨markers.timing, timing?_eq_some_iff.mpr ⟨view, hview, markers, hmarkers, rfl⟩⟩

end Wire

/-! ## Decoding among the others -/

namespace Pool

variable {pool : Pool} {payload : Payload} {time : UInt64} {sequence : UInt32}

theorem decode_eq_none_iff :
    (pool.decode payload time sequence).1 = none ↔ payload.length < 28 := by
  by_cases h : payload.length < 28
  · simp [pool.decode_of_lt h, h]
  · obtain ⟨view, hview, _⟩ := Wire.View.exists_of?_eq_some (Nat.le_of_not_lt h)
    simp [pool.decode_of_view hview, h]

theorem decode_eq_some_iff {placed : Placed} :
    (pool.decode payload time sequence).1 = some placed ↔
      ∃ view, Wire.View.of? payload = some view ∧
        placed = ⟨pool.head, view.quote time sequence⟩ := by
  cases hview : Wire.View.of? payload with
  | none => simp [pool.decode_of_lt (Wire.View.of?_eq_none_iff.mp hview)]
  | some view => simp [pool.decode_of_view hview, eq_comm]

theorem exists_extendedTiming_iff :
    (∃ placed, (pool.decode payload time sequence).1 = some placed ∧
      placed.quote.hasExtendedTiming = true) ↔ 44 ≤ payload.length := by
  rw [← Wire.View.exists_full_iff]
  constructor
  · rintro ⟨placed, hplaced, hflag⟩
    obtain ⟨view, hview, rfl⟩ := decode_eq_some_iff.mp hplaced
    rw [view.hasExtendedTiming_quote, view.hasTiming_iff] at hflag
    exact ⟨view, hview, hflag⟩
  · rintro ⟨view, hview, hfull⟩
    refine ⟨_, decode_eq_some_iff.mpr ⟨view, hview, rfl⟩, ?_⟩
    rw [view.hasExtendedTiming_quote, view.hasTiming_iff]
    exact hfull

/-- What the ways to look at a payload have in common, whatever pool it is decoded into. -/
structure JudgementSpec (pool : Pool) (payload : Payload) (time : UInt64) (sequence : UInt32) :
    Prop where
  short : (pool.decode payload time sequence).1 = none ↔
    ∃ need size, Wire.check payload = .error (.tooShort need size)
  unviewed : (pool.decode payload time sequence).1 = none ↔ Wire.View.of? payload = none
  wellFormed : Wire.isWellFormed payload = true →
    ∃ placed, (pool.decode payload time sequence).1 = some placed
  flagged : (∃ timing, Wire.timing? payload = some timing) ↔
    ∃ placed, (pool.decode payload time sequence).1 = some placed ∧
      placed.quote.hasExtendedTiming = true
  viewed : (∃ timing, Wire.timing? payload = some timing) ↔
    ∃ view, Wire.View.of? payload = some view ∧ view.hasTiming = true ∧
      view.markers?.isSome = true
  full : (∃ timing, Wire.timing? payload = some timing) ↔ 44 ≤ payload.length
  /-- A view that has timing has markers, and the other way round. -/
  hasTiming : ∀ view, Wire.View.of? payload = some view →
    (view.hasTiming = true ↔ view.markers?.isSome = true)
  markers : ∀ timing, Wire.timing? payload = some timing →
    ∃ view, Wire.View.of? payload = some view ∧ view.markers? = some timing.markers
  /-- A symbol is matched exactly if the quote that the pool then holds begins with it, as far as
  eight bytes go. -/
  matched : ∀ placed, (pool.decode payload time sequence).1 = some placed →
    (pool.decode payload time sequence).2.get? placed.slot = some placed.quote ∧
    ∀ target, Wire.matchesSymbol payload target = true ↔
      target.take (min 8 target.length) <+: placed.quote.symbol.toList

theorem decode_judgementSpec (pool : Pool) (payload : Payload) (time : UInt64)
    (sequence : UInt32) : JudgementSpec pool payload time sequence := by
  have hfull : (∃ timing, Wire.timing? payload = some timing) ↔ 44 ≤ payload.length :=
    Wire.exists_timing?_iff
  constructor
  case short => simp [decode_eq_none_iff, Wire.check_eq_tooShort_iff]
  case unviewed => exact decode_eq_none_iff.trans Wire.View.of?_eq_none_iff.symm
  case wellFormed =>
    -- Also a payload that does not pass may be decoded, so this is no equivalence.
    intro hwell
    apply Option.ne_none_iff_exists'.mp
    intro hnone
    have hshort := Wire.check_eq_tooShort_iff.mpr ⟨decode_eq_none_iff.mp hnone, rfl, rfl⟩
    rw [Wire.isWellFormed_iff.mp hwell] at hshort
    cases hshort
  case flagged => exact hfull.trans exists_extendedTiming_iff.symm
  case viewed =>
    rw [hfull, ← Wire.View.exists_full_iff]
    simp [Wire.View.isSome_markers?_iff, Wire.View.hasTiming_iff]
  case full => exact hfull
  case hasTiming =>
    intro view _
    rw [view.hasTiming_iff, view.isSome_markers?_iff]
  case markers =>
    intro timing htiming
    obtain ⟨view, hview, markers, hmarkers, rfl⟩ := Wire.timing?_eq_some_iff.mp htiming
    exact ⟨view, hview, hmarkers⟩
  case matched =>
    intro placed hplaced
    obtain ⟨view, hview, rfl⟩ := decode_eq_some_iff.mp hplaced
    rw [pool.decode_of_view hview]
    refine ⟨pool.get?_push_head _, ?_⟩
    intro target
    have hsymbol : (view.quote time sequence).symbol.toList = payload.take 8 := by
      rw [← Wire.View.of?_eq_some_iff.mp hview]
      rfl
    rw [Wire.matchesSymbol_iff, hsymbol, ← List.take_eq_take_min]

end Pool

end QuoteFeed
