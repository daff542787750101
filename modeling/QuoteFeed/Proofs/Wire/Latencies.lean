import QuoteFeed.Proofs.Binary64.Operations
import QuoteFeed.Proofs.Wire.Judgement

/-! # Latencies

A latency is the time between two readings of a counter that wraps, so it depends on the ticks between
them alone and not on where the counter stood. It grows with the ticks, and it is their exact time up
to the error of a constant and of one rounding. -/

namespace QuoteFeed.Wire

open Binary64

/-! ## Ticks -/

/-- The microseconds that ticks take. -/
def elapsed (ticks : UInt32) : Binary64 :=
  latency 0 ticks

theorem latency_add (since ticks : UInt32) : latency since (since + ticks) = elapsed ticks := by
  have hgap : since + ticks - since = ticks := by rw [UInt32.add_comm, UInt32.add_sub_cancel]
  rw [elapsed, latency, latency, hgap, UInt32.sub_zero]

theorem latency_add_add (since till ticks : UInt32) :
    latency (since + ticks) (till + ticks) = latency since till := by
  have hgap : till + ticks - (since + ticks) = till - since := by grind
  rw [latency, latency, hgap]

/-! ## The time of ticks -/

theorem nanosPerTick_eq : nanosPerTick = ofNat 8 := by
  decide +kernel

theorem isAmount_microsPerNano : microsPerNano.IsAmount :=
  ⟨by decide, by decide⟩

theorem value_microsPerNano : microsPerNano.value = 4611686018427388 / 2 ^ 62 := by
  have hmagnitude : microsPerNano.magnitude = 1012 * 2 ^ 52 + 4611686018427388 := by decide
  have hsteps : microsPerNano.steps = 4611686018427388 * 2 ^ 1012 := by
    rw [steps, hmagnitude, stepsOf_add (by decide) (.inr (by decide))]
  have hone : stepsInOne = 2 ^ 62 * 2 ^ 1012 := by
    simp only [stepsInOne, ← Nat.pow_add, Nat.reduceAdd]
  have hgrain := Nat.two_pow_pos 1012
  rw [isAmount_microsPerNano.value_eq, hsteps, hone]
  generalize 2 ^ 1012 = grain at hgrain
  have hgrain : (grain : ℚ) ≠ 0 := Nat.cast_ne_zero.mpr hgrain.ne'
  push_cast
  exact mul_div_mul_right _ _ hgrain

theorem elapsed_eq (ticks : UInt32) : elapsed ticks = ofNat (ticks.toNat * 8) * microsPerNano := by
  have hticks := ticks.toNat_lt
  rw [elapsed, latency, UInt32.sub_zero, nanosPerTick_eq,
    ofNat_mul_ofNat (by omega) (by decide) (by omega)]

theorem elapsed_within (ticks : UInt32) : (elapsed ticks).IsAmount ∧
    Within 1 (ticks.toNat * 8 * (4611686018427388 / 2 ^ 62)) (elapsed ticks).value := by
  have hticks := ticks.toNat_lt
  have hwithin := ofNat_mul_within (n := ticks.toNat * 8) (by omega) isAmount_microsPerNano
    (by rw [value_microsPerNano]; norm_num)
  rwa [← elapsed_eq, value_microsPerNano, Nat.cast_mul, Nat.cast_ofNat] at hwithin

/-- The exact time of ticks, eight thousandths of a microsecond each. -/
def exactElapsed (ticks : UInt32) : ℚ :=
  8 / 1000 * ticks.toNat

theorem abs_value_elapsed_sub_le (ticks : UInt32) :
    |(elapsed ticks).value - exactElapsed ticks| ≤ exactElapsed ticks / 2 ^ 52 := by
  obtain ⟨hge, hle⟩ := (elapsed_within ticks).2
  have hnonneg : (0 : ℚ) ≤ ticks.toNat := Nat.cast_nonneg _
  rw [pow_one, roundoff] at hge hle
  rw [exactElapsed, abs_le]
  constructor <;> linarith

theorem exactElapsed_div_le (ticks : UInt32) :
    exactElapsed ticks / 2 ^ 52 ≤ exactElapsed ticks / 2 ^ 51 := by
  have hnonneg : (0 : ℚ) ≤ ticks.toNat := Nat.cast_nonneg _
  rw [exactElapsed]
  linarith

/-- More ticks take more time: what one tick adds is far more than the errors. -/
theorem value_elapsed_lt {ticks more : UInt32} (h : ticks < more) :
    (elapsed ticks).value < (elapsed more).value := by
  have hnext : (ticks.toNat : ℚ) + 1 ≤ more.toNat := by
    exact_mod_cast UInt32.lt_iff_toNat_lt.mp h
  have hmax := cast_toNat_le more
  have hticks := abs_le.mp (abs_value_elapsed_sub_le ticks)
  have hmore := abs_le.mp (abs_value_elapsed_sub_le more)
  rw [exactElapsed] at hticks hmore
  linarith [hticks.2, hmore.1]

/-! ## The sum -/

theorem steps_elapsed_le (ticks : UInt32) : (elapsed ticks).steps ≤ 2 ^ 32 * stepsInOne := by
  have hamount := (elapsed_within ticks).1
  have herror := abs_le.mp (abs_value_elapsed_sub_le ticks)
  have hmax := cast_toNat_le ticks
  apply (hamount.steps_le_iff (2 ^ 32)).mpr
  rw [exactElapsed] at herror
  push_cast
  linarith [herror.2]

theorem total_within (ticks more : UInt32) : (elapsed ticks + elapsed more).IsAmount ∧
    Within 1 ((elapsed ticks).value + (elapsed more).value) (elapsed ticks + elapsed more).value := by
  have hticks := steps_elapsed_le ticks
  have hmore := steps_elapsed_le more
  exact (elapsed_within ticks).1.add_within (elapsed_within more).1 (by omega)

theorem abs_value_total_sub_le (ticks more : UInt32) :
    |(elapsed ticks + elapsed more).value - (exactElapsed ticks + exactElapsed more)| ≤
      (exactElapsed ticks + exactElapsed more) / 2 ^ 51 := by
  obtain ⟨hge, hle⟩ := (total_within ticks more).2
  have hticks := abs_le.mp (abs_value_elapsed_sub_le ticks)
  have hmore := abs_le.mp (abs_value_elapsed_sub_le more)
  rw [pow_one, roundoff] at hge hle
  rw [abs_le]
  constructor <;> linarith [hticks.1, hticks.2, hmore.1, hmore.2]

/-! ## Markers in a payload -/

namespace Markers

/-- The payload is long enough for markers, and its words there spell these. -/
structure LieIn (m : Markers) (payload : Payload) : Prop where
  full : 44 ≤ payload.length
  parseStart : numberAt payload 28 = m.parseStart.toNat
  parseWrite : numberAt payload 32 = m.parseWrite.toNat
  outputRead : numberAt payload 36 = m.outputRead.toNat
  transmitStart : numberAt payload 40 = m.transmitStart.toNat

/-- The readings of a counter that stood at `parseStart` and at `outputRead`, and the readings so
many ticks after each. -/
def ofTicks (parseStart outputRead parseTicks transmitTicks : UInt32) : Markers where
  parseStart := parseStart
  parseWrite := parseStart + parseTicks
  outputRead := outputRead
  transmitStart := outputRead + transmitTicks

/-- The readings of a counter that is ahead by `parse` for the first two and by `transmit` for the
others. -/
def ahead (m : Markers) (parse transmit : UInt32) : Markers where
  parseStart := m.parseStart + parse
  parseWrite := m.parseWrite + parse
  outputRead := m.outputRead + transmit
  transmitStart := m.transmitStart + transmit

end Markers

theorem wordAt_eq {payload : Payload} {offset : Nat} (h : offset + 4 ≤ payload.length)
    {word : UInt32} (hword : numberAt payload offset = word.toNat) :
    wordAt payload offset h = word := by
  rw [wordAt, ofBigEndian_eq_spelled, ← numberAt, hword, UInt32.ofNat_toNat]

theorem timing?_of_lieIn {m : Markers} {payload : Payload} (h : m.LieIn payload) :
    timing? payload = some m.timing := by
  have hfull := h.full
  obtain ⟨view, hview, rfl⟩ := View.exists_of?_eq_some (show 28 ≤ payload.length by omega)
  rw [timing?_eq_some_iff]
  refine ⟨view, hview, m, ?_, rfl⟩
  rw [view.markers?_of_le hfull, wordAt_eq _ h.parseStart, wordAt_eq _ h.parseWrite,
    wordAt_eq _ h.outputRead, wordAt_eq _ h.transmitStart]

theorem timing_ofTicks (parseStart outputRead parseTicks transmitTicks : UInt32) :
    (Markers.ofTicks parseStart outputRead parseTicks transmitTicks).timing =
      { markers := .ofTicks parseStart outputRead parseTicks transmitTicks
        parse := elapsed parseTicks
        transmit := elapsed transmitTicks
        total := elapsed parseTicks + elapsed transmitTicks } := by
  simp [Markers.timing, Markers.ofTicks, latency_add]

/-- A counter that is ahead shows the same times, to the last bit. -/
theorem timing_ahead (m : Markers) (parse transmit : UInt32) :
    (m.ahead parse transmit).timing = { m.timing with markers := m.ahead parse transmit } := by
  simp [Markers.timing, Markers.ahead, latency_add_add]

/-! ## Latencies of a payload -/

/-- What a timing has to do with the ticks that passed between its markers. -/
structure Timing.Measures (timing : Timing)
    (parseStart outputRead parseTicks transmitTicks : UInt32) : Prop where
  markers : timing.markers = .ofTicks parseStart outputRead parseTicks transmitTicks
  isAmount : timing.parse.IsAmount ∧ timing.transmit.IsAmount ∧ timing.total.IsAmount
  parse : |timing.parse.value - exactElapsed parseTicks| ≤ exactElapsed parseTicks / 2 ^ 51
  transmit : |timing.transmit.value - exactElapsed transmitTicks| ≤
    exactElapsed transmitTicks / 2 ^ 51
  total : |timing.total.value - (exactElapsed parseTicks + exactElapsed transmitTicks)| ≤
    (exactElapsed parseTicks + exactElapsed transmitTicks) / 2 ^ 51
  /-- Wherever the counter stood, as many ticks give the same latencies. -/
  ahead : ∀ (other : Payload) (k n : UInt32), (timing.markers.ahead k n).LieIn other →
    timing? other = some { timing with markers := timing.markers.ahead k n }
  increasing : ∀ (other : Payload) (parseStart' outputRead' parseTicks' transmitTicks' : UInt32),
    (Markers.ofTicks parseStart' outputRead' parseTicks' transmitTicks').LieIn other →
      ∃ timing', timing? other = some timing' ∧
        (parseTicks < parseTicks' → timing.parse.value < timing'.parse.value) ∧
        (transmitTicks < transmitTicks' → timing.transmit.value < timing'.transmit.value)

/-- The markers of a payload are read as they are, and the latencies measure the ticks between
them. -/
theorem timing?_measures {payload : Payload}
    {parseStart outputRead parseTicks transmitTicks : UInt32}
    (h : (Markers.ofTicks parseStart outputRead parseTicks transmitTicks).LieIn payload) :
    ∃ timing, timing? payload = some timing ∧
      timing.Measures parseStart outputRead parseTicks transmitTicks := by
  refine ⟨_, timing?_of_lieIn h, ?_⟩
  constructor
  case markers => rfl
  case isAmount =>
    rw [timing_ofTicks]
    exact ⟨(elapsed_within _).1, (elapsed_within _).1, (total_within _ _).1⟩
  case parse =>
    rw [timing_ofTicks]
    exact (abs_value_elapsed_sub_le _).trans (exactElapsed_div_le _)
  case transmit =>
    rw [timing_ofTicks]
    exact (abs_value_elapsed_sub_le _).trans (exactElapsed_div_le _)
  case total =>
    rw [timing_ofTicks]
    exact abs_value_total_sub_le ..
  case ahead =>
    intro other k n hother
    rw [timing?_of_lieIn hother]
    exact congrArg some (timing_ahead ..)
  case increasing =>
    intro other parseStart' outputRead' parseTicks' transmitTicks' hother
    refine ⟨_, timing?_of_lieIn hother, ?_⟩
    rw [timing_ofTicks, timing_ofTicks]
    exact ⟨value_elapsed_lt, value_elapsed_lt⟩

/-- The counter wraps between the first two markers: a microsecond passes, and then none. -/
theorem timing?_measures_wrap :
    let payload : Payload :=
      .replicate 28 0 ++ .replicate 4 0xFF ++ [0, 0, 0, 124] ++ .replicate 9 0
    (Markers.ofTicks 0xFFFFFFFF 0 125 0).LieIn payload ∧
      ∃ timing, timing? payload = some timing ∧ timing.Measures 0xFFFFFFFF 0 125 0 := by
  intro payload
  have hlie : (Markers.ofTicks 0xFFFFFFFF 0 125 0).LieIn payload :=
    ⟨by decide, by decide, by decide, by decide, by decide⟩
  exact ⟨hlie, timing?_measures hlie⟩

end QuoteFeed.Wire
