import QuoteFeed.Proofs.Binary64.Error
import QuoteFeed.Proofs.Price.Recovery
import QuoteFeed.Proofs.Wire.Format

/-! # The accuracy of prices

A price is the exact quotient of its raw price up to a part of `2 ^ 52`: the multiplier is a little
too large, and the product is rounded once. That is far less than what one raw price is apart from
the next, and of a quote even the three errors together stay below a billionth. -/

namespace QuoteFeed.Price

open Binary64

/-! ## One price -/

theorem ofRaw_within (raw : UInt32) :
    Within 1 (raw.toNat * (7378697629483821 / 2 ^ 66)) (ofRaw raw).value := by
  obtain ⟨hamount, happroximates⟩ := ofRaw_approximates raw
  have hwithin := (happroximates.within Nat.one_pos).div_right cast_stepsInOne_pos
  have hgrain : (grain : ℚ) ≠ 0 := Nat.cast_ne_zero.mpr grain_pos.ne'
  have hone : (stepsInOne : ℚ) = 2 ^ 66 * grain := by
    rw [stepsInOne_eq, Nat.cast_mul, Nat.cast_pow, Nat.cast_ofNat]
  have hexact : ((7378697629483821 * (raw.toNat * grain) : ℕ) : ℚ) / (1 : ℕ) / stepsInOne =
      raw.toNat * (7378697629483821 / 2 ^ 66) := by
    rw [hone]
    push_cast
    field_simp
  rw [hexact] at hwithin
  rw [hamount.isNonneg.value_eq]
  exact hwithin

theorem abs_value_ofRaw_sub_le (raw : UInt32) :
    |(ofRaw raw).value - raw.toNat / 10000| ≤ raw.toNat / 10000 / 2 ^ 52 := by
  obtain ⟨hge, hle⟩ := ofRaw_within raw
  have hnonneg : (0 : ℚ) ≤ raw.toNat := Nat.cast_nonneg _
  rw [pow_one, roundoff] at hge hle
  rw [abs_le]
  constructor <;> linarith

/-- The prices of different words are further apart than their errors. -/
theorem value_ofRaw_lt {raw other : UInt32} (h : raw < other) :
    (ofRaw raw).value < (ofRaw other).value := by
  have hnext : (raw.toNat : ℚ) + 1 ≤ other.toNat := by
    exact_mod_cast UInt32.lt_iff_toNat_lt.mp h
  have hmax := cast_toNat_le other
  have hraw := abs_le.mp (abs_value_ofRaw_sub_le raw)
  have hother := abs_le.mp (abs_value_ofRaw_sub_le other)
  linarith [hraw.2, hother.1]

theorem ofRaw_zero : ofRaw 0 = Binary64.zero := by
  decide +kernel

/-! ## The prices of a quote -/

/-- How the spread of a quote goes with its two sides. -/
structure SpreadSpec (quote : Quote) (bidRaw askRaw : UInt32) : Prop where
  bid : quote.bid = ofRaw bidRaw
  ask : quote.ask = ofRaw askRaw
  isAmount : quote.spread.IsAmount
  close : bidRaw ≤ askRaw →
    |quote.spread.value - (quote.ask.value - quote.bid.value)| < 1 / 10 ^ 9
  crossed : askRaw < bidRaw → quote.spread = Binary64.zero

theorem toNat_spreadRaw (name : String) (bidRaw bidShares askRaw askShares : UInt32) :
    (Wire.Packet.ofSides name bidRaw bidShares askRaw askShares).spreadRaw.toNat =
      askRaw.toNat - bidRaw.toNat := by
  have hlt := askRaw.toNat_lt
  rw [Wire.Packet.ofSides, UInt32.toNat_ofNat', Nat.mod_eq_of_lt (by omega)]

theorem abs_spread_sub_lt {bidRaw askRaw spreadRaw : UInt32} (h : bidRaw ≤ askRaw)
    (hspread : spreadRaw.toNat = askRaw.toNat - bidRaw.toNat) :
    |(ofRaw spreadRaw).value - ((ofRaw askRaw).value - (ofRaw bidRaw).value)| < 1 / 10 ^ 9 := by
  have hsum : (spreadRaw.toNat : ℚ) + bidRaw.toNat = askRaw.toNat := by
    have hle := UInt32.le_iff_toNat_le.mp h
    exact_mod_cast (show spreadRaw.toNat + bidRaw.toNat = askRaw.toNat by omega)
  have hmax := cast_toNat_le askRaw
  have hspread := abs_le.mp (abs_value_ofRaw_sub_le spreadRaw)
  have hask := abs_le.mp (abs_value_ofRaw_sub_le askRaw)
  have hbid := abs_le.mp (abs_value_ofRaw_sub_le bidRaw)
  rw [abs_lt]
  constructor <;> linarith [hspread.1, hspread.2, hask.1, hask.2, hbid.1, hbid.2]

theorem quote_spreadSpec {view : Wire.View} {name : String}
    {bidRaw bidShares askRaw askShares : UInt32}
    (h : view.packet = .ofSides name bidRaw bidShares askRaw askShares) (time : UInt64)
    (sequence : UInt32) : SpreadSpec (view.quote time sequence) bidRaw askRaw := by
  have hbid : view.bidRaw = bidRaw := congrArg Wire.Packet.bidRaw h
  have hask : view.askRaw = askRaw := congrArg Wire.Packet.askRaw h
  have hspread : view.spreadRaw.toNat = askRaw.toNat - bidRaw.toNat := by
    rw [← toNat_spreadRaw name bidRaw bidShares askRaw askShares, ← h]
    rfl
  constructor
  case bid => exact congrArg ofRaw hbid
  case ask => exact congrArg ofRaw hask
  case isAmount => exact (ofRaw_approximates view.spreadRaw).1
  case close =>
    intro hle
    rw [← hbid, ← hask] at hle hspread
    exact abs_spread_sub_lt hle hspread
  case crossed =>
    intro hlt
    have hzero : view.spreadRaw = 0 := by
      apply UInt32.toNat_inj.mp
      rw [hspread, UInt32.toNat_zero]
      exact Nat.sub_eq_zero_of_le (Nat.le_of_lt (UInt32.lt_iff_toNat_lt.mp hlt))
    exact (congrArg ofRaw hzero).trans ofRaw_zero

/-- Prices are finite and accurate and never turn an order round, and the quote of a packet that
was made from two sides has the spread of its prices, none if the sides are crossed. -/
theorem ofRaw_accuracySpec :
    (∀ raw : UInt32, (ofRaw raw).IsAmount ∧
      |(ofRaw raw).value - raw.toNat / 10000| < 1 / 10 ^ 9) ∧
    (∀ raw other : UInt32, raw < other → (ofRaw raw).value < (ofRaw other).value) ∧
    ∀ (name : String) (bidRaw bidShares askRaw askShares : UInt32) (pool : Pool) (time : UInt64)
      (sequence : UInt32), ∃ placed next,
        pool.decode (Wire.Packet.ofSides name bidRaw bidShares askRaw askShares).encode time
          sequence = (some placed, next) ∧ SpreadSpec placed.quote bidRaw askRaw := by
  refine ⟨?_, fun raw other => value_ofRaw_lt, ?_⟩
  · intro raw
    refine ⟨(ofRaw_approximates raw).1, (abs_value_ofRaw_sub_le raw).trans_lt ?_⟩
    have hmax := cast_toNat_le raw
    linarith
  · intro name bidRaw bidShares askRaw askShares pool time sequence
    obtain ⟨view, hview, hpacket⟩ :=
      Wire.View.of?_encode (.ofSides name bidRaw bidShares askRaw askShares)
    exact ⟨_, _, pool.decode_of_view hview time sequence, quote_spreadSpec hpacket time sequence⟩

end QuoteFeed.Price
