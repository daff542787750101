import QuoteFeed.Proofs.Price.Recovery
import QuoteFeed.Proofs.Wire.Format

/-! # Payloads are recovered from quotes

A quote keeps its prices as rounded numbers. The raw prices come back all the same, so that a quote,
together with the timing markers, is written as the payload it was decoded from. -/

namespace QuoteFeed

/-- The packet that tells what the quote tells, with the markers of the given timing. -/
def Quote.packet (quote : Quote) (timing : Option Wire.Timing) : Wire.Packet where
  symbol := quote.symbol
  bidRaw := Price.toRaw quote.bid
  bidShares := quote.bidShares
  askRaw := Price.toRaw quote.ask
  askShares := quote.askShares
  spreadRaw := Price.toRaw quote.spread
  markers := timing.map Wire.Timing.markers

theorem Wire.View.map_markers_timing? {payload : Payload} {view : Wire.View}
    (h : Wire.View.of? payload = some view) :
    (Wire.timing? payload).map Wire.Timing.markers = view.markers? := by
  rw [Wire.timing?, h]
  cases hmarkers : view.markers? <;> simp [Wire.Markers.timing, hmarkers]

theorem Wire.View.packet_quote {payload : Payload} {view : Wire.View}
    (h : Wire.View.of? payload = some view) (time : UInt64) (sequence : UInt32) :
    (view.quote time sequence).packet (Wire.timing? payload) = view.packet := by
  simp only [Quote.packet, Wire.View.quote, Price.toRaw_ofRaw, view.map_markers_timing? h,
    Wire.View.packet]

/-- Decoding loses nothing of the fields and the markers: what it gives is written as the payload,
up to where its fields end. In particular no raw price is lost. -/
theorem Pool.decode_recovers :
    (∀ (pool : Pool) (payload : Payload) (time : UInt64) (sequence : UInt32),
      28 ≤ payload.length →
        ∃ placed next, pool.decode payload time sequence = (some placed, next) ∧
          (placed.quote.packet (Wire.timing? payload)).encode =
            payload.take (if 44 ≤ payload.length then 44 else 28)) ∧
    ∀ raw : UInt32, Price.toRaw (Price.ofRaw raw) = raw := by
  refine ⟨?_, Price.toRaw_ofRaw⟩
  intro pool payload time sequence hlength
  obtain ⟨view, hview, hpayload⟩ := Wire.View.exists_of?_eq_some hlength
  refine ⟨_, _, pool.decode_of_view hview time sequence, ?_⟩
  rw [Wire.View.packet_quote hview, view.encode_packet, hpayload]

/-- Of a payload of 45 bytes, all but the last one come back. -/
theorem Pool.decode_recovers_small :
    let pool : Pool := .replicate 64 .blank (by decide) (by decide)
    let payload : Payload := (List.range 45).map UInt8.ofNat
    28 ≤ payload.length ∧
      ∃ placed next, pool.decode payload 7 1 = (some placed, next) ∧
        (placed.quote.packet (Wire.timing? payload)).encode = payload.take 44 := by
  intro pool payload
  have hlength : 28 ≤ payload.length := by decide
  exact ⟨hlength, Pool.decode_recovers.1 pool payload 7 1 hlength⟩

end QuoteFeed
