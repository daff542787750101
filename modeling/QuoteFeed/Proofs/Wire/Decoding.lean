import QuoteFeed.Pool

/-! # Decoding

What a decoded quote says about its payload, stated on the bytes of the payload alone, and what
decoding does to a pool. -/

namespace QuoteFeed

/-! ## Words of a payload -/

/-- The number that bytes spell, the highest first. -/
def Wire.spelled (bytes : List UInt8) : Nat :=
  bytes.foldl (fun n b => 256 * n + b.toNat) 0

/-- The number that the four bytes at an offset spell. -/
def Wire.numberAt (payload : Payload) (offset : Nat) : Nat :=
  Wire.spelled ((payload.drop offset).take 4)

theorem Wire.ofBigEndian_eq_spelled (bytes : List UInt8) :
    Bytes.ofBigEndian bytes = Wire.spelled bytes := by
  rw [Bytes.ofBigEndian, Wire.spelled, ← List.foldr_reverse]
  induction bytes.reverse with
  | nil => rfl
  | cons b bytes ih => rw [Bytes.ofLittleEndian, List.foldr_cons, ih, Nat.add_comm]

theorem Wire.View.mandatory_eq_ofNat (view : Wire.View) (offset : Nat)
    (h : offset + 4 ≤ Wire.minSize) :
    view.mandatory offset h = UInt32.ofNat (Wire.numberAt view.payload offset) := by
  rw [mandatory, Wire.wordAt, Wire.ofBigEndian_eq_spelled, Wire.numberAt]

theorem Wire.toNat_wordAt {payload : Payload} {offset : Nat} (h : offset + 4 ≤ payload.length) :
    (Wire.wordAt payload offset h).toNat = Wire.numberAt payload offset := by
  have hlt := Bytes.ofBigEndian_lt ((payload.drop offset).take 4)
  have hlength : ((payload.drop offset).take 4).length = 4 := by
    simp only [List.length_take, List.length_drop]
    omega
  rw [hlength, Wire.ofBigEndian_eq_spelled] at hlt
  rw [Wire.wordAt, Wire.ofBigEndian_eq_spelled, UInt32.toNat_ofNat', Nat.mod_eq_of_lt (by exact hlt),
    Wire.numberAt]

theorem Wire.View.toNat_mandatory (view : Wire.View) (offset : Nat)
    (h : offset + 4 ≤ Wire.minSize) :
    (view.mandatory offset h).toNat = Wire.numberAt view.payload offset :=
  Wire.toNat_wordAt _

/-! ## The quote of a payload -/

/-- The quote tells what the payload says, that it arrived at `time`, and that it was the packet
with the given number, counted from zero. -/
structure Quote.Conveys (quote : Quote) (payload : Payload) (time : UInt64) (number : Nat) :
    Prop where
  symbol : quote.symbol.toList = payload.take 8
  bid : quote.bid = Price.ofRaw (UInt32.ofNat (Wire.numberAt payload 8))
  bidShares : quote.bidShares.toNat = Wire.numberAt payload 12
  ask : quote.ask = Price.ofRaw (UInt32.ofNat (Wire.numberAt payload 16))
  askShares : quote.askShares.toNat = Wire.numberAt payload 20
  spread : quote.spread = Price.ofRaw (UInt32.ofNat (Wire.numberAt payload 24))
  timestamp : quote.timestamp = time
  sequence : quote.sequence.toNat = number % 2 ^ 32
  valid : quote.valid = 1
  flags : quote.flags = if 44 ≤ payload.length then Flag.extendedTiming else 0
  padding : quote.padding.toList = List.replicate 10 0

theorem Wire.View.hasTiming_iff (view : Wire.View) :
    view.hasTiming = true ↔ 44 ≤ view.payload.length :=
  decide_eq_true_iff

theorem Wire.View.quote_conveys (view : Wire.View) (time : UInt64) {sequence : UInt32}
    {number : Nat} (h : sequence.toNat = number % 2 ^ 32) :
    (view.quote time sequence).Conveys view.payload time number where
  symbol := rfl
  bid := congrArg Price.ofRaw (view.mandatory_eq_ofNat 8 (by decide))
  bidShares := view.toNat_mandatory 12 (by decide)
  ask := congrArg Price.ofRaw (view.mandatory_eq_ofNat 16 (by decide))
  askShares := view.toNat_mandatory 20 (by decide)
  spread := congrArg Price.ofRaw (view.mandatory_eq_ofNat 24 (by decide))
  timestamp := rfl
  sequence := h
  valid := rfl
  flags := by simp only [quote, view.hasTiming_iff]
  padding := rfl

theorem Quote.Conveys.isSynthetic_eq_false {quote : Quote} {payload : Payload} {time : UInt64}
    {number : Nat} (h : quote.Conveys payload time number) : quote.isSynthetic = false := by
  rw [isSynthetic, hasFlag, h.flags]
  split <;> rfl

/-! ## What decoding does to a pool -/

theorem Wire.View.exists_of?_eq_some {payload : Payload} (h : 28 ≤ payload.length) :
    ∃ view, Wire.View.of? payload = some view ∧ view.payload = payload := by
  refine ⟨⟨payload, h⟩, ?_, rfl⟩
  exact Wire.View.of?_eq_some_iff.mpr rfl

/-- A payload that is too short leaves the pool as it is. -/
theorem Pool.decode_of_lt (pool : Pool) {payload : Payload} (h : payload.length < 28)
    (time : UInt64) (sequence : UInt32) : pool.decode payload time sequence = (none, pool) := by
  rw [Pool.decode, Wire.View.of?_eq_none_iff.mpr h]

/-- Any other payload takes the next slot, and the quote there becomes that of the payload. -/
theorem Pool.decode_of_view (pool : Pool) {payload : Payload} {view : Wire.View}
    (h : Wire.View.of? payload = some view) (time : UInt64) (sequence : UInt32) :
    pool.decode payload time sequence =
      (some ⟨pool.head, view.quote time sequence⟩, (pool.push (view.quote time sequence)).2) := by
  rw [Pool.decode, h]
  rfl

end QuoteFeed
