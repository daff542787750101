import QuoteFeed.Proofs.Wire.Decoding

/-! # What decoding changes and what it depends on

Decoding moves the cursor on and replaces the quote in one slot. The new quote is made from the
fields of the payload, the moment and the number alone: nothing that the pool held before shows in
it, and no byte after the fields does. -/

namespace QuoteFeed

/-! ## Pushing -/

namespace SlotRing

variable {α : Type}

@[simp] theorem capacity_push (r : SlotRing α) (a : α) : (r.push a).2.capacity = r.capacity :=
  r.acquire.2.capacity_modify r.head fun _ => a

theorem toNat_cursor_push (r : SlotRing α) (a : α) :
    (r.push a).2.cursor.toNat = (r.cursor.toNat + 1) % 2 ^ 64 :=
  UInt64.toNat_add r.cursor 1

theorem get?_push (r : SlotRing α) (a : α) (slot : Nat) :
    (r.push a).2.get? slot = if slot = r.head then some a else r.get? slot := by
  by_cases h : slot = r.head
  · rw [if_pos h, h, r.get?_push_head]
  · change (r.acquire.2.modify r.head fun _ => a).get? slot = _
    rw [if_neg h, get?_modify, if_neg (Ne.symm h), get?_acquire]

end SlotRing

/-! ## What a quote is made from -/

/-- The payloads have the same mandatory fields, and both or neither are long enough for timing
markers. -/
structure Wire.SameFields (payload other : Payload) : Prop where
  mandatory : payload.take 28 = other.take 28
  full : 44 ≤ payload.length ↔ 44 ≤ other.length

namespace Wire.SameFields

variable {payload other : Payload}

theorem le_length (h : SameFields payload other) (hle : 28 ≤ payload.length) :
    28 ≤ other.length := by
  have hlength := congrArg List.length h.mandatory
  simp only [List.length_take] at hlength
  omega

theorem take_eq (h : SameFields payload other) {n : Nat} (hle : n ≤ 28) :
    payload.take n = other.take n := by
  have htake : ∀ bytes : Payload, bytes.take n = (bytes.take 28).take n := by
    intro bytes
    rw [List.take_take, Nat.min_eq_left hle]
  rw [htake, h.mandatory, ← htake]

theorem numberAt_eq (h : SameFields payload other) {offset : Nat} (hle : offset + 4 ≤ 28) :
    numberAt payload offset = numberAt other offset := by
  rw [numberAt, numberAt, List.take_drop, List.take_drop, h.take_eq hle]

end Wire.SameFields

/-- What a payload says settles every bit of the quote. -/
theorem Quote.Conveys.eq {quote quote' : Quote} {payload other : Payload} {time : UInt64}
    {number : Nat} (hquote : quote.Conveys payload time number)
    (hquote' : quote'.Conveys other time number) (h : Wire.SameFields payload other) :
    quote = quote' := by
  have hsymbol : quote.symbol = quote'.symbol := by
    apply Bytes.ext
    rw [hquote.symbol, hquote'.symbol, h.take_eq (by decide)]
  have hbid : quote.bid = quote'.bid := by
    rw [hquote.bid, hquote'.bid, h.numberAt_eq (by decide)]
  have hbidShares : quote.bidShares = quote'.bidShares := by
    apply UInt32.toNat_inj.mp
    rw [hquote.bidShares, hquote'.bidShares, h.numberAt_eq (by decide)]
  have hask : quote.ask = quote'.ask := by
    rw [hquote.ask, hquote'.ask, h.numberAt_eq (by decide)]
  have haskShares : quote.askShares = quote'.askShares := by
    apply UInt32.toNat_inj.mp
    rw [hquote.askShares, hquote'.askShares, h.numberAt_eq (by decide)]
  have hspread : quote.spread = quote'.spread := by
    rw [hquote.spread, hquote'.spread, h.numberAt_eq (by decide)]
  have hsequence : quote.sequence = quote'.sequence := by
    apply UInt32.toNat_inj.mp
    rw [hquote.sequence, hquote'.sequence]
  have hflags : quote.flags = quote'.flags := by
    rw [hquote.flags, hquote'.flags]
    simp only [h.full]
  have hpadding : quote.padding = quote'.padding := by
    apply Bytes.ext
    rw [hquote.padding, hquote'.padding]
  have htimestamp := hquote.timestamp.trans hquote'.timestamp.symm
  have hvalid := hquote.valid.trans hquote'.valid.symm
  cases quote
  cases quote'
  simp_all only

/-! ## Decoding -/

namespace Pool

/-- What decoding a payload does to a pool, and what the decoded quote depends on. -/
structure FrameSpec (pool : Pool) (payload : Payload) (time : UInt64) (sequence : UInt32) :
    Prop where
  short : payload.length < 28 → pool.decode payload time sequence = (none, pool)
  /-- Only the cursor and the slot it stands at change. -/
  decoded : 28 ≤ payload.length → ∃ quote next,
    pool.decode payload time sequence =
      (some ⟨pool.cursor.toNat % pool.capacity, quote⟩, next) ∧
    next.cursor.toNat = (pool.cursor.toNat + 1) % 2 ^ 64 ∧
    next.capacity = pool.capacity ∧
    ∀ slot, next.get? slot =
      if slot = pool.cursor.toNat % pool.capacity then some quote else pool.get? slot
  /-- The same fields give the same quote in any other pool, and quotes are the same only if each
  of their bits is. -/
  same : 28 ≤ payload.length → ∀ (pool' : Pool) (payload' : Payload),
    Wire.SameFields payload payload' → ∃ placed placed',
      (pool.decode payload time sequence).1 = some placed ∧
      (pool'.decode payload' time sequence).1 = some placed' ∧ placed.quote = placed'.quote

theorem decode_frameSpec (pool : Pool) (payload : Payload) (time : UInt64) (sequence : UInt32) :
    FrameSpec pool payload time sequence := by
  constructor
  case short =>
    intro hlength
    exact pool.decode_of_lt hlength time sequence
  case decoded =>
    intro hlength
    obtain ⟨view, hview, _⟩ := Wire.View.exists_of?_eq_some hlength
    let quote := view.quote time sequence
    refine ⟨quote, (pool.push quote).2, ?_, pool.toNat_cursor_push quote,
      pool.capacity_push quote, ?_⟩
    · rw [pool.decode_of_view hview, pool.head_eq_mod]
    · intro slot
      rw [pool.get?_push, pool.head_eq_mod]
  case same =>
    intro hlength pool' payload' hsame
    obtain ⟨view, hview, hpayload⟩ := Wire.View.exists_of?_eq_some hlength
    obtain ⟨view', hview', hpayload'⟩ :=
      Wire.View.exists_of?_eq_some (hsame.le_length hlength)
    have hsequence : sequence.toNat = sequence.toNat % 2 ^ 32 :=
      (Nat.mod_eq_of_lt sequence.toNat_lt).symm
    have hquote := view.quote_conveys time hsequence
    have hquote' := view'.quote_conveys time hsequence
    rw [hpayload] at hquote
    rw [hpayload'] at hquote'
    rw [pool.decode_of_view hview, pool'.decode_of_view hview']
    exact ⟨_, _, rfl, rfl, hquote.eq hquote' hsame⟩

end Pool

end QuoteFeed
