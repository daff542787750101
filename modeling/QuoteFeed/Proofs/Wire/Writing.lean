import QuoteFeed.Proofs.Wire.Format

/-! # Writing into a buffer

A packet is written into a buffer as a whole or not at all. Where it fits, its fields fill the front
without a gap, so nothing that was there shows through, and what is behind them stays. -/

namespace QuoteFeed.Wire.Packet

theorem writeInto_of_lt (p : Packet) {buffer : List UInt8} (h : buffer.length < p.size) :
    p.writeInto buffer = (none, buffer) :=
  if_pos h

theorem length_writeInto (p : Packet) (buffer : List UInt8) :
    (p.writeInto buffer).2.length = buffer.length := by
  by_cases h : buffer.length < p.size
  · rw [p.writeInto_of_lt h]
  · have hle := Nat.le_of_not_lt h
    rw [p.writeInto_of_le hle, List.length_append, length_encode, List.length_drop]
    omega

/-- The second packet covers the first one as far as it goes. -/
theorem writeInto_writeInto (p q : Packet) {buffer : List UInt8} (hp : p.size ≤ buffer.length)
    (hq : q.size ≤ buffer.length) :
    q.writeInto (p.writeInto buffer).2 = (some q.size,
      q.encode ++ (p.encode.drop q.size ++ buffer.drop (max p.size q.size))) := by
  have hfits : q.size ≤ (p.writeInto buffer).2.length := by
    rw [p.length_writeInto]
    exact hq
  have hbehind : p.size + (q.size - p.size) = max p.size q.size := by omega
  rw [q.writeInto_of_le hfits, p.writeInto_of_le hp, List.drop_append, length_encode,
    List.drop_drop, hbehind]

/-- How a packet is written into a buffer of any length and content. -/
structure WritingSpec (p : Packet) (buffer : List UInt8) : Prop where
  none_iff : (p.writeInto buffer).1 = none ↔ buffer.length < p.size
  /-- Also a buffer that the mandatory fields alone would fit is left as it is. -/
  untouched : (p.writeInto buffer).1 = none → (p.writeInto buffer).2 = buffer
  some_iff : ∀ n, (p.writeInto buffer).1 = some n ↔ p.size ≤ buffer.length ∧ n = p.size
  length : (p.writeInto buffer).2.length = buffer.length
  front : p.size ≤ buffer.length → (p.writeInto buffer).2.take p.size = p.encode
  behind : p.size ≤ buffer.length → (p.writeInto buffer).2.drop p.size = buffer.drop p.size
  /-- Of an earlier packet, what is longer than the later one stays. -/
  again : p.size ≤ buffer.length → ∀ q : Packet, q.size ≤ buffer.length →
    q.writeInto (p.writeInto buffer).2 = (some q.size,
      q.encode ++ (p.encode.drop q.size ++ buffer.drop (max p.size q.size)))

theorem writeInto_writingSpec (p : Packet) (buffer : List UInt8) : WritingSpec p buffer := by
  constructor
  case none_iff =>
    by_cases h : buffer.length < p.size
    · simp [p.writeInto_of_lt h, h]
    · simp [p.writeInto_of_le (Nat.le_of_not_lt h), h]
  case untouched =>
    intro hnone
    by_cases h : buffer.length < p.size
    · rw [p.writeInto_of_lt h]
    · rw [p.writeInto_of_le (Nat.le_of_not_lt h)] at hnone
      cases hnone
  case some_iff =>
    intro n
    by_cases h : buffer.length < p.size
    · simp [p.writeInto_of_lt h, Nat.not_le_of_lt h]
    · have hle := Nat.le_of_not_lt h
      simp [p.writeInto_of_le hle, hle, eq_comm]
  case length => exact p.length_writeInto buffer
  case front =>
    intro hle
    rw [p.writeInto_of_le hle]
    exact List.take_left' p.length_encode
  case behind =>
    intro hle
    rw [p.writeInto_of_le hle]
    exact List.drop_left' p.length_encode
  case again =>
    intro hp q hq
    exact p.writeInto_writeInto q hp hq

end QuoteFeed.Wire.Packet
