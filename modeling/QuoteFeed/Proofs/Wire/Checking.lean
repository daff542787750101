import QuoteFeed.Proofs.Quote.Trimming

/-! # Checking a payload

A payload that is too short is refused for its length, and any other for the first byte of its
symbol that is not printable. No byte behind the symbol counts. What passes is decoded, and the
symbol of the quote is then read as text without a loss. -/

namespace QuoteFeed

/-! ## Bytes that are characters -/

namespace Utf8

theorem toNat_ofUInt8 (b : UInt8) : (Char.ofUInt8 b).toNat = b.toNat :=
  b.toNat_toUInt32

theorem utf8EncodeChar_ofUInt8 {b : UInt8} (h : b.toNat < 0x80) :
    String.utf8EncodeChar (Char.ofUInt8 b) = [b] := by
  rw [utf8EncodeChar_eq, toNat_ofUInt8]
  simp only [if_pos h, UInt8.ofNat_toNat]

theorem written_map_ofUInt8 {bs : List UInt8} (h : ∀ b ∈ bs, b.toNat < 0x80) :
    written (bs.map Char.ofUInt8) = bs := by
  induction bs with
  | nil => rfl
  | cons b bs ih =>
      obtain ⟨hb, hbs⟩ := List.forall_mem_cons.mp h
      rw [List.map_cons, written_cons, utf8EncodeChar_ofUInt8 hb, ih hbs, List.singleton_append]

theorem decode_of_ascii {bs : List UInt8} (h : ∀ b ∈ bs, b.toNat < 0x80) :
    decode bs = bs.map Char.ofUInt8 := by
  calc
    decode bs = decode (written (bs.map Char.ofUInt8)) := by rw [written_map_ofUInt8 h]
    _ = bs.map Char.ofUInt8 := decode_written _

end Utf8

/-- The symbol is read as ASCII text, and the text is written as the bytes that it was read from. -/
structure Quote.Legible (quote : Quote) : Prop where
  ascii : ∀ c ∈ quote.symbolText.toList, c.toNat < 0x80
  bytes : Utf8.encode quote.symbolText = quote.symbolBytes
  whole : '\uFFFD' ∉ quote.symbolText.toList

theorem Quote.legible_of_ascii {quote : Quote} (h : ∀ b ∈ quote.symbol.toList, b.toNat < 0x80) :
    quote.Legible := by
  have hbytes : ∀ b ∈ quote.symbolBytes, b.toNat < 0x80 := by
    intro b hb
    exact h b ((Symbol.trimEnd_trims quote.symbol.toList).isPrefix.subset hb)
  have htext : quote.symbolText.toList = quote.symbolBytes.map Char.ofUInt8 := by
    rw [symbolText, Utf8.decodeText, String.toList_ofList, Utf8.decode_of_ascii hbytes]
  have hascii : ∀ c ∈ quote.symbolText.toList, c.toNat < 0x80 := by
    intro c hc
    rw [htext] at hc
    obtain ⟨b, hb, rfl⟩ := List.mem_map.mp hc
    rw [Utf8.toNat_ofUInt8]
    exact hbytes b hb
  constructor
  case ascii => exact hascii
  case bytes =>
    rw [Utf8.encode, htext]
    exact Utf8.written_map_ofUInt8 hbytes
  case whole =>
    intro hreplaced
    exact absurd (hascii _ hreplaced) (by decide)

namespace Wire

variable {payload : Payload} {offset : Nat} {byte : UInt8}

/-! ## The first byte that is not printable -/

/-- The byte of the symbol at an offset is not printable, and those before it are. -/
structure FirstUnprintable (payload : Payload) (offset : Nat) (byte : UInt8) : Prop where
  offset_lt : offset < 8
  getElem?_eq : payload[offset]? = some byte
  outside : byte < 0x20 ∨ 0x7E < byte
  before : ∀ i < offset, ∀ b, payload[i]? = some b → 0x20 ≤ b ∧ b ≤ 0x7E

theorem isPrintable_iff {b : UInt8} : isPrintable b = true ↔ 0x20 ≤ b ∧ b ≤ 0x7E := by
  simp [isPrintable]

theorem not_isPrintable_iff {b : UInt8} : isPrintable b = false ↔ b < 0x20 ∨ 0x7E < b := by
  rw [← Bool.not_eq_true, isPrintable_iff, not_and_or, UInt8.not_le, UInt8.not_le]

theorem toNat_lt_of_isPrintable {b : UInt8} (h : isPrintable b = true) : b.toNat < 0x80 := by
  have hle : b.toNat ≤ 0x7E := UInt8.le_iff_toNat_le.mp (isPrintable_iff.mp h).2
  omega

/-- The first entry that is found is told by its place alone. -/
theorem find?_zipIdx_eq_some_iff {α : Type} (p : α → Bool) {xs : List α} {x : α} {i : Nat} :
    (xs.zipIdx.find? fun entry => p entry.1) = some (x, i) ↔
      xs[i]? = some x ∧ p x = true ∧ ∀ j < i, ∀ y, xs[j]? = some y → p y = false := by
  rw [List.find?_eq_some_iff_getElem]
  constructor
  · rintro ⟨hx, j, hj, heq, hbefore⟩
    rw [List.getElem_zipIdx, Nat.zero_add, Prod.mk.injEq] at heq
    obtain ⟨rfl, rfl⟩ := heq
    refine ⟨List.getElem?_eq_getElem _, hx, ?_⟩
    intro k hk y hy
    obtain ⟨_, rfl⟩ := List.getElem?_eq_some_iff.mp hy
    simpa using hbefore k hk
  · rintro ⟨hget, hx, hbefore⟩
    obtain ⟨hi, rfl⟩ := List.getElem?_eq_some_iff.mp hget
    refine ⟨hx, i, by simpa using hi, by simp, ?_⟩
    intro j hj
    simpa using hbefore j hj _ (List.getElem?_eq_getElem (Nat.lt_trans hj hi))

theorem find?_zipIdx_eq_none_iff {α : Type} (p : α → Bool) {xs : List α} :
    (xs.zipIdx.find? fun entry => p entry.1) = none ↔ ∀ x ∈ xs, p x = false := by
  rw [List.find?_eq_none]
  constructor
  · intro h x hx
    obtain ⟨i, hi⟩ := List.getElem?_of_mem hx
    simpa using h (x, i) (List.mk_mem_zipIdx_iff_getElem?.mpr hi)
  · rintro h ⟨x, i⟩ hentry
    simpa using h x (List.fst_mem_of_mem_zipIdx hentry)

/-- The first byte of the symbol that is not printable, and its offset. -/
def firstUnprintable? (payload : Payload) : Option (UInt8 × Nat) :=
  (payload.take 8).zipIdx.find? fun entry => !isPrintable entry.1

theorem firstUnprintable?_eq_some_iff :
    firstUnprintable? payload = some (byte, offset) ↔ FirstUnprintable payload offset byte := by
  rw [firstUnprintable?, find?_zipIdx_eq_some_iff (!isPrintable ·)]
  constructor
  · rintro ⟨hget, hbyte, hbefore⟩
    obtain ⟨hlt, hget⟩ : offset < 8 ∧ payload[offset]? = some byte := by
      simpa [List.getElem?_take] using hget
    refine ⟨hlt, hget, not_isPrintable_iff.mp (by simpa using hbyte), ?_⟩
    intro i hi b hb
    rw [← List.getElem?_take_of_lt (Nat.lt_trans hi hlt)] at hb
    exact isPrintable_iff.mp (by simpa using hbefore i hi b hb)
  · rintro ⟨hlt, hget, houtside, hbefore⟩
    rw [List.getElem?_take_of_lt hlt]
    refine ⟨hget, by simpa using not_isPrintable_iff.mpr houtside, ?_⟩
    intro i hi b hb
    rw [List.getElem?_take_of_lt (Nat.lt_trans hi hlt)] at hb
    simpa using isPrintable_iff.mpr (hbefore i hi b hb)

theorem firstUnprintable?_eq_none_iff :
    firstUnprintable? payload = none ↔ ∀ b ∈ payload.take 8, isPrintable b = true := by
  simp [firstUnprintable?, find?_zipIdx_eq_none_iff (!isPrintable ·)]

/-! ## The check -/

theorem check_of_le (h : 28 ≤ payload.length) :
    check payload =
      match firstUnprintable? payload with
      | some (byte, offset) => .error (.unprintable offset byte)
      | none => .ok () :=
  if_neg (Nat.not_lt_of_le h)

theorem check_eq_unprintable_iff :
    check payload = .error (.unprintable offset byte) ↔
      28 ≤ payload.length ∧ FirstUnprintable payload offset byte := by
  by_cases h : 28 ≤ payload.length
  · rw [check_of_le h, and_iff_right h, ← firstUnprintable?_eq_some_iff]
    cases firstUnprintable? payload with
    | none => simp
    | some entry => simp [Prod.ext_iff, and_comm]
  · simp [check_of_lt (Nat.lt_of_not_le h), h]

theorem check_eq_ok_iff :
    check payload = .ok () ↔
      28 ≤ payload.length ∧ ∀ b ∈ payload.take 8, isPrintable b = true := by
  by_cases h : 28 ≤ payload.length
  · rw [check_of_le h, and_iff_right h, ← firstUnprintable?_eq_none_iff]
    cases firstUnprintable? payload with
    | none => simp
    | some entry => simp
  · simp [check_of_lt (Nat.lt_of_not_le h), h]

/-- Of the length no more counts than the mandatory fields take, and of the bytes only the symbol. -/
theorem check_eq_check {other : Payload} (hlength : min 28 other.length = min 28 payload.length)
    (hsymbol : other.take 8 = payload.take 8) : check other = check payload := by
  by_cases h : 28 ≤ payload.length
  · have hother : 28 ≤ other.length := by omega
    rw [check_of_le h, check_of_le hother, firstUnprintable?, firstUnprintable?, hsymbol]
  · have hequal : other.length = payload.length := by omega
    rw [check_of_lt (by omega), check_of_lt (by omega), hequal]

/-- How a payload is checked, and what passing it tells. -/
structure CheckingSpec (payload : Payload) : Prop where
  tooShort_iff : ∀ need size, check payload = .error (.tooShort need size) ↔
    payload.length < 28 ∧ need = 28 ∧ size = payload.length
  unprintable_iff : ∀ offset byte, check payload = .error (.unprintable offset byte) ↔
    28 ≤ payload.length ∧ FirstUnprintable payload offset byte
  ok_iff : check payload = .ok () ↔
    28 ≤ payload.length ∧ ∀ b ∈ payload.take 8, 0x20 ≤ b ∧ b ≤ 0x7E
  wellFormed_iff : isWellFormed payload = true ↔ check payload = .ok ()
  /-- Payloads of one length that begin with the same symbol are judged alike, and so are any two
  that are long enough. -/
  alike : ∀ other : Payload, min 28 other.length = min 28 payload.length →
    other.take 8 = payload.take 8 → check other = check payload
  /-- Whatever the pool, what passes is decoded, and its symbol is read as text without a loss. -/
  legible : check payload = .ok () → ∀ (pool : Pool) (time : UInt64) (sequence : UInt32),
    ∃ placed next, pool.decode payload time sequence = (some placed, next) ∧
      Symbol.Trims (payload.take 8) placed.quote.symbolBytes ∧ placed.quote.Legible

theorem check_checkingSpec (payload : Payload) : CheckingSpec payload where
  tooShort_iff _ _ := check_eq_tooShort_iff
  unprintable_iff _ _ := check_eq_unprintable_iff
  ok_iff := by simp only [check_eq_ok_iff, isPrintable_iff]
  wellFormed_iff := isWellFormed_iff
  alike _ := check_eq_check
  legible hok pool time sequence := by
    obtain ⟨hlength, hprintable⟩ := check_eq_ok_iff.mp hok
    obtain ⟨view, hview, hpayload⟩ := View.exists_of?_eq_some hlength
    have hsymbol : (view.quote time sequence).symbol.toList = payload.take 8 := by
      rw [← hpayload]
      rfl
    refine ⟨_, _, pool.decode_of_view hview time sequence, ?_, ?_⟩
    · rw [← hsymbol]
      exact Symbol.trimEnd_trims _
    · apply Quote.legible_of_ascii
      intro b hb
      rw [hsymbol] at hb
      exact toNat_lt_of_isPrintable (hprintable b hb)

/-- Of two bytes outside the range the first is named, and both ends of the range are printable. -/
example : check ([0x20, 0x7E, 0x7F, 0x1F] ++ .replicate 24 0) = .error (.unprintable 2 0x7F) := by
  decide

end Wire

end QuoteFeed
