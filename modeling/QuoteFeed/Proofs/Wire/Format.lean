import Mathlib.Data.Set.Operations
import QuoteFeed.Proofs.Wire.Decoding
import QuoteFeed.Wire.Packet

/-! # The format of payloads

A packet and its payload determine each other. Reading what was written gives the packet, and the
packet that is read from a payload is written as the payload up to where its fields end. -/

namespace QuoteFeed.Wire

/-! ## Words -/

theorem wordBytes_injective : Function.Injective Packet.wordBytes := by
  intro word other h
  have hword := Bytes.ofBigEndian_bigEndian 4 word.toNat
  have hother := Bytes.ofBigEndian_bigEndian 4 other.toNat
  have hlt := word.toNat_lt
  have hlt' := other.toNat_lt
  rw [Packet.wordBytes, Packet.wordBytes] at h
  rw [h] at hword
  apply UInt32.toNat_inj.mp
  omega

theorem length_flatMap_wordBytes (words : List UInt32) :
    (words.flatMap Packet.wordBytes).length = 4 * words.length := by
  induction words with
  | nil => rfl
  | cons word words ih =>
      rw [List.flatMap_cons, List.length_append, ih, Packet.length_wordBytes, List.length_cons]
      omega

theorem flatMap_wordBytes_injective : Function.Injective (List.flatMap Packet.wordBytes) := by
  intro words others h
  have hlength := congrArg List.length h
  rw [length_flatMap_wordBytes, length_flatMap_wordBytes] at hlength
  induction words generalizing others with
  | nil =>
      cases others with
      | nil => rfl
      | cons other others => simp at hlength
  | cons word words ih =>
      cases others with
      | nil => simp at hlength
      | cons other others =>
          rw [List.flatMap_cons, List.flatMap_cons] at h
          obtain ⟨hword, hwords⟩ := List.append_inj h (by simp)
          simp only [List.length_cons] at hlength
          rw [wordBytes_injective hword, ih hwords (by omega)]

/-- A word that is written again gives its four bytes. -/
theorem wordBytes_wordAt (payload : Payload) (offset : Nat) (h : offset + 4 ≤ payload.length) :
    Packet.wordBytes (wordAt payload offset h) = (payload.drop offset).take 4 := by
  have hlength : ((payload.drop offset).take 4).length = 4 := by
    simp only [List.length_take, List.length_drop]
    omega
  have hlt := Bytes.ofBigEndian_lt ((payload.drop offset).take 4)
  have hbytes := Bytes.bigEndian_ofBigEndian ((payload.drop offset).take 4)
  rw [hlength] at hlt hbytes
  rw [Packet.wordBytes, wordAt, UInt32.toNat_ofNat', Nat.mod_eq_of_lt (by omega), hbytes]

/-! ## Writing -/

namespace Packet

/-- The words of a packet, in the order of its payload. -/
def words (p : Packet) : List UInt32 :=
  [p.bidRaw, p.bidShares, p.askRaw, p.askShares, p.spreadRaw] ++
    p.markers.elim [] fun m => [m.parseStart, m.parseWrite, m.outputRead, m.transmitStart]

theorem encode_eq (p : Packet) : p.encode = p.symbol.toList ++ p.words.flatMap wordBytes := by
  cases h : p.markers <;> simp [encode, fields, words, markerFields, h]

theorem encode_injective : Function.Injective encode := by
  intro p q h
  rw [encode_eq, encode_eq] at h
  obtain ⟨hsymbol, hbytes⟩ := List.append_inj h (by simp)
  have hwords : p.words = q.words := flatMap_wordBytes_injective hbytes
  obtain ⟨symbol, bidRaw, bidShares, askRaw, askShares, spreadRaw, markers⟩ := p
  obtain ⟨symbol', bidRaw', bidShares', askRaw', askShares', spreadRaw', markers'⟩ := q
  have hsymbols : symbol = symbol' := Bytes.ext hsymbol
  rcases markers with _ | ⟨t₁, t₂, t₃, t₄⟩ <;> rcases markers' with _ | ⟨u₁, u₂, u₃, u₄⟩ <;>
    simp_all [words]

theorem length_encode_eq (p : Packet) : p.encode.length = 28 ∨ p.encode.length = 44 := by
  rw [length_encode, size]
  split
  · exact .inr rfl
  · exact .inl rfl

/-- Each field begins where the one before it ends. -/
def Consecutive : Nat → List (Nat × List UInt8) → Prop
  | _, [] => True
  | offset, f :: fields => f.1 = offset ∧ Consecutive (offset + f.2.length) fields

theorem fields_consecutive (p : Packet) : Consecutive 0 p.fields := by
  cases h : p.markers <;> simp [Consecutive, fields, markerFields, h, symbolOffset, bidOffset,
    bidSharesOffset, askOffset, askSharesOffset, spreadOffset, parseStartOffset, parseWriteOffset,
    outputReadOffset, transmitStartOffset]

theorem foldl_overwrite {fields : List (Nat × List UInt8)} (start rest : List UInt8)
    (h : Consecutive start.length fields) :
    fields.foldl (fun written f => overwrite written f.1 f.2) (start ++ rest) =
      start ++ fields.flatMap Prod.snd ++ rest.drop (fields.flatMap Prod.snd).length := by
  induction fields generalizing start rest with
  | nil => simp
  | cons f fields ih =>
      obtain ⟨hoffset, hfields⟩ := h
      have hwritten : overwrite (start ++ rest) f.1 f.2 = start ++ f.2 ++ rest.drop f.2.length := by
        rw [overwrite, hoffset, List.take_left, List.drop_length_add_append]
      rw [← List.length_append] at hfields
      rw [List.foldl_cons, hwritten, ih _ _ hfields]
      simp [List.drop_drop]

/-- The fields fill the front of the buffer and leave the rest as it was. -/
theorem writeInto_of_le (p : Packet) {buffer : List UInt8} (h : p.size ≤ buffer.length) :
    p.writeInto buffer = (some p.size, p.encode ++ buffer.drop p.size) := by
  have hwritten := foldl_overwrite [] buffer p.fields_consecutive
  rw [writeInto, if_neg (Nat.not_lt_of_le h)]
  rw [List.nil_append, List.nil_append, ← encode, length_encode] at hwritten
  rw [hwritten]

end Packet

/-! ## Reading -/

namespace View

/-- The packet whose fields are those of the view. -/
def packet (v : View) : Packet where
  symbol := v.symbol
  bidRaw := v.bidRaw
  bidShares := v.bidShares
  askRaw := v.askRaw
  askShares := v.askShares
  spreadRaw := v.spreadRaw
  markers := v.markers?

theorem word?_of_le (v : View) (offset : Nat) (h : offset + 4 ≤ v.payload.length)
    (hlt : offset < 2 ^ 64) : v.word? (UInt64.ofNat offset) = some (wordAt v.payload offset h) := by
  have hoffset : (UInt64.ofNat offset).toNat = offset := by
    rw [UInt64.toNat_ofNat', Nat.mod_eq_of_lt hlt]
  rw [word?]
  simp only [hoffset]
  exact dif_pos h

theorem markers?_of_lt (v : View) (h : v.payload.length < 44) : v.markers? = none := by
  have htiming : ¬ v.hasTiming = true := by
    rw [v.hasTiming_iff]
    omega
  exact if_neg htiming

theorem markers?_of_le (v : View) (h : 44 ≤ v.payload.length) :
    v.markers? = some
      { parseStart := wordAt v.payload 28 (by omega)
        parseWrite := wordAt v.payload 32 (by omega)
        outputRead := wordAt v.payload 36 (by omega)
        transmitStart := wordAt v.payload 40 (by omega) } := by
  have hword : ∀ offset (hle : offset + 4 ≤ 44), v.word? (UInt64.ofNat offset) =
      some (wordAt v.payload offset (Nat.le_trans hle h)) := by
    intro offset hle
    exact v.word?_of_le offset _ (by omega)
  rw [markers?, if_pos (v.hasTiming_iff.mpr h), hword parseStartOffset (by decide),
    hword parseWriteOffset (by decide), hword outputReadOffset (by decide),
    hword transmitStartOffset (by decide)]
  rfl

/-- A packet that was read is written as the payload, up to where its fields end. -/
theorem encode_packet (v : View) :
    v.packet.encode = v.payload.take (if 44 ≤ v.payload.length then 44 else 28) := by
  have hjoin : ∀ (i n : Nat) (rest : List UInt8),
      v.payload.take i ++ ((v.payload.drop i).take n ++ rest) = v.payload.take (i + n) ++ rest := by
    intro i n rest
    rw [List.take_add, List.append_assoc]
  have hmandatory : v.packet.encode = v.payload.take 28 ++
      (v.markers?.elim [] Packet.markerFields).flatMap Prod.snd := by
    simp only [Packet.encode, Packet.fields, packet, symbol, bidRaw, bidShares, askRaw, askShares,
      spreadRaw, mandatory, wordBytes_wordAt, Bytes.toList_ofTake, List.flatMap_append,
      List.flatMap_cons, List.flatMap_nil, List.append_assoc, List.append_nil, bidOffset,
      bidSharesOffset, askOffset, askSharesOffset, spreadOffset, hjoin, Nat.reduceAdd]
  rw [hmandatory]
  by_cases h : 44 ≤ v.payload.length
  · rw [v.markers?_of_le h, if_pos h]
    simp only [Option.elim_some, Packet.markerFields, wordBytes_wordAt, List.flatMap_cons,
      List.flatMap_nil, hjoin, Nat.reduceAdd, List.append_nil]
    exact List.take_add.symm
  · rw [v.markers?_of_lt (Nat.lt_of_not_le h), if_neg h]
    simp

theorem encode_packet_of_length (v : View)
    (h : v.payload.length = 28 ∨ v.payload.length = 44) : v.packet.encode = v.payload := by
  rw [encode_packet]
  apply List.take_of_length_le
  split <;> omega

/-- What was written is read. -/
theorem of?_encode (p : Packet) : ∃ view, View.of? p.encode = some view ∧ view.packet = p := by
  have hlength := p.length_encode_eq
  have hle : 28 ≤ p.encode.length := by omega
  obtain ⟨view, hview, hpayload⟩ := exists_of?_eq_some hle
  rw [← hpayload] at hlength
  exact ⟨view, hview, Packet.encode_injective
    ((view.encode_packet_of_length hlength).trans hpayload)⟩

end View

/-- Packets and payloads of the two sizes correspond one to one: `encode` writes what `writeInto`
puts into an empty buffer, and a view reads it back. -/
theorem encode_bijective :
    (∀ p : Packet, p.writeInto (.replicate p.size 0) = (some p.size, p.encode)) ∧
    (∀ p : Packet, ∃ view, View.of? p.encode = some view ∧ view.packet = p) ∧
    (∀ payload : Payload, payload.length = 28 ∨ payload.length = 44 →
      ∃ view, View.of? payload = some view ∧ view.packet.encode = payload) ∧
    Function.Injective Packet.encode ∧
    Set.range Packet.encode = {payload | payload.length = 28 ∨ payload.length = 44} := by
  have hwritten : ∀ p : Packet, p.writeInto (.replicate p.size 0) = (some p.size, p.encode) := by
    intro p
    rw [p.writeInto_of_le (by simp)]
    simp
  have hrewritten : ∀ payload : Payload, payload.length = 28 ∨ payload.length = 44 →
      ∃ view, View.of? payload = some view ∧ view.packet.encode = payload := by
    intro payload hlength
    have hle : 28 ≤ payload.length := by omega
    obtain ⟨view, hview, rfl⟩ := View.exists_of?_eq_some hle
    exact ⟨view, hview, view.encode_packet_of_length hlength⟩
  refine ⟨hwritten, View.of?_encode, hrewritten, Packet.encode_injective, ?_⟩
  ext payload
  constructor
  · rintro ⟨p, rfl⟩
    exact p.length_encode_eq
  · intro hlength
    obtain ⟨view, _, hencode⟩ := hrewritten payload hlength
    exact ⟨view.packet, hencode⟩

end QuoteFeed.Wire
