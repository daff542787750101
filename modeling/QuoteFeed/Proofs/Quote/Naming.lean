import Mathlib.Data.List.DropRight
import QuoteFeed.Proofs.Text.Cutting
import QuoteFeed.Proofs.Wire.Judgement

/-! # The symbol that a name becomes

A packet carries the first eight bytes of a name, so the name may break off inside a character. The
symbol that is read from the quote is the part of the name that fits, without the blanks at its end,
or with one replacement character where the name broke off. -/

namespace QuoteFeed

/-! ## Blanks at the end -/

namespace Symbol

/-- Whether a character is dropped from the end of a symbol. -/
def isBlankChar (c : Char) : Bool :=
  c == ' ' || c == '\x00'

theorem trimEnd_eq_rdropWhile (bs : List UInt8) : trimEnd bs = bs.rdropWhile isBlank :=
  rfl

theorem trimEnd_append_spaces (bs : List UInt8) (n : Nat) :
    trimEnd (bs ++ List.replicate n space) = trimEnd bs := by
  induction n with
  | zero => simp
  | succ n ih =>
      have hblank : isBlank space = true := by decide
      rw [List.replicate_succ', ← List.append_assoc, trimEnd_eq_rdropWhile,
        List.rdropWhile_concat_pos _ _ _ hblank]
      exact ih

theorem isBlank_of_le {b : UInt8} (h : 0x80 ≤ b.toNat) : isBlank b = false := by
  have hspace : b ≠ space := by
    rintro rfl
    exact absurd h (by decide)
  have hzero : b ≠ 0 := by
    rintro rfl
    exact absurd h (by decide)
  simp [isBlank, hspace, hzero]

theorem trimEnd_append_of_le (bs : List UInt8) {rest : List UInt8} (hne : rest ≠ [])
    (h : ∀ b ∈ rest, 0x80 ≤ b.toNat) : trimEnd (bs ++ rest) = bs ++ rest := by
  rw [trimEnd_eq_rdropWhile, List.rdropWhile_eq_self_iff]
  intro _
  rw [List.getLast_append_of_ne_nil _ hne, isBlank_of_le (h _ (List.getLast_mem hne))]
  decide

theorem isBlank_ofNat {c : Char} (h : c.toNat < 0x80) :
    isBlank (UInt8.ofNat c.toNat) = isBlankChar c := by
  have hbyte := UInt8.toNat_ofNat_of_lt' (show c.toNat < 256 by omega)
  have heq : ∀ {b : UInt8} {d : Char}, b.toNat = d.toNat → (UInt8.ofNat c.toNat = b ↔ c = d) := by
    intro b d hd
    rw [← UInt8.toNat_inj, hbyte, hd, Char.toNat_inj]
  have hspace : UInt8.ofNat c.toNat = space ↔ c = ' ' := heq rfl
  have hzero : UInt8.ofNat c.toNat = 0 ↔ c = '\x00' := heq rfl
  rw [Bool.eq_iff_iff]
  simp [isBlank, isBlankChar, hspace, hzero]

theorem toNat_lt_of_isBlankChar {c : Char} (h : isBlankChar c = true) : c.toNat < 0x80 := by
  simp only [isBlankChar, Bool.or_eq_true, beq_iff_eq] at h
  rcases h with rfl | rfl <;> decide

/-- The blanks at the end of a name are those at the end of its bytes. -/
theorem trimEnd_written (chars : List Char) :
    trimEnd (Utf8.written chars) = Utf8.written (chars.rdropWhile isBlankChar) := by
  induction chars using List.reverseRecOn with
  | nil => rfl
  | append_singleton chars c ih =>
      have hwritten : Utf8.written (chars ++ [c]) =
          Utf8.written chars ++ String.utf8EncodeChar c := by simp
      by_cases hone : c.toNat < 0x80
      · have hencode : String.utf8EncodeChar c = [UInt8.ofNat c.toNat] := by
          rw [Utf8.utf8EncodeChar_eq]
          exact if_pos hone
        rw [hwritten, hencode, trimEnd_eq_rdropWhile, List.rdropWhile_concat,
          List.rdropWhile_concat, isBlank_ofNat hone]
        split
        · exact ih
        · simp [hencode]
      · have hblank : isBlankChar c ≠ true := fun h => hone (toNat_lt_of_isBlankChar h)
        rw [List.rdropWhile_concat_neg _ _ _ hblank, hwritten]
        apply trimEnd_append_of_le _ (Utf8.utf8EncodeChar_ne_nil c)
        intro b hb
        exact Utf8.le_of_mem_utf8EncodeChar (Nat.le_of_not_lt hone) hb

/-! ## Reading a field -/

/-- A field is trimmed as the bytes that it was filled up from. -/
theorem trimEnd_field (name : List UInt8) : trimEnd (field name).toList = trimEnd (name.take 8) :=
  trimEnd_append_spaces _ _

theorem decode_trimEnd_field {name fit : List Char} (h : Utf8.LongestFit 8 name fit) :
    (fit = name ∨ (Utf8.written fit).length = 8 →
      Utf8.decode (trimEnd (field (Utf8.written name)).toList) = fit.rdropWhile isBlankChar) ∧
    (fit ≠ name → (Utf8.written fit).length ≠ 8 →
      Utf8.decode (trimEnd (field (Utf8.written name)).toList) = fit ++ [Utf8.replacement]) := by
  rw [trimEnd_field]
  rcases h.take_written with ⟨heq, htake⟩ | ⟨hne, c, n, hn, hroom, htake⟩
  · rw [htake, trimEnd_written, Utf8.decode_written]
    exact ⟨fun _ => rfl, fun hne => absurd heq hne⟩
  rw [htake]
  constructor
  · intro hwhole
    have hzero : n = 0 := by
      have hfull := hwhole.resolve_left hne
      omega
    rw [hzero, List.take_zero, List.append_nil, trimEnd_written, Utf8.decode_written]
  · -- The bytes of a character that breaks off are no blanks.
    intro _ hfull
    have hpos : 0 < n := by omega
    have hlong : 0x80 ≤ c.toNat := Utf8.le_toNat_of_one_lt (by omega)
    have hsome : (String.utf8EncodeChar c).take n ≠ [] := by
      apply List.ne_nil_of_length_pos
      rw [List.length_take]
      omega
    rw [trimEnd_append_of_le _ hsome fun b hb =>
        Utf8.le_of_mem_utf8EncodeChar hlong (List.mem_of_mem_take hb),
      Utf8.decode_written_append, Utf8.decode_take_utf8EncodeChar c hpos hn]

/-- The sign of the euro has three bytes, and only one of them fits. -/
example : Utf8.decode (trimEnd (field (Utf8.encode "EUROS  €")).toList) =
    ['E', 'U', 'R', 'O', 'S', ' ', ' ', Utf8.replacement] := by
  decide

end Symbol

/-! ## Names in quotes -/

/-- How the symbol of a quote goes with the name that its packet was made from. -/
structure Quote.NamedAfter (quote : Quote) (name : String) : Prop where
  symbol : quote.symbol.toList =
    (Utf8.encode name).take 8 ++ List.replicate (8 - (Utf8.encode name).length) 0x20
  /-- It is the symbol that any other quote is given by the same name. -/
  setSymbol : ∀ other : Quote, quote.symbol = (other.setSymbol (Utf8.encode name)).symbol
  text : ∃ fit, Utf8.LongestFit 8 name.toList fit ∧
    (fit = name.toList ∨ (Utf8.written fit).length = 8 →
      quote.symbolText = String.ofList (fit.rdropWhile Symbol.isBlankChar)) ∧
    (fit ≠ name.toList → (Utf8.written fit).length ≠ 8 →
      quote.symbolText = String.ofList (fit ++ ['\uFFFD']))

theorem Quote.namedAfter_of_symbol_eq {quote : Quote} {name : String}
    (h : quote.symbol = Symbol.field (Utf8.encode name)) : quote.NamedAfter name := by
  have htext : quote.symbolText = String.ofList
      (Utf8.decode (Symbol.trimEnd (Symbol.field (Utf8.encode name)).toList)) := by
    rw [symbolText, symbolBytes, h]
    rfl
  constructor
  case symbol =>
    rw [h]
    rfl
  case setSymbol =>
    intro other
    exact h
  case text =>
    obtain ⟨fit, hfit⟩ := Utf8.exists_longestFit 8 name.toList
    obtain ⟨hwhole, hbroken⟩ := Symbol.decode_trimEnd_field hfit
    refine ⟨fit, hfit, ?_, ?_⟩
    · intro hfits
      exact htext.trans (congrArg String.ofList (hwhole hfits))
    · intro hne hfull
      exact htext.trans (congrArg String.ofList (hbroken hne hfull))

/-- Whatever the name, the packet that is made from it is decoded, the quote is named after it, and
the payload is found by the name. -/
theorem Pool.decode_namedAfter (name : String) (bidRaw bidShares askRaw askShares : UInt32)
    (pool : Pool) (time : UInt64) (sequence : UInt32) :
    let payload := (Wire.Packet.ofSides name bidRaw bidShares askRaw askShares).encode
    (∃ placed next, pool.decode payload time sequence = (some placed, next) ∧
      placed.quote.NamedAfter name) ∧
    Wire.matchesSymbol payload (Utf8.encode name) = true := by
  intro payload
  obtain ⟨view, hview, hpacket⟩ : ∃ view, Wire.View.of? payload = some view ∧
      view.packet = .ofSides name bidRaw bidShares askRaw askShares := Wire.View.of?_encode _
  have hsymbol : view.symbol = Symbol.field (Utf8.encode name) :=
    congrArg Wire.Packet.symbol hpacket
  refine ⟨⟨_, _, pool.decode_of_view hview time sequence,
    Quote.namedAfter_of_symbol_eq hsymbol⟩, ?_⟩
  have hfront : payload.take 8 = (Symbol.field (Utf8.encode name)).toList := by
    rw [← hsymbol, ← Wire.View.of?_eq_some_iff.mp hview]
    rfl
  rw [Wire.matchesSymbol_iff, hfront]
  exact List.prefix_append _ _

end QuoteFeed
