import QuoteFeed.Proofs.Quote.Image
import QuoteFeed.Proofs.Quote.Naming

/-! # Writing and reading a symbol

A symbol is filled up with spaces when it is written, and spaces and NULs are taken from its end
when it is read. What is read may be written again without a difference to what is read next; the
field itself stays only if there was no NUL to be replaced. -/

namespace QuoteFeed

/-! ## Trimmed bytes -/

namespace Symbol

/-- The last byte, if there is one, is neither a space nor a NUL. -/
def EndsBare (bytes : List UInt8) : Prop :=
  ∀ b, bytes.getLast? = some b → b ≠ 0x20 ∧ b ≠ 0

/-- What is kept of bytes, and how the rest of them looks. -/
structure Trims (bytes kept : List UInt8) : Prop where
  isPrefix : kept <+: bytes
  bare : EndsBare kept
  blanks : ∀ b ∈ bytes.drop kept.length, b = 0x20 ∨ b = 0

theorem isBlank_iff {b : UInt8} : isBlank b = true ↔ b = 0x20 ∨ b = 0 := by
  simp [isBlank, space]

theorem trimEnd_concat (bytes : List UInt8) (b : UInt8) :
    trimEnd (bytes ++ [b]) = if isBlank b = true then trimEnd bytes else bytes ++ [b] :=
  List.rdropWhile_concat isBlank bytes b

theorem trimEnd_trims (bytes : List UInt8) : Trims bytes (trimEnd bytes) := by
  induction bytes using List.reverseRecOn with
  | nil => exact ⟨List.nil_prefix, by simp [EndsBare, trimEnd], by simp⟩
  | append_singleton bytes b ih =>
      rw [trimEnd_concat]
      split
      · next hblank =>
          refine ⟨ih.isPrefix.trans (List.prefix_append bytes [b]), ih.bare, ?_⟩
          intro other hother
          rw [List.drop_append_of_le_length ih.isPrefix.length_le, List.mem_append] at hother
          rcases hother with hother | hother
          · exact ih.blanks other hother
          · obtain rfl := List.mem_singleton.mp hother
            exact isBlank_iff.mp hblank
      · next hblank =>
          refine ⟨List.prefix_rfl, ?_, by simp⟩
          intro last hlast
          obtain rfl : b = last := by simpa using hlast
          simpa [isBlank_iff] using hblank

/-- No prefix that ends bare is longer than what is kept. -/
theorem Trims.isPrefix_of_endsBare {bytes kept other : List UInt8} (h : Trims bytes kept)
    (hother : other <+: bytes) (hbare : EndsBare other) : other <+: kept := by
  rcases List.prefix_or_prefix_of_prefix hother h.isPrefix with hle | hle
  · exact hle
  obtain ⟨rest, rfl⟩ := hle
  cases hrest : rest.getLast? with
  | none => simp [List.getLast?_eq_none_iff.mp hrest]
  | some last =>
      -- Whatever follows what is kept is blank, and the longer prefix would end in it.
      have hmem : last ∈ bytes.drop kept.length := by
        obtain ⟨more, rfl⟩ := hother
        rw [List.append_assoc, List.drop_left]
        exact List.mem_append_left _ (List.mem_of_getLast? hrest)
      have hlast : (kept ++ rest).getLast? = some last := by simp [hrest]
      rcases h.blanks last hmem with hspace | hzero
      · exact absurd hspace (hbare last hlast).1
      · exact absurd hzero (hbare last hlast).2

/-- The blanks inside stay. -/
example : trimEnd [0x41, 0x00, 0x20, 0x42, 0x20, 0x00, 0x20, 0x00] = [0x41, 0x00, 0x20, 0x42] := by
  decide

theorem trimEnd_trimEnd (bytes : List UInt8) : trimEnd (trimEnd bytes) = trimEnd bytes :=
  List.rdropWhile_idempotent isBlank bytes

theorem trimEnd_append_drop (bytes : List UInt8) :
    trimEnd bytes ++ bytes.drop (trimEnd bytes).length = bytes :=
  List.prefix_iff_eq_append.mp (trimEnd_trims bytes).isPrefix

theorem take_trimEnd (symbol : Bytes 8) : (trimEnd symbol.toList).take 8 = trimEnd symbol.toList := by
  apply List.take_of_length_le
  have := (trimEnd_trims symbol.toList).isPrefix.length_le
  simpa using this

theorem trimEnd_field_trimEnd (symbol : Bytes 8) :
    trimEnd (field (trimEnd symbol.toList)).toList = trimEnd symbol.toList := by
  rw [trimEnd_field, take_trimEnd, trimEnd_trimEnd]

/-- Writing what was read puts a space for every blank. -/
theorem field_trimEnd_eq_iff (symbol : Bytes 8) :
    field (trimEnd symbol.toList) = symbol ↔
      0 ∉ symbol.toList.drop (trimEnd symbol.toList).length := by
  have hlength := congrArg List.length (trimEnd_append_drop symbol.toList)
  rw [List.length_append, symbol.length_toList] at hlength
  rw [Bytes.ext_iff, field, Bytes.toList_padded, take_trimEnd]
  nth_rewrite 3 [← trimEnd_append_drop symbol.toList]
  rw [List.append_cancel_left_eq, eq_comm, List.eq_replicate_iff]
  constructor
  · rintro ⟨_, hspaces⟩ hzero
    exact absurd (hspaces 0 hzero) (by decide)
  · intro hzero
    refine ⟨by omega, ?_⟩
    intro b hb
    rcases (trimEnd_trims symbol.toList).blanks b hb with hspace | rfl
    · exact hspace
    · exact absurd hb hzero

end Symbol

/-! ## Symbols of quotes -/

/-- What writing a symbol does to a quote, and what reading one tells. -/
structure Quote.SymbolSpec (q : Quote) (name : List UInt8) : Prop where
  field : (q.setSymbol name).symbol.toList =
    name.take (min 8 name.length) ++ List.replicate (8 - min 8 name.length) 0x20
  frame : ∀ f, f ≠ .symbol → (q.setSymbol name).get f = q.get f
  trimmed : Symbol.Trims q.symbol.toList q.symbolBytes
  longest : ∀ other, other <+: q.symbol.toList → Symbol.EndsBare other → other <+: q.symbolBytes
  named : Symbol.Trims (name.take (min 8 name.length)) (q.setSymbol name).symbolBytes
  reread : (q.setSymbol q.symbolBytes).symbolBytes = q.symbolBytes
  rewritten : (q.setSymbol q.symbolBytes).setSymbol (q.setSymbol q.symbolBytes).symbolBytes =
    q.setSymbol q.symbolBytes
  unchanged : (q.setSymbol q.symbolBytes).symbol = q.symbol ↔
    0 ∉ q.symbol.toList.drop q.symbolBytes.length

theorem Quote.setSymbol_symbolSpec (q : Quote) (name : List UInt8) : SymbolSpec q name where
  field := by
    have hfill : 8 - min 8 name.length = 8 - name.length := by omega
    rw [hfill, ← List.take_eq_take_min]
    rfl
  frame f hf := by
    cases f with
    | symbol => exact absurd rfl hf
    | _ => rfl
  trimmed := Symbol.trimEnd_trims q.symbol.toList
  longest _ := (Symbol.trimEnd_trims q.symbol.toList).isPrefix_of_endsBare
  named := by
    have hread : (q.setSymbol name).symbolBytes = Symbol.trimEnd (name.take 8) :=
      Symbol.trimEnd_field name
    rw [hread, ← List.take_eq_take_min]
    exact Symbol.trimEnd_trims _
  reread := Symbol.trimEnd_field_trimEnd q.symbol
  rewritten := by
    have hread : (q.setSymbol q.symbolBytes).symbolBytes = q.symbolBytes :=
      Symbol.trimEnd_field_trimEnd q.symbol
    rw [hread]
    rfl
  unchanged := Symbol.field_trimEnd_eq_iff q.symbol

end QuoteFeed
