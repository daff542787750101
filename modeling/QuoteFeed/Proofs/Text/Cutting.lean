import QuoteFeed.Proofs.Text.Characters

/-! # Text cut to a number of bytes

The first bytes of a text are those of the longest part of it that fits, whole characters only, and
then perhaps the beginning of one more character. -/

namespace QuoteFeed.Utf8

/-- The bytes that characters are written as. -/
def written (chars : List Char) : List UInt8 :=
  chars.flatMap String.utf8EncodeChar

@[simp] theorem written_nil : written [] = [] :=
  rfl

@[simp] theorem written_cons (c : Char) (chars : List Char) :
    written (c :: chars) = String.utf8EncodeChar c ++ written chars :=
  List.flatMap_cons

@[simp] theorem written_append (chars more : List Char) :
    written (chars ++ more) = written chars ++ written more :=
  List.flatMap_append

theorem decode_written_append (chars : List Char) (rest : List UInt8) :
    decode (written chars ++ rest) = chars ++ decode rest := by
  induction chars with
  | nil => rfl
  | cons c chars ih => simp [decode_utf8EncodeChar_append, ih]

theorem decode_written (chars : List Char) : decode (written chars) = chars := by
  simpa [decode, decodeAfter] using decode_written_append chars []

/-! ## The longest part that fits -/

/-- As many characters from the front as can be written in `room` bytes. -/
structure LongestFit (room : Nat) (chars fit : List Char) : Prop where
  isPrefix : fit <+: chars
  fits : (written fit).length ≤ room
  longest : ∀ other : List Char, other <+: chars → (written other).length ≤ room →
    other.length ≤ fit.length

theorem exists_longestFit (room : Nat) (chars : List Char) : ∃ fit, LongestFit room chars fit := by
  induction chars generalizing room with
  | nil => exact ⟨[], List.nil_prefix, by simp, by simp⟩
  | cons c chars ih =>
      by_cases hc : (String.utf8EncodeChar c).length ≤ room
      · obtain ⟨fit, hprefix, hfits, hlongest⟩ := ih (room - (String.utf8EncodeChar c).length)
        refine ⟨c :: fit, List.cons_prefix_cons.mpr ⟨rfl, hprefix⟩, ?_, ?_⟩
        · rw [written_cons, List.length_append]
          omega
        · intro other hother hroom
          rcases List.prefix_cons_iff.mp hother with rfl | ⟨tail, rfl, htail⟩
          · simp
          · rw [written_cons, List.length_append] at hroom
            simpa using hlongest tail htail (by omega)
      · refine ⟨[], List.nil_prefix, by simp, ?_⟩
        intro other hother hroom
        rcases List.prefix_cons_iff.mp hother with rfl | ⟨tail, rfl, -⟩
        · simp
        · rw [written_cons, List.length_append] at hroom
          omega

/-- Either the text fits, or the room ends at or inside the character after the part that does. -/
theorem LongestFit.take_written {room : Nat} {chars fit : List Char}
    (h : LongestFit room chars fit) :
    (fit = chars ∧ (written chars).take room = written fit) ∨
      fit ≠ chars ∧ ∃ c n, n < (String.utf8EncodeChar c).length ∧
        (written fit).length + n = room ∧
        (written chars).take room = written fit ++ (String.utf8EncodeChar c).take n := by
  obtain ⟨rest, rfl⟩ := h.isPrefix
  cases rest with
  | nil =>
      refine .inl ⟨(List.append_nil fit).symm, ?_⟩
      rw [List.append_nil, List.take_of_length_le h.fits]
  | cons c rest =>
      have hover : room < (written fit).length + (String.utf8EncodeChar c).length := by
        apply Nat.lt_of_not_le
        intro hle
        have hlength := h.longest (fit ++ [c]) (by simp) (by simpa using hle)
        rw [List.length_append, List.length_singleton] at hlength
        omega
      have hroom : (written fit).length + (room - (written fit).length) = room :=
        Nat.add_sub_cancel' h.fits
      refine .inr ⟨by simp, c, room - (written fit).length, by omega, hroom, ?_⟩
      rw [written_append, written_cons, List.take_append, List.take_of_length_le h.fits,
        List.take_append_of_le_length (by omega)]

end QuoteFeed.Utf8
