import QuoteFeed.Text.Utf8

/-! # Characters and their bytes

A character is read back from the bytes it is written as. If the bytes break off inside it, what is
there of it is read as one replacement character, however many bytes that is. -/

namespace QuoteFeed.Utf8

/-! ## The bytes of a character -/

/-- The bytes are those that the pending character owes, and it ends as `c`. -/
inductive Completes : Pending → List UInt8 → Char → Prop where
  | last {p : Pending} {b : UInt8} (howed : p.owed = 1)
      (hrange : p.low ≤ b.toNat ∧ b.toNat ≤ p.high) :
      Completes p [b] (Char.ofNat (p.value * 64 + (b.toNat - 0x80)))
  | more {p : Pending} {b : UInt8} {bs : List UInt8} {c : Char} (howed : p.owed ≠ 1)
      (hrange : p.low ≤ b.toNat ∧ b.toNat ≤ p.high)
      (h : Completes ⟨p.value * 64 + (b.toNat - 0x80), p.owed - 1, 0x80, 0xBF⟩ bs c) :
      Completes p (b :: bs) c

namespace Completes

variable {p : Pending} {bs : List UInt8} {c : Char}

theorem decodeAfter_append (h : Completes p bs c) (rest : List UInt8) :
    decodeAfter (some p) (bs ++ rest) = c :: decode rest := by
  induction h with
  | last howed hrange => simp [decodeAfter, step, hrange, howed, decode]
  | more howed hrange _ ih => simpa [decodeAfter, step, hrange, howed] using ih

/-- A character that is not ended is read as one replacement character. -/
theorem decodeAfter_take (h : Completes p bs c) {n : Nat} (hn : n < bs.length) :
    decodeAfter (some p) (bs.take n) = [replacement] := by
  induction h generalizing n with
  | last _ _ =>
      have hzero : n = 0 := by simpa using hn
      simp [hzero, decodeAfter]
  | more howed hrange _ ih =>
      cases n with
      | zero => simp [decodeAfter]
      | succ n => simpa [decodeAfter, step, hrange, howed] using ih (by simpa using hn)

theorem le_of_mem (h : Completes p bs c) (hlow : 0x80 ≤ p.low) : ∀ b ∈ bs, 0x80 ≤ b.toNat := by
  induction h with
  | last _ hrange => simpa using Nat.le_trans hlow hrange.1
  | more _ hrange _ ih => simpa using ⟨Nat.le_trans hlow hrange.1, ih (Nat.le_refl _)⟩

end Completes

theorem completes_last (c : Char) :
    Completes ⟨c.toNat / 64, 1, 0x80, 0xBF⟩ [UInt8.ofNat (c.toNat % 64 + 0x80)] c := by
  have hbyte := UInt8.toNat_ofNat_of_lt' (show c.toNat % 64 + 0x80 < 256 by omega)
  have hvalue : c.toNat / 64 * 64 + (c.toNat % 64 + 0x80 - 0x80) = c.toNat := by omega
  have hlast := Completes.last (p := ⟨c.toNat / 64, 1, 0x80, 0xBF⟩)
    (b := UInt8.ofNat (c.toNat % 64 + 0x80)) rfl (by rw [hbyte]; simp only; omega)
  rwa [hbyte, hvalue, c.ofNat_toNat] at hlast

theorem completes_more {value owed low high : Nat} {bs : List UInt8} {c : Char} (howed : owed ≠ 0)
    (hrange : low ≤ value % 64 + 0x80 ∧ value % 64 + 0x80 ≤ high)
    (h : Completes ⟨value, owed, 0x80, 0xBF⟩ bs c) :
    Completes ⟨value / 64, owed + 1, low, high⟩ (UInt8.ofNat (value % 64 + 0x80) :: bs) c := by
  have hbyte := UInt8.toNat_ofNat_of_lt' (show value % 64 + 0x80 < 256 by omega)
  have hvalue : value / 64 * 64 + (value % 64 + 0x80 - 0x80) = value := by omega
  apply Completes.more
  · simpa using howed
  · rw [hbyte]
    exact hrange
  · rw [hbyte, hvalue]
    exact h

/-- The four ways to write a character. -/
theorem utf8EncodeChar_eq (c : Char) :
    String.utf8EncodeChar c =
      let value := c.toNat
      if value < 0x80 then [UInt8.ofNat value]
      else if value < 0x800 then
        [UInt8.ofNat (value / 64 + 0xC0), UInt8.ofNat (value % 64 + 0x80)]
      else if value < 0x10000 then
        [UInt8.ofNat (value / 64 / 64 + 0xE0), UInt8.ofNat (value / 64 % 64 + 0x80),
          UInt8.ofNat (value % 64 + 0x80)]
      else
        [UInt8.ofNat (value / 64 / 64 / 64 + 0xF0), UInt8.ofNat (value / 64 / 64 % 64 + 0x80),
          UInt8.ofNat (value / 64 % 64 + 0x80), UInt8.ofNat (value % 64 + 0x80)] := by
  have hvalid : c.val.toNat.isValidChar := c.valid
  rw [Nat.isValidChar] at hvalid
  simp only [String.utf8EncodeChar, Char.toNat, Nat.div_div_eq_div_mul, Nat.reduceMul]
  generalize c.val.toNat = value at hvalid
  by_cases hone : value < 0x80
  · rw [if_pos (by omega), if_pos hone]
  rw [if_neg (by omega), if_neg hone]
  by_cases htwo : value < 0x800
  · rw [if_pos (by omega), if_pos htwo, Nat.mod_eq_of_lt (a := value / 64) (by omega)]
  rw [if_neg (by omega), if_neg htwo]
  by_cases hthree : value < 0x10000
  · rw [if_pos (by omega), if_pos hthree, Nat.mod_eq_of_lt (a := value / 4096) (by omega)]
  · rw [if_neg (by omega), if_neg hthree, Nat.mod_eq_of_lt (a := value / 262144) (by omega)]

theorem utf8EncodeChar_ne_nil (c : Char) : String.utf8EncodeChar c ≠ [] := by
  apply List.ne_nil_of_length_pos
  rw [String.length_utf8EncodeChar]
  exact c.utf8Size_pos

theorem start_two {n : Nat} (hlow : 2 ≤ n) (hhigh : n < 0x20) :
    start (UInt8.ofNat (n + 0xC0)) = ([], some ⟨n, 1, 0x80, 0xBF⟩) := by
  have hbyte := UInt8.toNat_ofNat_of_lt' (show n + 0xC0 < 256 by omega)
  simp only [start, hbyte, Nat.add_sub_cancel]
  rw [if_neg (by omega), if_neg (by omega), if_pos (by omega)]

theorem start_three {n : Nat} (h : n < 0x10) :
    start (UInt8.ofNat (n + 0xE0)) =
      ([], some ⟨n, 2, if n = 0 then 0xA0 else 0x80, if n = 0xD then 0x9F else 0xBF⟩) := by
  have hbyte := UInt8.toNat_ofNat_of_lt' (show n + 0xE0 < 256 by omega)
  simp only [start, hbyte, Nat.add_sub_cancel, Nat.add_eq_right, Nat.reduceEqDiff]
  rw [if_neg (by omega), if_neg (by omega), if_neg (by omega), if_pos (by omega)]

theorem start_four {n : Nat} (h : n < 5) :
    start (UInt8.ofNat (n + 0xF0)) =
      ([], some ⟨n, 3, if n = 0 then 0x90 else 0x80, if n = 4 then 0x8F else 0xBF⟩) := by
  have hbyte := UInt8.toNat_ofNat_of_lt' (show n + 0xF0 < 256 by omega)
  simp only [start, hbyte, Nat.add_sub_cancel, Nat.add_eq_right, Nat.reduceEqDiff]
  rw [if_neg (by omega), if_neg (by omega), if_neg (by omega), if_neg (by omega),
    if_pos (by omega)]

/-- A character is written as itself, or as a byte that begins it and those that it then owes. -/
theorem utf8EncodeChar_cases (c : Char) :
    (c.toNat < 0x80 ∧ String.utf8EncodeChar c = [UInt8.ofNat c.toNat]) ∨
      0x80 ≤ c.toNat ∧ ∃ b p bs, String.utf8EncodeChar c = b :: bs ∧ start b = ([], some p) ∧
        Completes p bs c := by
  have hvalid : c.toNat.isValidChar := c.valid
  rw [Nat.isValidChar] at hvalid
  have hlast := completes_last c
  rw [utf8EncodeChar_eq]
  generalize c.toNat = value at hvalid hlast
  simp only
  by_cases hone : value < 0x80
  · exact .inl ⟨hone, if_pos hone⟩
  refine .inr ⟨by omega, ?_⟩
  rw [if_neg hone]
  by_cases htwo : value < 0x800
  · rw [if_pos htwo]
    exact ⟨_, _, _, rfl, start_two (by omega) (by omega), hlast⟩
  rw [if_neg htwo]
  -- The narrower ranges of the second byte are those of the characters that there are.
  by_cases hthree : value < 0x10000
  · rw [if_pos hthree]
    refine ⟨_, _, _, rfl, start_three (by omega), completes_more (by decide) ?_ hlast⟩
    constructor <;> split <;> omega
  · rw [if_neg hthree]
    refine ⟨_, _, _, rfl, start_four (by omega), completes_more (by decide) ?_
      (completes_more (by decide) (by omega) hlast)⟩
    constructor <;> split <;> omega

/-- What begins a character is no character, and neither is what may come next. -/
theorem le_of_start {b : UInt8} {p : Pending} (h : start b = ([], some p)) :
    0x80 ≤ b.toNat ∧ 0x80 ≤ p.low := by
  by_cases hone : b.toNat < 0x80
  · simp [start, hone] at h
  refine ⟨Nat.le_of_not_lt hone, ?_⟩
  simp only [start, if_neg hone] at h
  split at h
  · simp at h
  split at h
  · obtain rfl : _ = p := by simpa using h
    simp
  split at h
  · obtain rfl : _ = p := by simpa using h
    simp only
    split <;> decide
  split at h
  · obtain rfl : _ = p := by simpa using h
    simp only
    split <;> decide
  · simp at h

theorem le_toNat_of_one_lt {c : Char} (h : 1 < (String.utf8EncodeChar c).length) :
    0x80 ≤ c.toNat := by
  rcases utf8EncodeChar_cases c with ⟨_, hencode⟩ | ⟨hlong, _⟩
  · rw [hencode] at h
    simp at h
  · exact hlong

theorem le_of_mem_utf8EncodeChar {c : Char} (h : 0x80 ≤ c.toNat) {b : UInt8}
    (hb : b ∈ String.utf8EncodeChar c) : 0x80 ≤ b.toNat := by
  rcases utf8EncodeChar_cases c with ⟨hone, _⟩ | ⟨_, b', p, bs, hencode, hstart, hcompletes⟩
  · omega
  · obtain ⟨hfirst, hlow⟩ := le_of_start hstart
    rw [hencode] at hb
    rcases List.mem_cons.mp hb with rfl | hb
    · exact hfirst
    · exact hcompletes.le_of_mem hlow b hb

/-! ## Reading -/

theorem decode_utf8EncodeChar_append (c : Char) (rest : List UInt8) :
    decode (String.utf8EncodeChar c ++ rest) = c :: decode rest := by
  rcases utf8EncodeChar_cases c with ⟨hone, hencode⟩ | ⟨_, b, p, bs, hencode, hstart, hcompletes⟩
  · have hbyte := UInt8.toNat_ofNat_of_lt' (show c.toNat < 256 by omega)
    simp [hencode, decode, decodeAfter, step, start, hbyte, hone, Char.ofNat_toNat]
  · simp [hencode, decode, decodeAfter, step, hstart, hcompletes.decodeAfter_append]

/-- A character that breaks off is read as one replacement character. -/
theorem decode_take_utf8EncodeChar (c : Char) {n : Nat} (hpos : 0 < n)
    (hn : n < (String.utf8EncodeChar c).length) :
    decode ((String.utf8EncodeChar c).take n) = [replacement] := by
  obtain ⟨m, rfl⟩ := Nat.exists_eq_succ_of_ne_zero (Nat.ne_of_gt hpos)
  rcases utf8EncodeChar_cases c with ⟨_, hencode⟩ | ⟨_, b, p, bs, hencode, hstart, hcompletes⟩
  · rw [hencode] at hn
    simp at hn
  · rw [hencode] at hn ⊢
    have htake := hcompletes.decodeAfter_take (n := m) (by simpa using hn)
    simp [decode, decodeAfter, step, hstart, htake]

end QuoteFeed.Utf8
