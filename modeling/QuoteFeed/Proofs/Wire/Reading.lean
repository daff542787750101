import QuoteFeed.Proofs.Wire.Format

/-! # Reading words

A payload that holds the mandatory fields is viewed, and then no field is read from beyond its end.
A word may be asked for at any offset: it is there exactly if its four bytes are, also where the
offset of its end does not fit a word of the machine. -/

namespace QuoteFeed.Wire

/-! ## Offsets as words -/

/-- The sum of two words, unless it wraps. -/
def sum? (a b : UInt64) : Option UInt64 :=
  if a ≤ a + b then some (a + b) else none

theorem sum?_eq_some_iff {a b c : UInt64} : sum? a b = some c ↔ c.toNat = a.toNat + b.toNat := by
  have ha := a.toNat_lt
  have hb := b.toNat_lt
  have hc := c.toNat_lt
  rw [sum?]
  simp only [UInt64.le_iff_toNat_le, UInt64.toNat_add]
  split
  · rw [Option.some_inj, ← UInt64.toNat_inj, UInt64.toNat_add]
    omega
  · simp only [reduceCtorEq, false_iff]
    omega

/-- The bytes of a payload from one offset up to another, unless the payload ends before or the
offsets are the wrong way round. -/
def cut? (payload : Payload) (first last : UInt64) : Option (List UInt8) :=
  if first ≤ last ∧ last.toNat ≤ payload.length then
    some ((payload.drop first.toNat).take (last.toNat - first.toNat))
  else none

theorem cut?_eq_some {payload : Payload} {first last : UInt64} {n : Nat}
    (h : last.toNat = first.toNat + n) (hle : last.toNat ≤ payload.length) :
    cut? payload first last = some ((payload.drop first.toNat).take n) := by
  have hfirst : first ≤ last := by
    rw [UInt64.le_iff_toNat_le]
    omega
  rw [cut?, if_pos ⟨hfirst, hle⟩, h, Nat.add_sub_cancel_left]

/-! ## Words of a view -/

namespace View

theorem word?_eq_some_iff {v : View} {offset : UInt64} {word : UInt32} :
    v.word? offset = some word ↔
      offset.toNat + 4 ≤ v.payload.length ∧ word.toNat = numberAt v.payload offset.toNat := by
  rw [word?]
  split
  · next h => rw [Option.some_inj, ← UInt32.toNat_inj, toNat_wordAt, eq_comm, and_iff_right h]
  · next h => simp [h]

theorem word?_eq_none_iff {v : View} {offset : UInt64} :
    v.word? offset = none ↔ v.payload.length < offset.toNat + 4 := by
  rw [word?]
  split <;> simp <;> omega

/-- The end of a word may be reckoned in a word of the machine, if its wrapping is noticed. -/
theorem word?_eq_bind (v : View) (h : v.payload.length < 2 ^ 64) (offset : UInt64) :
    v.word? offset = (sum? offset 4).bind fun last =>
      (cut? v.payload offset last).map fun bytes => UInt32.ofNat (spelled bytes) := by
  by_cases hle : offset.toNat + 4 ≤ v.payload.length
  · have hlast : (offset + 4).toNat = offset.toNat + 4 := by
      rw [UInt64.toNat_add]
      exact Nat.mod_eq_of_lt (Nat.lt_of_le_of_lt hle h)
    rw [sum?_eq_some_iff.mpr hlast, Option.bind_some, cut?_eq_some hlast (hlast ▸ hle), word?,
      dif_pos hle, wordAt, ofBigEndian_eq_spelled, Option.map_some]
  · rw [word?_eq_none_iff.mpr (Nat.lt_of_not_le hle)]
    cases hsum : sum? offset 4 with
    | none => rfl
    | some last =>
        have hlast : last.toNat = offset.toNat + 4 := sum?_eq_some_iff.mp hsum
        rw [Option.bind_some, cut?, if_neg fun hcut => hle (hlast ▸ hcut.2), Option.map_none]

theorem exists_cut?_mandatory (v : View) (offset : Nat) (h : offset + 4 ≤ minSize) :
    ∃ bytes, cut? v.payload (UInt64.ofNat offset) (UInt64.ofNat offset + 4) = some bytes ∧
      (v.mandatory offset h).toNat = spelled bytes := by
  have hlt : offset + 4 < 2 ^ 64 := Nat.lt_of_le_of_lt h (by decide)
  have hfirst : (UInt64.ofNat offset).toNat = offset := by
    rw [UInt64.toNat_ofNat', Nat.mod_eq_of_lt (by omega)]
  have hlast : (UInt64.ofNat offset + 4).toNat = offset + 4 := by
    rw [UInt64.toNat_add, hfirst]
    exact Nat.mod_eq_of_lt hlt
  refine ⟨(v.payload.drop offset).take 4, ?_, v.toNat_mandatory offset h⟩
  rw [cut?_eq_some (hlast.trans (congrArg (· + 4) hfirst.symm)), hfirst]
  rw [hlast]
  exact Nat.le_trans h v.minSize_le

/-! ## All that is read -/

/-- What a view tells about its payload. -/
structure Reads (v : View) (payload : Payload) : Prop where
  size : v.size = payload.length
  word_iff : ∀ offset : UInt64,
    (∃ word, v.word? offset = some word) ↔ offset.toNat + 4 ≤ payload.length
  word : ∀ offset word, v.word? offset = some word → word.toNat = numberAt payload offset.toNat
  /-- No payload fills the whole range of offsets, so no word wraps round its end. -/
  last : payload.length < 2 ^ 64 → ∀ offset : UInt64, 2 ^ 64 ≤ offset.toNat + 4 →
    v.word? offset = none
  reckoned : payload.length < 2 ^ 64 → ∀ offset, v.word? offset =
    (sum? offset 4).bind fun last =>
      (cut? payload offset last).map fun bytes => UInt32.ofNat (spelled bytes)
  symbol : cut? payload 0 8 = some v.symbol.toList
  /-- The bytes of a mandatory word are always there to be cut out, and the word is the one that may
  be asked for at its offset. -/
  mandatory : ∀ field ∈ [((8 : UInt64), v.bidRaw), (12, v.bidShares), (16, v.askRaw),
      (20, v.askShares), (24, v.spreadRaw)],
    (∃ bytes, cut? payload field.1 (field.1 + 4) = some bytes ∧ field.2.toNat = spelled bytes) ∧
    v.word? field.1 = some field.2
  markers_none_iff : v.markers? = none ↔ payload.length < 44
  markers : 44 ≤ payload.length → ∃ m, v.markers? = some m ∧
    v.word? 28 = some m.parseStart ∧ v.word? 32 = some m.parseWrite ∧
    v.word? 36 = some m.outputRead ∧ v.word? 40 = some m.transmitStart

theorem reads (v : View) : v.Reads v.payload where
  size := rfl
  word_iff offset := by
    rw [← Option.ne_none_iff_exists', ne_eq, word?_eq_none_iff, Nat.not_lt]
  word _ _ hword := (word?_eq_some_iff.mp hword).2
  last hlt _ hle := word?_eq_none_iff.mpr (Nat.lt_of_lt_of_le hlt hle)
  reckoned := v.word?_eq_bind
  symbol := cut?_eq_some rfl (Nat.le_trans (by decide) v.minSize_le)
  mandatory := by
    have hfield : ∀ offset (h : offset + 4 ≤ minSize),
        v.word? (UInt64.ofNat offset) = some (v.mandatory offset h) := by
      intro offset h
      exact v.word?_of_le offset _ (Nat.lt_of_le_of_lt (by omega : offset ≤ minSize) (by decide))
    simp only [List.forall_mem_cons]
    refine ⟨⟨v.exists_cut?_mandatory 8 (by decide), hfield 8 _⟩,
      ⟨v.exists_cut?_mandatory 12 (by decide), hfield 12 _⟩,
      ⟨v.exists_cut?_mandatory 16 (by decide), hfield 16 _⟩,
      ⟨v.exists_cut?_mandatory 20 (by decide), hfield 20 _⟩,
      ⟨v.exists_cut?_mandatory 24 (by decide), hfield 24 _⟩, by simp⟩
  markers_none_iff := by
    by_cases hfull : 44 ≤ v.payload.length
    · simp [v.markers?_of_le hfull, hfull]
    · have hlt := Nat.lt_of_not_le hfull
      simp [v.markers?_of_lt hlt, hlt]
  markers hfull := by
    have hword : ∀ offset (h : offset + 4 ≤ 44),
        v.word? (UInt64.ofNat offset) = some (wordAt v.payload offset (Nat.le_trans h hfull)) := by
      intro offset h
      exact v.word?_of_le offset _ (by omega)
    exact ⟨_, v.markers?_of_le hfull, hword 28 (by decide), hword 32 (by decide),
      hword 36 (by decide), hword 40 (by decide)⟩

/-- What becomes of a payload that is to be read. -/
structure ReadingSpec (payload : Payload) : Prop where
  viewed_iff : (∃ v, of? payload = some v) ↔ 28 ≤ payload.length
  reads : ∀ v, of? payload = some v → v.Reads payload

theorem of?_readingSpec (payload : Payload) : ReadingSpec payload where
  viewed_iff := by
    rw [← Option.ne_none_iff_exists', ne_eq, of?_eq_none_iff, Nat.not_lt]
    rfl
  reads v hv := by
    obtain rfl := of?_eq_some_iff.mp hv
    exact v.reads

/-- The last marker of a payload of 43 bytes is broken off, and no marker is read. -/
example : (of? (.replicate 43 1)).map (fun v => (v.word? 36, v.word? 40, v.markers?)) =
    some (some 0x01010101, none, none) := by
  decide

end View

end QuoteFeed.Wire
