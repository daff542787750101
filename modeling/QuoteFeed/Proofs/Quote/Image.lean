import Mathlib.Logic.ExistsUnique
import QuoteFeed.Quote.Image

/-! # The image of a quote is faithful

The places of the fields are those that the rule for structures gives, and they fill the image
without a gap. So a quote and its image determine each other, field by field: what one byte of the
image shows belongs to one field, and to nothing else. -/

namespace QuoteFeed

/-! ## Words as they are stored -/

namespace Bytes

theorem getElem?_littleEndian {width k : Nat} (x : Nat) (h : k < width) :
    (littleEndian width x)[k]? = some (UInt8.ofNat (x / 256 ^ k)) := by
  induction width generalizing x k with
  | zero => omega
  | succ width ih =>
      cases k with
      | zero => simp [littleEndian]
      | succ k =>
          rw [littleEndian, List.getElem?_cons_succ, ih _ (by omega), Nat.div_div_eq_div_mul,
            Nat.pow_succ']

theorem ofNat_ofLittleEndian_of_64 (x : UInt64) :
    UInt64.ofNat (ofLittleEndian (littleEndian 8 x.toNat)) = x := by
  rw [ofLittleEndian_littleEndian, Nat.mod_eq_of_lt x.toNat_lt, UInt64.ofNat_toNat]

theorem ofNat_ofLittleEndian_of_32 (x : UInt32) :
    UInt32.ofNat (ofLittleEndian (littleEndian 4 x.toNat)) = x := by
  rw [ofLittleEndian_littleEndian, Nat.mod_eq_of_lt x.toNat_lt, UInt32.ofNat_toNat]

theorem littleEndian_toNat_ofNat {width n : Nat} {bs : List UInt8} (h : bs.length = width)
    (hn : n = ofLittleEndian bs % 256 ^ width) : littleEndian width n = bs := by
  subst h
  rw [hn, Nat.mod_eq_of_lt (ofLittleEndian_lt bs), littleEndian_ofLittleEndian]

end Bytes

namespace Quote

/-! ## The places of the fields -/

namespace Field

/-- A number is aligned to its own size, and bytes are not aligned at all. -/
def alignment : Field → Nat
  | symbol | valid | flags | padding => 1
  | bidShares | askShares | sequence => 4
  | bid | ask | spread | timestamp => 8

/-- The first multiple of an alignment that is not below `n`. -/
def alignUp (n alignment : Nat) : Nat :=
  n + (alignment - n % alignment) % alignment

/-- Lays fields one after the other, each at the first place that its alignment allows; also tells
where the last one ends. -/
def place : Nat → List Field → List (Field × Nat) × Nat
  | start, [] => ([], start)
  | start, f :: fields =>
      let offset := alignUp start f.alignment
      let rest := place (offset + f.width) fields
      ((f, offset) :: rest.1, rest.2)

/-- The byte at `i` belongs to the field. -/
def Covers (f : Field) (i : Nat) : Prop :=
  f.offset ≤ i ∧ i < f.offset + f.width

/-- The fields fill the bytes from `start` up to `stop`, each from where the one before it ends. -/
def Tiles : Nat → List Field → Nat → Prop
  | start, [], stop => start = stop
  | start, f :: fields, stop => f.offset = start ∧ Tiles (start + f.width) fields stop

theorem all_tiles : Tiles 0 all 64 := by
  simp [Tiles, all, offset, width]

theorem mem_all (f : Field) : f ∈ all := by
  cases f <;> decide

namespace Tiles

variable {start stop : Nat} {fields : List Field}

theorem le (h : Tiles start fields stop) : start ≤ stop := by
  induction fields generalizing start with
  | nil => exact Nat.le_of_eq h
  | cons f fields ih => exact Nat.le_trans (Nat.le_add_right start f.width) (ih h.2)

theorem le_offset (h : Tiles start fields stop) {f : Field} (hf : f ∈ fields) :
    start ≤ f.offset := by
  induction fields generalizing start with
  | nil => cases hf
  | cons g fields ih =>
      rcases List.mem_cons.mp hf with rfl | hf
      · exact Nat.le_of_eq h.1.symm
      · exact Nat.le_trans (Nat.le_add_right start g.width) (ih h.2 hf)

theorem add_width_le (h : Tiles start fields stop) {f : Field} (hf : f ∈ fields) :
    f.offset + f.width ≤ stop := by
  induction fields generalizing start with
  | nil => cases hf
  | cons g fields ih =>
      rcases List.mem_cons.mp hf with rfl | hf
      · exact h.1.symm ▸ h.2.le
      · exact ih h.2 hf

/-- Every byte belongs to one of the fields, and to no other. -/
theorem existsUnique_covers (h : Tiles start fields stop) {i : Nat} (hle : start ≤ i)
    (hlt : i < stop) : ∃! f, f ∈ fields ∧ f.Covers i := by
  induction fields generalizing start with
  | nil =>
      have hstop : start = stop := h
      omega
  | cons f fields ih =>
      obtain ⟨hstart, htail⟩ := h
      by_cases hi : i < start + f.width
      · refine ⟨f, ⟨List.mem_cons_self, by omega, by omega⟩, ?_⟩
        rintro g ⟨hg, hcovers, _⟩
        rcases List.mem_cons.mp hg with rfl | hg
        · rfl
        · have := htail.le_offset hg
          omega
      · obtain ⟨g, ⟨hg, hcovers⟩, hunique⟩ := ih htail (Nat.le_of_not_lt hi)
        refine ⟨g, ⟨List.mem_cons_of_mem f hg, hcovers⟩, ?_⟩
        rintro other ⟨hother, hother'⟩
        rcases List.mem_cons.mp hother with rfl | hother
        · exact absurd (hstart ▸ hother'.2) hi
        · exact hunique other ⟨hother, hother'⟩

/-- Where fields are written one after the other, each is found at its place. -/
theorem slice_flatMap (h : Tiles start fields stop) {bytes : Field → List UInt8}
    (hlength : ∀ f, (bytes f).length = f.width) {f : Field} (hf : f ∈ fields) :
    ((fields.flatMap bytes).drop (f.offset - start)).take f.width = bytes f := by
  induction fields generalizing start with
  | nil => cases hf
  | cons g fields ih =>
      obtain ⟨hstart, htail⟩ := h
      rcases List.mem_cons.mp hf with rfl | hf
      · rw [hstart, Nat.sub_self, List.drop_zero, List.flatMap_cons, List.take_left' (hlength f)]
      · have hle := htail.le_offset hf
        have hoffset : f.offset - start =
            (bytes g).length + (f.offset - (start + g.width)) := by
          rw [hlength]
          omega
        rw [hoffset, List.flatMap_cons, List.drop_length_add_append, ih htail hf]

/-- What is cut at the places of the fields is whole when it is put together again. -/
theorem flatMap_slice (h : Tiles start fields stop) (memory : Bytes 64) :
    fields.flatMap (slice memory) = (memory.toList.drop start).take (stop - start) := by
  induction fields generalizing start with
  | nil =>
      have hstop : start = stop := h
      simp [hstop]
  | cons f fields ih =>
      obtain ⟨hstart, htail⟩ := h
      have hle := htail.le
      have hsize : stop - start = f.width + (stop - (start + f.width)) := by omega
      rw [List.flatMap_cons, ih htail, hsize, List.take_add, List.drop_drop, slice, hstart]

end Tiles

theorem existsUnique_covers {i : Nat} (h : i < 64) : ∃! f : Field, f.Covers i := by
  simpa [mem_all] using all_tiles.existsUnique_covers (Nat.zero_le i) h

theorem eq_of_covers {f g : Field} {i : Nat} (hf : f.Covers i) (hg : g.Covers i) : f = g := by
  have hi : i < 64 := Nat.lt_of_lt_of_le hf.2 (all_tiles.add_width_le f.mem_all)
  exact (existsUnique_covers hi).unique hf hg

end Field

/-! ## Bytes of an image -/

theorem slice_image (q : Quote) (f : Field) : slice q.image f = q.fieldBytes f :=
  Field.all_tiles.slice_flatMap q.length_fieldBytes f.mem_all

theorem getElem?_slice (memory : Bytes 64) {f : Field} {k : Nat} (h : k < f.width) :
    (slice memory f)[k]? = memory.toList[f.offset + k]? := by
  rw [slice, List.getElem?_take_of_lt h, List.getElem?_drop]

/-- The byte of a field at a place in it: that of a number is a digit to base 256, and the place
is its rank. -/
def byteOf (q : Quote) : Field → Nat → UInt8
  | .symbol, k => q.symbol.toList.getD k 0
  | .bid, k => UInt8.ofNat (q.bid.bits.toNat / 256 ^ k)
  | .ask, k => UInt8.ofNat (q.ask.bits.toNat / 256 ^ k)
  | .bidShares, k => UInt8.ofNat (q.bidShares.toNat / 256 ^ k)
  | .askShares, k => UInt8.ofNat (q.askShares.toNat / 256 ^ k)
  | .spread, k => UInt8.ofNat (q.spread.bits.toNat / 256 ^ k)
  | .timestamp, k => UInt8.ofNat (q.timestamp.toNat / 256 ^ k)
  | .sequence, k => UInt8.ofNat (q.sequence.toNat / 256 ^ k)
  | .valid, _ => q.valid
  | .flags, _ => q.flags
  | .padding, k => q.padding.toList.getD k 0

theorem getElem?_fieldBytes (q : Quote) {f : Field} {k : Nat} (h : k < f.width) :
    (q.fieldBytes f)[k]? = some (q.byteOf f k) := by
  have hbytes : ∀ {n : Nat} (bs : Bytes n), k < n → bs.toList[k]? = some (bs.toList.getD k 0) := by
    intro n bs hk
    rw [List.getD_eq_getElem?_getD, List.getElem?_eq_getElem (by rwa [bs.length_toList])]
    rfl
  cases f with
  | symbol => exact hbytes q.symbol h
  | padding => exact hbytes q.padding h
  | valid | flags =>
      obtain rfl : k = 0 := Nat.lt_one_iff.mp h
      rfl
  | _ => exact Bytes.getElem?_littleEndian _ h

/-- The quote is stored as the image: every field at its place, and numbers with their lowest byte
first. -/
def StoredAs (q : Quote) (memory : Bytes 64) : Prop :=
  ∀ f k, k < f.width → memory.toList[f.offset + k]? = some (q.byteOf f k)

theorem storedAs_image (q : Quote) : q.StoredAs q.image := by
  intro f k hk
  rw [← getElem?_slice _ hk, slice_image, getElem?_fieldBytes q hk]

theorem storedAs_iff {q : Quote} {memory : Bytes 64} : q.StoredAs memory ↔ q.image = memory := by
  constructor
  · intro h
    apply Bytes.ext
    apply List.ext_getElem?
    intro i
    by_cases hi : i < 64
    · obtain ⟨f, ⟨hle, hlt⟩, _⟩ := Field.existsUnique_covers hi
      obtain ⟨k, rfl⟩ := Nat.exists_eq_add_of_le hle
      have hk : k < f.width := by omega
      rw [h f k hk, q.storedAs_image f k hk]
    · rw [List.getElem?_eq_none (by simpa using hi), List.getElem?_eq_none (by simpa using hi)]
  · rintro rfl
    exact q.storedAs_image

/-- The lowest byte of a number comes first. -/
example : ({ blank with sequence := 0x01020304 } : Quote).image.toList.drop 48 =
    [4, 3, 2, 1] ++ List.replicate 12 0 := by
  decide

/-! ## Reading an image -/

theorem fieldBytes_ofImage (memory : Bytes 64) (f : Field) :
    (ofImage memory).fieldBytes f = slice memory f := by
  have hlength := length_slice memory f
  have hbytes := Bytes.littleEndian_ofLittleEndian (slice memory f)
  rw [hlength] at hbytes
  cases f with
  | symbol | padding => rfl
  | valid | flags => exact hbytes
  | bidShares | askShares | sequence =>
      exact Bytes.littleEndian_toNat_ofNat hlength UInt32.toNat_ofNat'
  | bid | ask | spread | timestamp =>
      exact Bytes.littleEndian_toNat_ofNat hlength UInt64.toNat_ofNat'

theorem image_ofImage (memory : Bytes 64) : (ofImage memory).image = memory := by
  have hslices : (ofImage memory).fieldBytes = slice memory := funext (fieldBytes_ofImage memory)
  apply Bytes.ext
  change Field.all.flatMap (ofImage memory).fieldBytes = memory.toList
  rw [hslices, Field.all_tiles.flatMap_slice]
  exact List.take_of_length_le (by simp)

theorem ofImage_image (q : Quote) : ofImage q.image = q := by
  obtain ⟨symbol, bid, ask, bidShares, askShares, spread, timestamp, sequence, valid, flags,
    padding⟩ := q
  simp [ofImage, slice_image, fieldBytes, Bytes.ofNat_ofLittleEndian_of_64,
    Bytes.ofNat_ofLittleEndian_of_32, Bytes.ofLittleEndian]

/-! ## Fields on their own -/

/-- What a field of a quote holds. -/
abbrev Field.Value : Field → Type
  | symbol => Bytes 8
  | bid | ask | spread => Binary64
  | bidShares | askShares | sequence => UInt32
  | timestamp => UInt64
  | valid | flags => UInt8
  | padding => Bytes 10

def get (q : Quote) : (f : Field) → f.Value
  | .symbol => q.symbol
  | .bid => q.bid
  | .ask => q.ask
  | .bidShares => q.bidShares
  | .askShares => q.askShares
  | .spread => q.spread
  | .timestamp => q.timestamp
  | .sequence => q.sequence
  | .valid => q.valid
  | .flags => q.flags
  | .padding => q.padding

/-- A field depends on its own bytes, and its bytes depend on the field. -/
theorem get_eq_get_iff {p q : Quote} {f : Field} :
    p.get f = q.get f ↔ slice p.image f = slice q.image f := by
  constructor
  · intro h
    rw [slice_image, slice_image]
    cases f <;> simp_all [get, fieldBytes]
  · intro h
    rw [← p.ofImage_image, ← q.ofImage_image]
    cases f <;> simp [get, ofImage, h]

/-- Two images agree in the bytes of all fields but one exactly if the quotes agree in all of these
fields. -/
theorem forall_get_eq_get_iff {p q : Quote} {f : Field} :
    (∀ g, g ≠ f → p.get g = q.get g) ↔
      ∀ i, ¬ f.Covers i → p.image.toList[i]? = q.image.toList[i]? := by
  constructor
  · intro h i hi
    by_cases hlt : i < 64
    · obtain ⟨g, hcovers, _⟩ := Field.existsUnique_covers hlt
      have hslice := get_eq_get_iff.mp (h g fun hg => hi (hg ▸ hcovers))
      obtain ⟨k, rfl⟩ := Nat.exists_eq_add_of_le hcovers.1
      have hk : k < g.width := Nat.lt_of_add_lt_add_left hcovers.2
      rw [← getElem?_slice _ hk, ← getElem?_slice _ hk, hslice]
    · rw [List.getElem?_eq_none (by simpa using hlt), List.getElem?_eq_none (by simpa using hlt)]
  · intro h g hg
    apply get_eq_get_iff.mpr
    apply List.ext_getElem?
    intro k
    by_cases hk : k < g.width
    · rw [getElem?_slice _ hk, getElem?_slice _ hk]
      apply h
      intro hcovers
      have hmine : g.Covers (g.offset + k) := ⟨Nat.le_add_right _ k, Nat.add_lt_add_left hk _⟩
      exact hg (Field.eq_of_covers hmine hcovers)
    · rw [List.getElem?_eq_none (by simpa using hk), List.getElem?_eq_none (by simpa using hk)]

/-- How quotes and the images of 64 bytes go together. -/
structure ImageSpec (q : Quote) (memory : Bytes 64) : Prop where
  /-- The rule for structures leaves no gap between the fields, taken in the order they are declared
  in, and none behind the last one: the structure is a cache line. -/
  placed : Field.place 0 Field.all =
    ([(.symbol, 0), (.bid, 8), (.ask, 16), (.bidShares, 24), (.askShares, 28), (.spread, 32),
      (.timestamp, 40), (.sequence, 48), (.valid, 52), (.flags, 53), (.padding, 54)], 64)
  size : Field.alignUp (Field.place 0 Field.all).2 cacheLineSize = 64
  offset : ∀ place ∈ (Field.place 0 Field.all).1, place.1.offset = place.2
  covered : ∀ i < 64, ∃! f : Field, f.Covers i
  stored : q.StoredAs memory ↔ q.image = memory
  read : q.image = memory ↔ ofImage memory = q
  one : ∃! p : Quote, p.image = memory
  /-- What changes one field changes no byte but those of the field, and the other way round. -/
  changed : ∀ (p : Quote) (f : Field), (∀ g, g ≠ f → p.get g = q.get g) ↔
    ∀ i, ¬ f.Covers i → p.image.toList[i]? = q.image.toList[i]?

theorem image_imageSpec (q : Quote) (memory : Bytes 64) : ImageSpec q memory where
  placed := rfl
  size := rfl
  offset := by decide
  covered _ hi := Field.existsUnique_covers hi
  stored := storedAs_iff
  read := by
    constructor
    · rintro rfl
      exact q.ofImage_image
    · rintro rfl
      exact image_ofImage memory
  one := by
    refine ⟨ofImage memory, image_ofImage memory, ?_⟩
    rintro p rfl
    exact p.ofImage_image.symm
  changed _ _ := forall_get_eq_get_iff

end Quote

end QuoteFeed
