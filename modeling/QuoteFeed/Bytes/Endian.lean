import QuoteFeed.Arithmetic

/-! # Words as bytes

A number is written as its lowest base-256 digits, lowest first (`littleEndian`) or highest first
(`bigEndian`), and read back from them. Reading a written number gives it modulo the width.
-/

namespace QuoteFeed.Bytes

/-- The `width` lowest base-256 digits of `x`, lowest first. -/
def littleEndian : Nat → Nat → List UInt8
  | 0, _ => []
  | width + 1, x => UInt8.ofNat x :: littleEndian width (x / 256)

/-- The number whose base-256 digits, lowest first, are the bytes. -/
def ofLittleEndian : List UInt8 → Nat
  | [] => 0
  | b :: bs => b.toNat + 256 * ofLittleEndian bs

/-- The `width` lowest base-256 digits of `x`, highest first. -/
def bigEndian (width x : Nat) : List UInt8 :=
  (littleEndian width x).reverse

/-- The number whose base-256 digits, highest first, are the bytes. -/
def ofBigEndian (bs : List UInt8) : Nat :=
  ofLittleEndian bs.reverse

@[simp] theorem length_littleEndian (width x : Nat) : (littleEndian width x).length = width := by
  induction width generalizing x with
  | zero => rfl
  | succ width ih => simp [littleEndian, ih]

@[simp] theorem length_bigEndian (width x : Nat) : (bigEndian width x).length = width := by
  simp [bigEndian]

theorem ofLittleEndian_littleEndian (width x : Nat) :
    ofLittleEndian (littleEndian width x) = x % 256 ^ width := by
  induction width generalizing x with
  | zero => simp [littleEndian, ofLittleEndian, Nat.mod_one]
  | succ width ih =>
      rw [littleEndian, ofLittleEndian, ih, Nat.pow_succ', Nat.mod_mul]
      simp

theorem ofLittleEndian_lt (bs : List UInt8) : ofLittleEndian bs < 256 ^ bs.length := by
  induction bs with
  | nil => simp [ofLittleEndian]
  | cons b bs ih =>
      have hb : b.toNat < 256 := b.toNat_lt
      rw [ofLittleEndian, List.length_cons, Nat.pow_succ]
      omega

theorem littleEndian_ofLittleEndian (bs : List UInt8) :
    littleEndian bs.length (ofLittleEndian bs) = bs := by
  induction bs with
  | nil => rfl
  | cons b bs ih =>
      have hb : b.toNat < 256 := b.toNat_lt
      rw [List.length_cons, littleEndian, ofLittleEndian, Nat.add_mul_div_left _ _ (by decide),
        Nat.div_eq_of_lt hb, Nat.zero_add, ih]
      congr 1
      apply UInt8.toNat_inj.mp
      simp

theorem ofBigEndian_bigEndian (width x : Nat) :
    ofBigEndian (bigEndian width x) = x % 256 ^ width := by
  simp [ofBigEndian, bigEndian, ofLittleEndian_littleEndian]

theorem bigEndian_ofBigEndian (bs : List UInt8) :
    bigEndian bs.length (ofBigEndian bs) = bs := by
  have h := littleEndian_ofLittleEndian bs.reverse
  rw [List.length_reverse] at h
  rw [bigEndian, ofBigEndian, h, List.reverse_reverse]

theorem ofBigEndian_lt (bs : List UInt8) : ofBigEndian bs < 256 ^ bs.length := by
  simpa [ofBigEndian] using ofLittleEndian_lt bs.reverse

end QuoteFeed.Bytes
