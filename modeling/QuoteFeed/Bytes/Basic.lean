/-! # Byte strings of a fixed length

A symbol is eight bytes and a record's padding ten, whatever they are made from: the length is part
of the type, so no operation can change it.
-/

namespace QuoteFeed

/-- A string of exactly `n` bytes. -/
structure Bytes (n : Nat) where
  toList : List UInt8
  length_toList : toList.length = n
deriving DecidableEq

namespace Bytes

attribute [simp] length_toList

@[ext] theorem ext {n : Nat} {a b : Bytes n} (h : a.toList = b.toList) : a = b := by
  cases a
  cases b
  simpa using h

def replicate (n : Nat) (b : UInt8) : Bytes n :=
  ⟨List.replicate n b, by simp⟩

/-- The list as a string of `n` bytes, if that is its length. -/
def ofList? (n : Nat) (bs : List UInt8) : Option (Bytes n) :=
  if h : bs.length = n then some ⟨bs, h⟩ else none

/-- The first `n` bytes of a list that has as many. -/
def ofTake (n : Nat) (bs : List UInt8) (h : n ≤ bs.length) : Bytes n :=
  ⟨bs.take n, by simp [h]⟩

/-- The first `n` bytes of any list, filled up with `fill` at the end. -/
def padded (n : Nat) (fill : UInt8) (bs : List UInt8) : Bytes n :=
  ⟨bs.take n ++ List.replicate (n - bs.length) fill, by simp; omega⟩

@[simp] theorem toList_replicate (n : Nat) (b : UInt8) :
    (replicate n b).toList = List.replicate n b := rfl

@[simp] theorem toList_ofTake (n : Nat) (bs : List UInt8) (h : n ≤ bs.length) :
    (ofTake n bs h).toList = bs.take n := rfl

@[simp] theorem toList_padded (n : Nat) (fill : UInt8) (bs : List UInt8) :
    (padded n fill bs).toList = bs.take n ++ List.replicate (n - bs.length) fill := rfl

theorem ofList?_eq_some_iff {n : Nat} {bs : List UInt8} {b : Bytes n} :
    ofList? n bs = some b ↔ b.toList = bs := by
  unfold ofList?
  split
  · next h => simp [Bytes.ext_iff, eq_comm]
  · next h =>
      simp only [reduceCtorEq, false_iff]
      intro hb
      exact h (by rw [← hb, b.length_toList])

end Bytes

end QuoteFeed
