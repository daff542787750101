import QuoteFeed.Arithmetic

/-! # Rings of slots

A ring hands out its slots one after the other and starts again at the first after the last. Slots
are never given back: a slot is reused when its turn comes again. The cursor counts acquisitions in
a word that wraps, and the slot is found by masking it. That is the remainder by the capacity, also
across the wrap, because the capacity is a power of two.
-/

namespace QuoteFeed

/-- Slots that are handed out in turn. -/
structure SlotRing (α : Type) where
  slots : Array α
  /-- The number of acquisitions so far, modulo `2 ^ 64`. -/
  cursor : UInt64
  size_isPowerOfTwo : slots.size.isPowerOfTwo
  size_lt : slots.size < 2 ^ 64
deriving DecidableEq

namespace SlotRing

variable {α : Type}

/-- A ring of `capacity` slots that all hold `a`. -/
def replicate (capacity : Nat) (a : α) (h : capacity.isPowerOfTwo) (hlt : capacity < 2 ^ 64) :
    SlotRing α where
  slots := Array.replicate capacity a
  cursor := 0
  size_isPowerOfTwo := by simpa using h
  size_lt := by simpa using hlt

def capacity (r : SlotRing α) : Nat :=
  r.slots.size

/-- The word that masks a cursor to a slot. -/
def mask (r : SlotRing α) : UInt64 :=
  UInt64.ofNat (r.capacity - 1)

/-- The slot that the next acquisition hands out. -/
def head (r : SlotRing α) : Nat :=
  (r.cursor &&& r.mask).toNat

def acquire (r : SlotRing α) : Nat × SlotRing α :=
  (r.head, { r with cursor := r.cursor + 1 })

def get? (r : SlotRing α) (slot : Nat) : Option α :=
  r.slots[slot]?

def modify (r : SlotRing α) (slot : Nat) (change : α → α) : SlotRing α where
  slots := r.slots.modify slot change
  cursor := r.cursor
  size_isPowerOfTwo := by simpa using r.size_isPowerOfTwo
  size_lt := by simpa using r.size_lt

/-- Hands out the next slot with `a` in it. -/
def push (r : SlotRing α) (a : α) : Nat × SlotRing α :=
  let acquired := r.acquire
  (acquired.1, acquired.2.modify acquired.1 fun _ => a)

@[simp] theorem capacity_replicate (n : Nat) (a : α) (h : n.isPowerOfTwo) (hlt : n < 2 ^ 64) :
    (replicate n a h hlt).capacity = n := by
  simp [replicate, capacity]

@[simp] theorem capacity_modify (r : SlotRing α) (slot : Nat) (change : α → α) :
    (r.modify slot change).capacity = r.capacity := by
  simp [modify, capacity]

@[simp] theorem capacity_acquire (r : SlotRing α) : r.acquire.2.capacity = r.capacity := rfl

theorem capacity_pos (r : SlotRing α) : 0 < r.capacity := by
  obtain ⟨k, hk⟩ := r.size_isPowerOfTwo
  rw [capacity, hk]
  exact Nat.two_pow_pos k

/-- Masking is the remainder by the capacity. -/
theorem head_eq_mod (r : SlotRing α) : r.head = r.cursor.toNat % r.capacity := by
  have hlt := r.size_lt
  obtain ⟨k, hk⟩ := r.size_isPowerOfTwo
  have hmask : r.mask.toNat = 2 ^ k - 1 := by
    rw [mask, capacity, UInt64.toNat_ofNat']
    omega
  rw [head, UInt64.toNat_and, hmask, Nat.and_two_pow_sub_one_eq_mod, capacity, hk]

theorem head_lt (r : SlotRing α) : r.head < r.capacity := by
  rw [head_eq_mod]
  exact Nat.mod_lt _ r.capacity_pos

theorem get?_modify (r : SlotRing α) (slot other : Nat) (change : α → α) :
    (r.modify slot change).get? other =
      if slot = other then (r.get? other).map change else r.get? other := by
  simp only [get?, modify, Array.getElem?_modify]

@[simp] theorem get?_acquire (r : SlotRing α) (slot : Nat) :
    r.acquire.2.get? slot = r.get? slot := rfl

/-- What is pushed lies in the slot that was the next one. -/
theorem get?_push_head (r : SlotRing α) (a : α) : (r.push a).2.get? r.head = some a := by
  have hlt : r.head < r.slots.size := r.head_lt
  have hheld : r.get? r.head = some r.slots[r.head] := Array.getElem?_eq_getElem hlt
  change (r.acquire.2.modify r.head fun _ => a).get? r.head = some a
  rw [get?_modify, if_pos rfl, get?_acquire, hheld, Option.map_some]

end SlotRing

end QuoteFeed
