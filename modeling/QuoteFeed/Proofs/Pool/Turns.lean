import Mathlib.Order.Interval.Finset.Nat
import QuoteFeed.Proofs.Pool.Rotation

/-! # Turns of the slots

From any state of a pool, also one whose cursor is about to wrap, the acquisitions go round the
slots: none comes twice within a round, and each comes once in a full one. -/

namespace QuoteFeed

namespace SlotRing

theorem range'_mod_perm (start capacity : Nat) :
    ((List.range' start capacity).map (· % capacity)).Perm (List.range capacity) := by
  have hmod := Nat.multiset_Ico_map_mod start capacity
  have hIco : Multiset.Ico start (start + capacity) =
      (List.range' start capacity : Multiset Nat) := by
    simp [Multiset.Ico, Nat.Ico_eq_range']
  rw [hIco] at hmod
  exact Multiset.coe_eq_coe.mp hmod

theorem range'_mod_nodup {capacity n : Nat} (start : Nat) (h : n ≤ capacity) :
    ((List.range' start n).map (· % capacity)).Nodup := by
  -- A part of a round is the beginning of a full one, which has every slot once.
  obtain ⟨more, rfl⟩ := Nat.exists_eq_add_of_le h
  have hround := (range'_mod_perm start (n + more)).nodup_iff.mpr List.nodup_range
  rw [← List.range'_append_1, List.map_append] at hround
  exact (List.nodup_append.mp hround).1

end SlotRing

namespace Pool

open SlotRing

/-- How the slots of a pool of the given capacity are handed out from now on, whatever else is done
with the pool in between. -/
structure TurnSpec (capacity : Nat) (pool : Pool) : Prop where
  /-- Every acquisition hands out a slot. -/
  length : ∀ uses, (pool.useAll uses).1.length = (writes uses).length
  slots : ∀ uses n, n < (writes uses).length →
    (pool.useAll uses).1[n]? = some ((pool.cursor.toNat + n) % capacity)
  lt : ∀ uses, ∀ slot ∈ (pool.useAll uses).1, slot < capacity
  cursor : ∀ uses, (pool.useAll uses).2.cursor.toNat =
    (pool.cursor.toNat + (writes uses).length) % 2 ^ 64
  distinct : ∀ uses, (writes uses).length ≤ capacity → (pool.useAll uses).1.Nodup
  round : ∀ uses, (writes uses).length = capacity →
    (pool.useAll uses).1.Perm (List.range capacity)
  again : ∀ uses n, n + capacity < (writes uses).length →
    (pool.useAll uses).1[n + capacity]? = (pool.useAll uses).1[n]?

/-- The pool may have come to any state since it was made. -/
theorem create_turnSpec {memory : Nat} {capacity : UInt64} {made pool : Pool}
    (h : Pool.create memory capacity = .ok made) (hsame : pool.capacity = made.capacity) :
    TurnSpec capacity.toNat pool := by
  have hcapacity : pool.capacity = capacity.toNat := hsame.trans (create_rotated h).capacity_eq
  have hpos : 0 < capacity.toNat := hcapacity ▸ pool.capacity_pos
  have hstart : pool.cursor.toNat = pool.cursor.toNat % 2 ^ 64 :=
    (Nat.mod_eq_of_lt pool.cursor.toNat_lt).symm
  have hslots : ∀ uses, (pool.useAll uses).1 =
      (List.range' pool.cursor.toNat (writes uses).length).map (· % capacity.toNat) := by
    intro uses
    rw [(useAll_turns hstart uses).2, hcapacity]
  have hslot : ∀ uses n, n < (writes uses).length →
      (pool.useAll uses).1[n]? = some ((pool.cursor.toNat + n) % capacity.toNat) := by
    intro uses n hn
    simp [hslots, hn]
  constructor
  case length => simp [hslots]
  case slots => exact hslot
  case lt =>
    intro uses slot hslot
    rw [hslots] at hslot
    obtain ⟨n, _, rfl⟩ := List.mem_map.mp hslot
    exact Nat.mod_lt n hpos
  case cursor =>
    intro uses
    exact (useAll_turns hstart uses).1
  case distinct =>
    intro uses hle
    rw [hslots]
    exact range'_mod_nodup _ hle
  case round =>
    intro uses hlength
    rw [hslots, hlength]
    exact range'_mod_perm _ _
  case again =>
    intro uses n hn
    rw [hslot uses _ hn, hslot uses n (by omega), ← Nat.add_assoc, Nat.add_mod_right]

/-- The last slot of a pool of 64 is handed out when the cursor is about to wrap, and then the
first. A release and a payload that is too short take no turn. -/
theorem create_turnSpec_wrap :
    let made : Pool := .replicate 64 .blank (by decide) (by decide)
    let pool : Pool := { made with cursor := 0xFFFFFFFFFFFFFFFF }
    let uses : List Use := [.acquire id, .release 63, .decode (.replicate 27 7) 0 0 id,
      .decode (.replicate 28 7) 0 0 id]
    Pool.create 4096 64 = .ok made ∧ pool.capacity = made.capacity ∧
      (pool.useAll uses).1 = [63, 0] ∧ TurnSpec 64 pool := by
  intro made pool uses
  have hcreate : Pool.create 4096 64 = .ok made := rfl
  exact ⟨hcreate, rfl, by decide +kernel, create_turnSpec hcreate rfl⟩

end Pool

end QuoteFeed
