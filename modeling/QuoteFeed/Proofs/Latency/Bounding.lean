import QuoteFeed.Proofs.Latency.Sliding

/-! # How many samples a window holds

A window that has room for at least one sample never holds more than it has room for. One that is
made to hold none holds one as soon as it is recorded to: nothing is there to give way to the first
sample, and only one gives way to each that follows. -/

namespace QuoteFeed.Latency.Window

/-! ## Windows with the same room -/

/-- The windows hold the same samples and have the same room, where none counts as room for one. -/
structure Alike (v w : Window) : Prop where
  held : v.samples.toList = w.samples.toList
  room : max v.capacity 1 = max w.capacity 1

/-- Of no samples none gives way, whatever the capacity. -/
theorem toList_record_of_max (w : Window) (nanos : UInt64) : (w.record nanos).samples.toList =
    (if max w.capacity 1 ≤ w.samples.toList.length then w.samples.toList.tail
      else w.samples.toList) ++ [nanos] := by
  rw [toList_record]
  cases w.samples.toList with
  | nil => simp
  | cons sample samples =>
      have hfull : max w.capacity 1 ≤ (sample :: samples).length ↔
          w.capacity ≤ (sample :: samples).length := by
        rw [List.length_cons]
        omega
      simp only [hfull]

namespace Alike

variable {v w : Window}

theorem record (h : Alike v w) (nanos : UInt64) : Alike (v.record nanos) (w.record nanos) where
  held := by rw [toList_record_of_max, toList_record_of_max, h.held, h.room]
  room := h.room

theorem use (h : Alike v w) (use : Use) : Alike (v.use use).2 (w.use use).2 := by
  cases use with
  | record nanos => exact h.record nanos
  | clear => exact ⟨rfl, h.room⟩
  | summarize => exact h

theorem useAll (h : Alike v w) (uses : List Use) :
    Alike (v.useAll uses).2 (w.useAll uses).2 := by
  induction uses generalizing v w with
  | nil => exact h
  | cons use uses ih => exact ih (h.use use)

end Alike

/-! ## The bound -/

/-- A window made to hold none is used as one made to hold one. -/
theorem alike_withCapacity (capacity : Nat) :
    Alike (withCapacity capacity) (withCapacity (max capacity 1)) :=
  ⟨rfl, by simp [withCapacity]⟩

theorem toList_useAll_withCapacity (capacity : Nat) (uses : List Use) :
    ((withCapacity capacity).useAll uses).2.samples.toList =
      (recorded uses).rtake (max capacity 1) := by
  have hpos : 0 < max capacity 1 := Nat.lt_of_lt_of_le Nat.one_pos (Nat.le_max_right capacity 1)
  have hslid := (slid_withCapacity (max capacity 1)).useAll hpos uses
  rw [((alike_withCapacity capacity).useAll uses).held]
  exact hslid.held

theorem size_useAll_withCapacity (capacity : Nat) (uses : List Use) :
    ((withCapacity capacity).useAll uses).2.size = min (recorded uses).length (max capacity 1) := by
  rw [size, Fifo.size_eq_length, toList_useAll_withCapacity, length_rtake]

/-- How many samples a window holds that is made to hold `capacity`, however it is used. -/
structure BoundingSpec (capacity : Nat) : Prop where
  size_eq : ∀ uses,
    ((withCapacity capacity).useAll uses).2.size = min (recorded uses).length (max capacity 1)
  size_le : 0 < capacity → ∀ uses, ((withCapacity capacity).useAll uses).2.size ≤ capacity
  /-- There are too many exactly if there should be none and something is recorded. -/
  exceeds_iff : ∀ uses, capacity < ((withCapacity capacity).useAll uses).2.size ↔
    capacity = 0 ∧ recorded uses ≠ []

theorem withCapacity_boundingSpec (capacity : Nat) : BoundingSpec capacity where
  size_eq := size_useAll_withCapacity capacity
  size_le hpos uses := by
    rw [size_useAll_withCapacity]
    omega
  exceeds_iff uses := by
    rw [size_useAll_withCapacity, ne_eq, ← List.length_eq_zero_iff]
    omega

/-- A window made to hold none holds the first sample that is recorded. -/
theorem size_record_withCapacity_zero :
    ((withCapacity 0).useAll [.record 5]).2.size = 1 ∧
      ¬ ∀ capacity uses, ((withCapacity capacity).useAll uses).2.size ≤ capacity := by
  refine ⟨by decide, ?_⟩
  intro hbound
  exact absurd (hbound 0 [.record 5]) (by decide)

end QuoteFeed.Latency.Window
