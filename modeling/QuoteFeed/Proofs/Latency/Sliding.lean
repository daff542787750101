import Mathlib.Data.List.DropRight
import QuoteFeed.Latency.Window
import QuoteFeed.Proofs.Latency.Ranking

/-! # Windows slide

However a window is recorded to, cleared and asked for summaries, it holds the end of what was
recorded since it was last cleared. Its summaries are made from that end alone, and to ask for one
leaves no trace. -/

namespace QuoteFeed.Latency.Window

/-! ## Windows in use -/

/-- What can be done with a window. -/
inductive Use
  | record (nanos : UInt64)
  | clear
  | summarize

/-- Uses a window; also tells the summary that is asked for, if one is. -/
def use (w : Window) : Use → List (Option Summary) × Window
  | .record nanos => ([], w.record nanos)
  | .clear => ([], w.clear)
  | .summarize => ([w.summary?], w)

def useAll : Window → List Use → List (Option Summary) × Window
  | w, [] => ([], w)
  | w, use :: uses =>
      let rest := useAll (w.use use).2 uses
      ((w.use use).1 ++ rest.1, rest.2)

theorem useAll_append (w : Window) (first later : List Use) :
    w.useAll (first ++ later) =
      ((w.useAll first).1 ++ ((w.useAll first).2.useAll later).1,
        ((w.useAll first).2.useAll later).2) := by
  induction first generalizing w with
  | nil => rfl
  | cons use first ih => simp [useAll, ih]

/-! ## The end of what was recorded -/

def Use.isClear : Use → Bool
  | .clear => true
  | .record _ | .summarize => false

def Use.sample? : Use → Option UInt64
  | .record nanos => some nanos
  | .clear | .summarize => none

/-- The samples recorded since the window was last cleared, oldest first. -/
def recorded (uses : List Use) : List UInt64 :=
  (uses.rtakeWhile fun use => !use.isClear).filterMap Use.sample?

theorem recorded_concat (uses : List Use) (use : Use) :
    recorded (uses ++ [use]) = if use.isClear then [] else recorded uses ++ use.sample?.toList := by
  rw [recorded, List.rtakeWhile_concat]
  cases use <;> simp [recorded, Use.isClear, Use.sample?]

variable {α : Type}

theorem rtake_of_length_le {held : List α} {n : Nat} (h : held.length ≤ n) :
    held.rtake n = held := by
  rw [List.rtake, Nat.sub_eq_zero_of_le h, List.drop_zero]

theorem length_rtake (held : List α) (n : Nat) : (held.rtake n).length = min held.length n := by
  rw [List.rtake, List.length_drop]
  omega

theorem tail_rtake_succ {held : List α} {n : Nat} (h : n < held.length) :
    (held.rtake (n + 1)).tail = held.rtake n := by
  have hindex : held.length - (n + 1) + 1 = held.length - n := by omega
  rw [List.rtake, List.rtake, List.tail_drop, hindex]

/-! ## What a window holds -/

/-- The window holds the end of what was recorded, as far as it has room. -/
structure Slid (capacity : Nat) (uses : List Use) (w : Window) : Prop where
  capacity_eq : w.capacity = capacity
  held : w.samples.toList = (recorded uses).rtake capacity

theorem slid_withCapacity (capacity : Nat) : Slid capacity [] (withCapacity capacity) :=
  ⟨rfl, by simp [withCapacity, recorded]⟩

namespace Slid

variable {capacity : Nat} {uses : List Use} {w : Window}

/-- One sample gives way to the next exactly when there are as many as there is room for. -/
theorem record (h : Slid capacity uses w) (hpos : 0 < capacity) (nanos : UInt64) :
    Slid capacity (uses ++ [.record nanos]) (w.record nanos) := by
  refine ⟨by rw [capacity_record, h.capacity_eq], ?_⟩
  obtain ⟨room, rfl⟩ := Nat.exists_eq_succ_of_ne_zero (Nat.ne_of_gt hpos)
  have hrecorded : recorded (uses ++ [.record nanos]) = recorded uses ++ [nanos] :=
    recorded_concat uses (.record nanos)
  rw [toList_record, hrecorded, List.rtake_concat_succ, h.held, h.capacity_eq, length_rtake]
  by_cases hfull : room < (recorded uses).length
  · rw [if_pos (by omega), tail_rtake_succ hfull]
  · rw [if_neg (by omega), rtake_of_length_le (by omega), rtake_of_length_le (by omega)]

theorem use (h : Slid capacity uses w) (hpos : 0 < capacity) (use : Use) :
    Slid capacity (uses ++ [use]) (w.use use).2 := by
  cases use with
  | record nanos => exact h.record hpos nanos
  | clear =>
      have hrecorded : recorded (uses ++ [.clear]) = [] := recorded_concat uses .clear
      refine ⟨h.capacity_eq, ?_⟩
      rw [hrecorded, List.rtake_nil]
      exact w.toList_clear
  | summarize =>
      have hrecorded : recorded (uses ++ [.summarize]) = recorded uses := by
        simp [recorded_concat, Use.isClear, Use.sample?]
      refine ⟨h.capacity_eq, ?_⟩
      rw [hrecorded]
      exact h.held

theorem useAll (h : Slid capacity uses w) (hpos : 0 < capacity) (later : List Use) :
    Slid capacity (uses ++ later) (w.useAll later).2 := by
  induction later generalizing uses w with
  | nil => simpa [Window.useAll] using h
  | cons use later ih => simpa [Window.useAll] using ih (h.use hpos use)

end Slid

/-- How a window that has room for `capacity` samples behaves, however it is used. -/
structure SlidingSpec (capacity : Nat) (w : Window) : Prop where
  held : ∀ uses, (w.useAll uses).2.samples.toList = (recorded uses).rtake capacity
  size : ∀ uses, (w.useAll uses).2.size = min (recorded uses).length capacity
  isEmpty_iff : ∀ uses, (w.useAll uses).2.isEmpty = true ↔ (recorded uses).length = 0
  summary?_none_iff : ∀ uses, (w.useAll uses).2.summary? = none ↔ (recorded uses).length = 0
  summary? : ∀ uses,
    (w.useAll uses).2.summary? = Summary.ofSamples? ((recorded uses).rtake capacity)
  /-- Without one request for a summary, its answer is missing and all else is the same. -/
  quiet : ∀ before later,
    (w.useAll (before ++ .summarize :: later)).2 = (w.useAll (before ++ later)).2 ∧
    ∃ answers, (w.useAll (before ++ later)).1 = (w.useAll before).1 ++ answers ∧
      (w.useAll (before ++ .summarize :: later)).1 =
        (w.useAll before).1 ++ (w.useAll before).2.summary? :: answers

theorem Slid.slidingSpec {capacity : Nat} {w : Window} (h : Slid capacity [] w)
    (hpos : 0 < capacity) : SlidingSpec capacity w := by
  have hslid : ∀ uses, Slid capacity uses (w.useAll uses).2 := h.useAll hpos
  have hsize : ∀ uses, (w.useAll uses).2.size = min (recorded uses).length capacity := by
    intro uses
    rw [Window.size, Fifo.size_eq_length, (hslid uses).held, length_rtake]
  have hsummary : ∀ uses,
      (w.useAll uses).2.summary? = Summary.ofSamples? ((recorded uses).rtake capacity) := by
    intro uses
    rw [Window.summary?, (hslid uses).held]
  constructor
  case held => exact fun uses => (hslid uses).held
  case size => exact hsize
  case isEmpty_iff =>
    intro uses
    have hsize := hsize uses
    rw [Window.size] at hsize
    rw [isEmpty, hsize, beq_iff_eq]
    omega
  case summary?_none_iff =>
    intro uses
    have hlength := length_rtake (recorded uses) capacity
    rw [hsummary, Summary.ofSamples?_eq_none_iff, ← List.length_eq_zero_iff]
    omega
  case summary? => exact hsummary
  case quiet =>
    intro before later
    refine ⟨?_, ((w.useAll before).2.useAll later).1, ?_, ?_⟩
    · rw [useAll_append, useAll_append]
      rfl
    · rw [useAll_append]
    · rw [useAll_append]
      rfl

/-- Every window with room for at least one sample slides, those whose room nobody chose among
them. -/
theorem withCapacity_slidingSpec :
    (∀ capacity, 0 < capacity → SlidingSpec capacity (withCapacity capacity)) ∧
      SlidingSpec 10000 new ∧ SlidingSpec 10000 default := by
  have hmade : ∀ capacity, 0 < capacity → SlidingSpec capacity (withCapacity capacity) := by
    intro capacity hpos
    exact (slid_withCapacity capacity).slidingSpec hpos
  exact ⟨hmade, hmade defaultCapacity (by decide), hmade defaultCapacity (by decide)⟩

/-- With room for three, the first of four samples gives way. -/
theorem withCapacity_slidingSpec_three :
    0 < 3 ∧
      ((withCapacity 3).useAll [.record 100, .record 1, .summarize, .record 2,
        .record 3]).2.samples.toList = [1, 2, 3] ∧
      SlidingSpec 3 (withCapacity 3) :=
  ⟨by decide, by decide, withCapacity_slidingSpec.1 3 (by decide)⟩

end QuoteFeed.Latency.Window
