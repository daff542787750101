/-! # Queues

A queue is kept in two lists, so that both ends are at hand. `toList` shows its content, oldest
first, and each operation is described by what it does to that list.
-/

namespace QuoteFeed

/-- Elements in the order in which they were added. -/
structure Fifo (α : Type) where
  /-- The oldest elements, oldest first. -/
  front : List α := []
  /-- The other elements, newest first. -/
  back : List α := []
  size : Nat := 0
  size_eq : size = front.length + back.length := by rfl

namespace Fifo

variable {α : Type}

def empty : Fifo α := {}

def toList (q : Fifo α) : List α :=
  q.front ++ q.back.reverse

def push (q : Fifo α) (a : α) : Fifo α where
  front := q.front
  back := a :: q.back
  size := q.size + 1
  size_eq := by simp [q.size_eq, Nat.add_assoc]

/-- The oldest element and the rest. -/
def pop? (q : Fifo α) : Option (α × Fifo α) :=
  match hf : q.front with
  | a :: front =>
      some (a, { front, back := q.back, size := q.size - 1,
                 size_eq := by simp [q.size_eq, hf, Nat.add_right_comm] })
  | [] =>
      match hb : q.back.reverse with
      | [] => none
      | a :: front =>
          some (a, { front, back := [], size := q.size - 1,
                     size_eq := by
                       have h := congrArg List.length hb
                       simp only [List.length_reverse, List.length_cons] at h
                       simp [q.size_eq, hf, h] })

/-- The queue without its oldest element. -/
def drop (q : Fifo α) : Fifo α :=
  match q.pop? with
  | some (_, rest) => rest
  | none => q

@[simp] theorem toList_empty : (empty : Fifo α).toList = [] := rfl

@[simp] theorem toList_push (q : Fifo α) (a : α) : (q.push a).toList = q.toList ++ [a] := by
  simp [push, toList]

theorem size_eq_length (q : Fifo α) : q.size = q.toList.length := by
  simp [toList, q.size_eq]

theorem pop?_eq_none_iff (q : Fifo α) : q.pop? = none ↔ q.toList = [] := by
  unfold pop? toList
  split
  · next a front hf => simp [hf]
  · next hf =>
      split
      · next hb => simp [hf, hb]
      · next hb => simp [hf, hb]

/-- Taking the oldest element takes the head of the list. -/
theorem toList_of_pop?_eq_some {q rest : Fifo α} {a : α} (h : q.pop? = some (a, rest)) :
    q.toList = a :: rest.toList := by
  unfold pop? at h
  split at h
  · next b front hf =>
      simp only [Option.some.injEq, Prod.mk.injEq] at h
      obtain ⟨rfl, rfl⟩ := h
      simp [toList, hf]
  · next hf =>
      split at h
      · simp at h
      · next b front hb =>
          simp only [Option.some.injEq, Prod.mk.injEq] at h
          obtain ⟨rfl, rfl⟩ := h
          simp [toList, hf, hb]

@[simp] theorem toList_drop (q : Fifo α) : q.drop.toList = q.toList.tail := by
  unfold drop
  split
  · next a rest h => simp [toList_of_pop?_eq_some h]
  · next h => simp [(pop?_eq_none_iff q).mp h]

end Fifo

end QuoteFeed
