import QuoteFeed.Proofs.Wire.Decoding

/-! # Rotation

A ring hands each slot out at every `capacity`-th acquisition, also across a wrap of the cursor, and
a slot changes through its own acquisitions only. What a slot holds is therefore what these wrote,
one after the other, and it stays until the ring has come round. -/

namespace QuoteFeed

namespace SlotRing

variable {α : Type}

/-! ## Writes and their turns -/

/-- Of the writes of all acquisitions, counted from zero, those to one slot. -/
def turns (capacity slot : Nat) (writes : List (α → α)) : List (α → α) :=
  (writes.zipIdx.filter fun write => write.2 % capacity = slot).map Prod.fst

def written (a : α) (writes : List (α → α)) : α :=
  writes.foldl (fun held write => write held) a

theorem turns_append (capacity slot : Nat) (writes later : List (α → α)) :
    turns capacity slot (writes ++ later) = turns capacity slot writes ++
      ((later.zipIdx writes.length).filter fun write => write.2 % capacity = slot).map Prod.fst := by
  simp [turns, List.zipIdx_append]

theorem written_append_singleton (a : α) (capacity slot : Nat) (writes : List (α → α))
    (write : α → α) :
    written a (turns capacity slot (writes ++ [write])) =
      if writes.length % capacity = slot then write (written a (turns capacity slot writes))
      else written a (turns capacity slot writes) := by
  rw [turns_append]
  by_cases h : writes.length % capacity = slot
  · simp [written, h]
  · simp [written, h]

/-- Two acquisitions of one slot are at least a rotation apart. -/
theorem add_capacity_le {capacity j k : Nat} (hlt : j < k) (h : j % capacity = k % capacity) :
    j + capacity ≤ k := by
  have hdvd : capacity ∣ k - j := Nat.dvd_of_mod_eq_zero (Nat.sub_mod_eq_zero_of_mod_eq h.symm)
  have hle := Nat.le_of_dvd (by omega) hdvd
  omega

/-- Fewer than `capacity` writes do not come round to the slot of the write before them. -/
theorem turns_append_of_lt {capacity slot : Nat} {writes later : List (α → α)} {write : α → α}
    (hslot : writes.length % capacity = slot) (h : later.length < capacity) :
    turns capacity slot (writes ++ write :: later) = turns capacity slot (writes ++ [write]) := by
  have hnone : (later.zipIdx (writes.length + 1)).filter
      (fun write => decide (write.2 % capacity = slot)) = [] := by
    apply List.filter_eq_nil_iff.mpr
    rintro ⟨other, n⟩ hn
    have hafter := List.le_snd_of_mem_zipIdx hn
    have hbefore := List.snd_lt_add_of_mem_zipIdx hn
    simp only at hafter hbefore
    simp only [decide_eq_true_eq]
    intro hmod
    have hapart := add_capacity_le (by omega) (hslot.trans hmod.symm)
    omega
  rw [turns_append, turns_append, List.zipIdx_cons, List.zipIdx_cons]
  simp [hslot, hnone]

/-! ## Rings that have been written to -/

theorem capacity_dvd (r : SlotRing α) : r.capacity ∣ 2 ^ 64 := by
  have hlt := r.size_lt
  obtain ⟨k, hk⟩ := r.size_isPowerOfTwo
  rw [hk] at hlt
  rw [capacity, hk]
  exact Nat.pow_dvd_pow 2 (Nat.le_of_lt ((Nat.pow_lt_pow_iff_right (by decide)).mp hlt))

/-- The cursor may be off by a multiple of `2 ^ 64`. -/
theorem head_eq_of_cursor {r : SlotRing α} {n : Nat} (h : r.cursor.toNat = n % 2 ^ 64) :
    r.head = n % r.capacity := by
  rw [r.head_eq_mod, h, Nat.mod_mod_of_dvd _ r.capacity_dvd]

theorem toNat_cursor_acquire {r : SlotRing α} {n : Nat} (h : r.cursor.toNat = n % 2 ^ 64) :
    r.acquire.2.cursor.toNat = (n + 1) % 2 ^ 64 :=
  toNat_add_one_eq_mod h

theorem modify_modify (r : SlotRing α) (slot : Nat) (first second : α → α) :
    (r.modify slot first).modify slot second = r.modify slot fun a => second (first a) := by
  have hslots : (r.slots.modify slot first).modify slot second =
      r.slots.modify slot fun a => second (first a) := by
    apply Array.ext_getElem?
    intro i
    simp only [Array.getElem?_modify]
    by_cases h : slot = i
    · simp [h, Function.comp_def]
    · simp [h]
  simp [modify, hslots]

theorem get?_eq_none_of_le (r : SlotRing α) {slot : Nat} (h : r.capacity ≤ slot) :
    r.get? slot = none :=
  Array.getElem?_eq_none h

/-- What a ring whose slots all held `a` has become after the writes of its acquisitions. -/
structure Rotated (capacity : Nat) (a : α) (writes : List (α → α)) (r : SlotRing α) : Prop where
  capacity_eq : r.capacity = capacity
  cursor : r.cursor.toNat = writes.length % 2 ^ 64
  held : ∀ slot < capacity, r.get? slot = some (written a (turns capacity slot writes))

theorem rotated_replicate {capacity : Nat} (a : α) (h : capacity.isPowerOfTwo)
    (hlt : capacity < 2 ^ 64) : Rotated capacity a [] (replicate capacity a h hlt) := by
  refine ⟨capacity_replicate .., rfl, ?_⟩
  intro slot hslot
  simp [get?, replicate, turns, written, hslot]

namespace Rotated

variable {capacity : Nat} {a : α} {writes : List (α → α)} {r : SlotRing α}

theorem head_eq (h : Rotated capacity a writes r) : r.head = writes.length % capacity := by
  rw [head_eq_of_cursor h.cursor, h.capacity_eq]

/-- An acquisition whose slot is written to adds its write. -/
theorem write (h : Rotated capacity a writes r) (write : α → α) :
    Rotated capacity a (writes ++ [write]) (r.acquire.2.modify r.head write) := by
  constructor
  · rw [capacity_modify, capacity_acquire, h.capacity_eq]
  · rw [List.length_append]
    exact toNat_cursor_acquire h.cursor
  · intro slot hslot
    rw [get?_modify, get?_acquire, h.head_eq, h.held slot hslot, written_append_singleton]
    by_cases hturn : writes.length % capacity = slot
    · rw [if_pos hturn, if_pos hturn, Option.map_some]
    · rw [if_neg hturn, if_neg hturn]

end Rotated

end SlotRing

/-! ## Pools in use -/

namespace Pool

open SlotRing

/-- What can be done with a pool. Whoever is handed a slot may write to the quote there until the
pool is used again. -/
inductive Use
  | acquire (write : Quote → Quote)
  | decode (payload : Payload) (time : UInt64) (sequence : UInt32) (write : Quote → Quote)
  | release (slot : Nat)
  | warm
  | get (slot : Nat)

/-- Uses a pool; also tells which slot was handed out. -/
def use (pool : Pool) : Use → Option Nat × Pool
  | .acquire write => (some pool.acquire.1, pool.acquire.2.modify pool.acquire.1 write)
  | .decode payload time sequence write =>
      match pool.decode payload time sequence with
      | (none, pool) => (none, pool)
      | (some placed, pool) => (some placed.slot, pool.modify placed.slot write)
  -- Slots are not given back, and to look at them changes nothing.
  | .release _ | .warm | .get _ => (none, pool)

def useAll : Pool → List Use → List Nat × Pool
  | pool, [] => ([], pool)
  | pool, use :: uses =>
      let rest := useAll (pool.use use).2 uses
      ((pool.use use).1.toList ++ rest.1, rest.2)

/-- What is written to the slot that is handed out, if one is. A decoded quote replaces all that was
there, and what is written then changes the decoded quote. -/
def Use.write? : Use → Option (Quote → Quote)
  | .acquire write => some write
  | .decode payload time sequence write =>
      (Wire.View.of? payload).map fun view _ => write (view.quote time sequence)
  | .release _ | .warm | .get _ => none

def writes (uses : List Use) : List (Quote → Quote) :=
  uses.filterMap Use.write?

theorem writes_cons (use : Use) (uses : List Use) :
    writes (use :: uses) = use.write?.toList ++ writes uses := by
  cases h : use.write? <;> simp [writes, h]

theorem writes_append (first later : List Use) :
    writes (first ++ later) = writes first ++ writes later :=
  List.filterMap_append

/-- A use either acquires the next slot and writes to it, or changes nothing. -/
theorem use_cases (pool : Pool) (use : Use) :
    (∃ write, use.write? = some write ∧
      pool.use use = (some pool.head, pool.acquire.2.modify pool.head write)) ∨
    (use.write? = none ∧ pool.use use = (none, pool)) := by
  cases use with
  | acquire write => exact .inl ⟨write, rfl, rfl⟩
  | decode payload time sequence write =>
      cases hview : Wire.View.of? payload with
      | none =>
          have hdecode := pool.decode_of_lt (Wire.View.of?_eq_none_iff.mp hview) time sequence
          refine .inr ⟨?_, ?_⟩
          · rw [Use.write?, hview, Option.map_none]
          · rw [Pool.use, hdecode]
      | some view =>
          refine .inl ⟨fun _ => write (view.quote time sequence), ?_, ?_⟩
          · rw [Use.write?, hview, Option.map_some]
          · rw [Pool.use, pool.decode_of_view hview]
            simp only [push]
            exact congrArg (some pool.head, ·) (modify_modify ..)
  | release slot => exact .inr ⟨rfl, rfl⟩
  | warm => exact .inr ⟨rfl, rfl⟩
  | get slot => exact .inr ⟨rfl, rfl⟩

/-- The slots of the acquisitions follow one another round the pool, wherever the cursor stands and
also when it wraps. -/
theorem useAll_turns {pool : Pool} {start : Nat} (h : pool.cursor.toNat = start % 2 ^ 64)
    (uses : List Use) :
    (pool.useAll uses).2.cursor.toNat = (start + (writes uses).length) % 2 ^ 64 ∧
      (pool.useAll uses).1 =
        (List.range' start (writes uses).length).map (· % pool.capacity) := by
  induction uses generalizing pool start with
  | nil => simpa [useAll, writes] using h
  | cons use uses ih =>
      rw [useAll, writes_cons]
      rcases pool.use_cases use with ⟨write, hwrite, huse⟩ | ⟨hwrite, huse⟩
      · have hnext : (pool.acquire.2.modify pool.head write).cursor.toNat =
            (start + 1) % 2 ^ 64 := toNat_cursor_acquire h
        obtain ⟨hcursor, hslots⟩ := ih hnext
        rw [huse, hwrite, hcursor, hslots, head_eq_of_cursor h]
        simp [List.range'_succ, Nat.add_assoc, Nat.add_comm 1]
      · rw [huse, hwrite]
        exact ih h

theorem useAll_rotated {capacity : Nat} {pool : Pool} {earlier : List (Quote → Quote)}
    (h : Rotated capacity .blank earlier pool) (uses : List Use) :
    Rotated capacity .blank (earlier ++ writes uses) (pool.useAll uses).2 ∧
      (pool.useAll uses).1 =
        (List.range' earlier.length (writes uses).length).map (· % capacity) := by
  constructor
  · induction uses generalizing pool earlier with
    | nil => simpa [useAll, writes] using h
    | cons use uses ih =>
        rw [useAll, writes_cons]
        rcases pool.use_cases use with ⟨write, hwrite, huse⟩ | ⟨hwrite, huse⟩
        · rw [huse, hwrite]
          simpa using ih (h.write write)
        · rw [huse, hwrite]
          exact ih h
  · rw [(useAll_turns h.cursor uses).2, h.capacity_eq]

theorem create_rotated {memory : Nat} {capacity : UInt64} {pool : Pool}
    (h : Pool.create memory capacity = .ok pool) : Rotated capacity.toNat .blank [] pool := by
  rw [create] at h
  split at h
  · simp only at h
    split at h
    · cases h
    · split at h
      · cases h
      · cases h
        exact rotated_replicate ..
  · cases h

/-! ## The rotation of a new pool -/

/-- How the slots of a pool of `capacity` blank quotes are handed out and what they hold. -/
structure RotationSpec (capacity : Nat) (pool : Pool) : Prop where
  slots : ∀ uses, (pool.useAll uses).1 = (List.range (writes uses).length).map (· % capacity)
  held : ∀ uses, ∀ slot < capacity,
    (pool.useAll uses).2.get? slot = some (written .blank (turns capacity slot (writes uses)))
  beyond : ∀ uses slot, capacity ≤ slot → (pool.useAll uses).2.get? slot = none
  /-- What an acquisition leaves in its slot stays there through the `capacity - 1` next ones, and
  through whatever acquires nothing. -/
  stays : ∀ first use later slot, ((pool.useAll first).2.use use).1 = some slot →
    (writes later).length < capacity →
    (pool.useAll (first ++ use :: later)).2.get? slot = (pool.useAll (first ++ [use])).2.get? slot
  /-- A slot is handed out again by the acquisition a rotation later, and by none before it. -/
  again : ∀ uses (j slot : Nat), (pool.useAll uses).1[j]? = some slot →
    (∀ k, j < k → (pool.useAll uses).1[k]? = some slot → j + capacity ≤ k) ∧
    (j + capacity < (pool.useAll uses).1.length →
      (pool.useAll uses).1[j + capacity]? = some slot)

theorem create_rotationSpec {memory : Nat} {capacity : UInt64} {pool : Pool}
    (h : Pool.create memory capacity = .ok pool) : RotationSpec capacity.toNat pool := by
  have hrotated : ∀ uses, Rotated capacity.toNat .blank (writes uses) (pool.useAll uses).2 := by
    intro uses
    exact (useAll_rotated (create_rotated h) uses).1
  have hslots : ∀ uses,
      (pool.useAll uses).1 = (List.range (writes uses).length).map (· % capacity.toNat) := by
    intro uses
    rw [(useAll_rotated (create_rotated h) uses).2, List.length_nil, List.range_eq_range']
  have hhanded : ∀ uses (j slot : Nat), (pool.useAll uses).1[j]? = some slot ↔
      j < (writes uses).length ∧ j % capacity.toNat = slot := by
    intro uses j slot
    simp [hslots, List.getElem?_eq_some_iff, and_assoc]
  refine ⟨hslots, fun uses => (hrotated uses).held, ?_, ?_, ?_⟩
  · intro uses slot hle
    apply get?_eq_none_of_le
    rw [(hrotated uses).capacity_eq]
    exact hle
  · intro first use later slot hslot hlater
    rcases (pool.useAll first).2.use_cases use with ⟨write, hwrite, huse⟩ | ⟨hwrite, huse⟩
    · rw [huse, (hrotated first).head_eq] at hslot
      have hturn := Option.some.inj hslot
      have hlt : slot < capacity.toNat := by
        rw [← hturn]
        exact Nat.mod_lt _ (by omega)
      have hone : writes [use] = [write] := by
        rw [writes_cons, hwrite]
        rfl
      rw [(hrotated _).held slot hlt, (hrotated _).held slot hlt, List.append_cons, writes_append,
        writes_append, hone, List.append_assoc, List.singleton_append,
        turns_append_of_lt hturn hlater]
    · rw [huse] at hslot
      cases hslot
  · intro uses j slot hj
    obtain ⟨hlt, hturn⟩ := (hhanded uses j slot).mp hj
    constructor
    · intro k hjk hk
      exact add_capacity_le hjk (hturn.trans ((hhanded uses k slot).mp hk).2.symm)
    · intro hlength
      rw [hslots, List.length_map, List.length_range] at hlength
      apply (hhanded uses _ slot).mpr
      exact ⟨hlength, by rw [Nat.add_mod_right, hturn]⟩

/-- The first slot of a pool of 64 is written to, stays as it is for 63 acquisitions, and is then
handed out again and written to. The last of the 63 is a decode, after which the quote is written to
in its slot; a payload that is too short takes none. -/
theorem create_rotationSpec_small :
    let pool : Pool := .replicate 64 .blank (by decide) (by decide)
    let uses : List Use := .acquire (fun quote => { quote with sequence := 7 }) ::
      (List.replicate 62 (.acquire id) ++
        [.decode (.replicate 27 7) 0 0 id, .warm,
          .decode (.replicate 28 7) 3 5 (fun quote => { quote with bidShares := quote.sequence }),
          .get 64, .acquire (fun quote => { quote with bidShares := quote.sequence })])
    Pool.create 4096 64 = .ok pool ∧
      ((pool.useAll uses).2.get? 0).map Quote.bidShares = some 7 ∧
      ((pool.useAll uses).2.get? 63).map (fun quote => (quote.bidShares, quote.askShares)) =
        some (5, 0x07070707) ∧
      RotationSpec 64 pool := by
  intro pool uses
  have hcreate : Pool.create 4096 64 = .ok pool := rfl
  exact ⟨hcreate, by decide +kernel, by decide +kernel, create_rotationSpec hcreate⟩

end Pool

end QuoteFeed
