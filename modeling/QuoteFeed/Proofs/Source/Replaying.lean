import QuoteFeed.Proofs.Source.Delivery

/-! # Replays poll by poll

A replay that does not loop hands over its list in slices of the burst size and is exhausted after
the last of them. One that loops hands over the list again and again; its bursts are cut at the end
of the list, so that each round begins with a burst of its own. -/

namespace QuoteFeed

/-- The poll hands over nothing and says so, or it hands over one burst of at most `most` payloads
and says how many they are. -/
inductive Poll.HandsOver {τ : Type} (most : Nat) (poll : Poll τ) : Prop
  | nothing (bursts : poll.bursts = []) (count : poll.count = 0)
  | burst (burst : List Payload) (bursts : poll.bursts = [burst]) (count : poll.count = burst.length)
      (pos : 0 < burst.length) (le : burst.length ≤ most)

namespace Replay

/-! ## One poll -/

theorem length_burst_movedTo (r : Replay) (position : Nat) :
    (r.movedTo position).burst.length = min r.burstSize (r.payloads.length - position) := by
  simp [burst]

theorem flatten_poll (r : Replay) :
    (Source.poll r).bursts.flatten = (r.movedTo r.start).burst := by
  rw [poll_eq]
  split
  · next h => simpa [Poll.idle] using (List.isEmpty_iff.mp h).symm
  · simp [Poll.burst]

theorem count_poll (r : Replay) :
    (Source.poll r).count = min r.burstSize (r.payloads.length - r.start) := by
  rw [r.isPlain_poll.count, flatten_poll, length_burst_movedTo]

/-- Also where nothing is handed over. -/
theorem source_poll (r : Replay) :
    (Source.poll r).source = r.movedTo (r.start + (Source.poll r).count) := by
  rw [count_poll, ← length_burst_movedTo, poll_eq]
  split
  · next h =>
      rw [List.isEmpty_iff.mp h]
      rfl
  · rfl

theorem handsOver_poll (r : Replay) : (Source.poll r).HandsOver r.burstSize := by
  rw [poll_eq]
  split
  · exact .nothing rfl rfl
  · next h =>
      have hne : (r.movedTo r.start).burst ≠ [] := fun hempty => h (List.isEmpty_iff.mpr hempty)
      exact .burst _ rfl rfl (List.length_pos_iff.mpr hne) (List.length_take_le ..)

theorem isExhausted_iff (r : Replay) :
    Source.isExhausted r = true ↔ r.looping = false ∧ r.payloads.length ≤ r.position := by
  simp [Source.isExhausted, isExhausted]

/-- Polls change the position and nothing else. -/
theorem exists_after_eq (r : Replay) (polls : Nat) :
    ∃ position, Source.after r polls = r.movedTo position := by
  induction polls with
  | zero => exact ⟨r.position, rfl⟩
  | succ polls ih =>
      obtain ⟨position, hafter⟩ := ih
      rw [Source.after_succ, source_poll, hafter]
      exact ⟨_, rfl⟩

@[simp] theorem payloads_after (r : Replay) (polls : Nat) :
    (Source.after r polls).payloads = r.payloads := by
  obtain ⟨position, hafter⟩ := r.exists_after_eq polls
  rw [hafter, movedTo_payloads]

@[simp] theorem burstSize_after (r : Replay) (polls : Nat) :
    (Source.after r polls).burstSize = r.burstSize := by
  obtain ⟨position, hafter⟩ := r.exists_after_eq polls
  rw [hafter, movedTo_burstSize]

@[simp] theorem looping_after (r : Replay) (polls : Nat) :
    (Source.after r polls).looping = r.looping := by
  obtain ⟨position, hafter⟩ := r.exists_after_eq polls
  rw [hafter, movedTo_looping]

theorem length_handed_succ (r : Replay) (polls : Nat) :
    (Source.handed r (polls + 1)).length =
      (Source.handed r polls).length + (Source.poll (Source.after r polls)).count := by
  rw [Source.handed_succ, List.length_append, (isPlain_poll _).count]

theorem handsOver_poll_after (r : Replay) (polls : Nat) :
    (Source.poll (Source.after r polls)).HandsOver r.burstSize := by
  have hpoll := (Source.after r polls).handsOver_poll
  rwa [burstSize_after] at hpoll

/-! ## Replays that come to an end -/

section Once

variable {r : Replay}

theorem after_of_once (hlooping : r.looping = false) (hposition : r.position = 0) (polls : Nat) :
    Source.after r polls = r.movedTo (min (polls * r.burstSize) r.payloads.length) := by
  induction polls with
  | zero =>
      rw [Nat.zero_mul, Nat.zero_min, Source.after, movedTo, ← hposition]
  | succ polls ih =>
      rw [Source.after_succ, source_poll, count_poll, ih, start_of_once (by simpa using hlooping),
        movedTo_movedTo, Nat.succ_mul]
      -- A poll goes on by the burst size or to the end, and at the end it stays there.
      congr 1
      simp only [movedTo_position, movedTo_burstSize, movedTo_payloads]
      omega

theorem flatten_poll_of_once (hlooping : r.looping = false) (hposition : r.position = 0)
    (polls : Nat) :
    (Source.poll (Source.after r polls)).bursts.flatten =
      (r.payloads.drop (polls * r.burstSize)).take r.burstSize := by
  rw [flatten_poll, after_of_once hlooping hposition, start_of_once (by simpa using hlooping)]
  simp [burst, ← List.drop_eq_drop_min]

theorem handed_of_once (hlooping : r.looping = false) (hposition : r.position = 0) (polls : Nat) :
    Source.handed r polls = r.payloads.take (polls * r.burstSize) := by
  induction polls with
  | zero => simp [Source.handed]
  | succ polls ih =>
      rw [Source.handed_succ, ih, flatten_poll_of_once hlooping hposition, Nat.succ_mul,
        List.take_add]

theorem isExhausted_of_once (hlooping : r.looping = false) (hposition : r.position = 0)
    (polls : Nat) :
    Source.isExhausted (Source.after r polls) = true ↔
      r.payloads.length ≤ polls * r.burstSize := by
  rw [after_of_once hlooping hposition, isExhausted_iff]
  simp only [movedTo_looping, movedTo_payloads, movedTo_position, hlooping, true_and]
  omega

end Once

/-! ## Replays that go on for ever -/

section Forever

variable {r : Replay}

theorem start_le (hlooping : r.looping = true) : r.start ≤ r.payloads.length := by
  simp only [start, hlooping, Bool.true_and, decide_eq_true_eq]
  split <;> omega

theorem start_lt (hlooping : r.looping = true) (hpos : 0 < r.payloads.length) :
    r.start < r.payloads.length := by
  simp only [start, hlooping, Bool.true_and, decide_eq_true_eq]
  split <;> omega

theorem start_eq_mod (hlooping : r.looping = true) (hle : r.position ≤ r.payloads.length) :
    r.start = r.position % r.payloads.length := by
  rcases Nat.lt_or_eq_of_le hle with hlt | heq
  · simp [start, hlooping, Nat.not_le_of_lt hlt, Nat.mod_eq_of_lt hlt]
  · simp [start, hlooping, heq]

/-- Where the next poll begins depends only on how many payloads were handed over so far. -/
theorem start_after_of_forever (hlooping : r.looping = true) (hposition : r.position = 0)
    (polls : Nat) :
    (Source.after r polls).start = (Source.handed r polls).length % r.payloads.length := by
  induction polls with
  | zero =>
      rw [Source.after, start_eq_mod hlooping (by omega), hposition]
      rfl
  | succ polls ih =>
      have hlooping' : (Source.after r polls).looping = true := by simpa using hlooping
      have hstart := start_le hlooping'
      have hcount := (Source.after r polls).count_poll
      rw [Source.after_succ, source_poll, length_handed_succ, start_eq_mod, movedTo_position,
        movedTo_payloads, payloads_after, ih, Nat.mod_add_mod]
      · simpa using hlooping
      · simp only [movedTo_position, movedTo_payloads]
        omega

/-- What was handed over is the list over and over. -/
theorem getElem?_handed (hlooping : r.looping = true) (hposition : r.position = 0) {polls i : Nat}
    (hi : i < (Source.handed r polls).length) :
    (Source.handed r polls)[i]? = r.payloads[i % r.payloads.length]? := by
  induction polls with
  | zero => simp [Source.handed] at hi
  | succ polls ih =>
      have hstart := start_after_of_forever hlooping hposition polls
      have hcount := (Source.after r polls).count_poll
      rw [length_handed_succ] at hi
      rw [Source.handed_succ, List.getElem?_append]
      split
      · next h => exact ih h
      -- The last burst goes on where the payloads before it have come to, within the same round.
      · next h =>
          obtain ⟨j, rfl⟩ := Nat.exists_eq_add_of_le (Nat.le_of_not_lt h)
          rw [payloads_after, burstSize_after] at hcount
          have hround : ((Source.handed r polls).length + j) % r.payloads.length =
              (Source.after r polls).start + j := by
            rw [← Nat.mod_add_mod, ← hstart, Nat.mod_eq_of_lt (by omega)]
          rw [flatten_poll, hround, Nat.add_sub_cancel_left, burst, List.getElem?_take_of_lt,
            List.getElem?_drop]
          · simp
          · simp only [movedTo_burstSize, burstSize_after]
            omega

end Forever

/-! ## Replays as they are made -/

/-- A replay that hands over the list once, in bursts of `b` payloads. -/
structure OnceSpec (payloads : List Payload) (b : Nat) (r : Replay) : Prop where
  polls : ∀ k, (Source.poll (Source.after r k)).HandsOver b
  slice : ∀ k, (Source.poll (Source.after r k)).bursts.flatten =
    payloads.extract (k * b) (min ((k + 1) * b) payloads.length)
  handed : ∀ k, Source.handed r k = payloads.take (k * b)
  complete : ∀ k, Source.isExhausted (Source.after r k) = true ↔ Source.handed r k = payloads
  exhausted : ∀ k, Source.isExhausted (Source.after r k) = true ↔
    (payloads.length + b - 1) / b ≤ k
  idle : ∀ k, (payloads.length + b - 1) / b ≤ k → (Source.poll (Source.after r k)).count = 0

/-- A replay that hands over the list over and over, in bursts of at most `b` payloads that do not
go past its end. -/
structure ForeverSpec (payloads : List Payload) (b : Nat) (r : Replay) : Prop where
  polls : ∀ k, (Source.poll (Source.after r k)).HandsOver b
  handed : payloads ≠ [] → ∀ k i, i < (Source.handed r k).length →
    (Source.handed r k)[i]? = payloads[i % payloads.length]?
  within : payloads ≠ [] → ∀ k, (Source.handed r k).length % payloads.length +
    (Source.poll (Source.after r k)).count ≤ payloads.length
  pos : payloads ≠ [] → ∀ k, 0 < (Source.poll (Source.after r k)).count
  unexhausted : ∀ k, Source.isExhausted (Source.after r k) = false
  idle : payloads = [] → ∀ k, (Source.poll (Source.after r k)).count = 0

theorem once_spec {r : Replay} (hlooping : r.looping = false) (hposition : r.position = 0) :
    OnceSpec r.payloads r.burstSize r := by
  have hsize := r.burstSize_pos
  have hexhausted := isExhausted_of_once hlooping hposition
  have hceil : ∀ k, (r.payloads.length + r.burstSize - 1) / r.burstSize ≤ k ↔
      r.payloads.length ≤ k * r.burstSize := by
    intro k
    rw [Nat.div_le_iff_le_mul_add_pred hsize, Nat.mul_comm]
    omega
  constructor
  case polls => exact r.handsOver_poll_after
  case slice =>
    intro k
    rw [flatten_poll_of_once hlooping hposition, List.extract_eq_take_drop, Nat.succ_mul,
      List.take_eq_take_iff, List.length_drop]
    omega
  case handed => exact handed_of_once hlooping hposition
  case complete =>
    intro k
    rw [hexhausted, handed_of_once hlooping hposition]
    constructor
    · exact List.take_of_length_le
    · intro hall
      have hlength := congrArg List.length hall
      rw [List.length_take] at hlength
      omega
  case exhausted =>
    intro k
    rw [hexhausted, hceil]
  case idle =>
    intro k hk
    have hle := (hceil k).mp hk
    rw [(isPlain_poll _).count, flatten_poll_of_once hlooping hposition,
      List.drop_eq_nil_of_le hle, List.take_nil, List.length_nil]

theorem forever_spec {r : Replay} (hlooping : r.looping = true) (hposition : r.position = 0) :
    ForeverSpec r.payloads r.burstSize r := by
  have hlooping' : ∀ k, (Source.after r k).looping = true := by simpa using hlooping
  have hcount : ∀ k, (Source.poll (Source.after r k)).count =
      min r.burstSize (r.payloads.length - (Source.after r k).start) := by
    intro k
    simp [count_poll]
  constructor
  case polls => exact r.handsOver_poll_after
  case handed =>
    intro _ k i hi
    exact getElem?_handed hlooping hposition hi
  case within =>
    intro _ k
    have hle := start_le (hlooping' k)
    rw [payloads_after] at hle
    rw [← start_after_of_forever hlooping hposition, hcount]
    omega
  case pos =>
    intro hne k
    have hpos : 0 < (Source.after r k).payloads.length := by
      simpa using List.length_pos_iff.mpr hne
    have hlt := start_lt (hlooping' k) hpos
    have hsize := r.burstSize_pos
    rw [payloads_after] at hlt
    rw [hcount]
    omega
  case unexhausted =>
    intro k
    simp [Source.isExhausted, isExhausted, hlooping]
  case idle =>
    intro hempty k
    simp [hcount, hempty]

/-- A replay of any list and any burst size, which counts as one if it is zero and as 32 if it is
greater, before and after it is made to go on for ever. -/
theorem withBurstSize_replayingSpec (payloads : List Payload) (size : Nat) :
    let b := max 1 (min size 32)
    let r := ({ payloads } : Replay).withBurstSize size
    OnceSpec payloads b r ∧ ForeverSpec payloads b r.forever := by
  intro b r
  have hsize : r.burstSize = b := by
    change min 32 (max 1 size) = max 1 (min size 32)
    omega
  have honce : OnceSpec payloads r.burstSize r := once_spec (r := r) rfl rfl
  have hforever : ForeverSpec payloads r.burstSize r.forever :=
    forever_spec (r := r.forever) rfl rfl
  rw [← hsize]
  exact ⟨honce, hforever⟩

end Replay

end QuoteFeed
