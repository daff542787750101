import QuoteFeed.Source

/-! # What sources deliver

A source that is polled again and again hands over a list of payloads, cut into polls. Some sources
come to an end; a replay that does not loop is one of them. -/

namespace QuoteFeed

/-- The poll says how many payloads it hands over, and does not ask for a stop. -/
structure Poll.IsPlain {τ : Type} (poll : Poll τ) : Prop where
  count : poll.count = poll.bursts.flatten.length
  stops : poll.stops = false

theorem Poll.isPlain_burst {τ : Type} (burst : List Payload) (source : τ) :
    (Poll.burst burst source).IsPlain :=
  ⟨by simp [Poll.burst], rfl⟩

theorem Poll.isPlain_idle {τ : Type} (source : τ) : (Poll.idle source).IsPlain :=
  ⟨rfl, rfl⟩

namespace Source

variable {τ : Type} [Source τ]

/-- The source after so many polls. -/
def after (source : τ) : Nat → τ
  | 0 => source
  | polls + 1 => after (Source.poll source).source polls

/-- The payloads that so many polls hand over. -/
def handed (source : τ) : Nat → List Payload
  | 0 => []
  | polls + 1 => (Source.poll source).bursts.flatten ++ handed (Source.poll source).source polls

theorem after_succ (source : τ) (polls : Nat) :
    after source (polls + 1) = (Source.poll (after source polls)).source := by
  induction polls generalizing source with
  | zero => rfl
  | succ polls ih => exact ih (Source.poll source).source

theorem handed_succ (source : τ) (polls : Nat) :
    handed source (polls + 1) =
      handed source polls ++ (Source.poll (after source polls)).bursts.flatten := by
  induction polls generalizing source with
  | zero => exact List.append_nil _
  | succ polls ih =>
      have hlast := ih (Source.poll source).source
      rw [handed, hlast, ← List.append_assoc]
      rfl

theorem handed_isPrefix (source : τ) {first last : Nat} (h : first ≤ last) :
    handed source first <+: handed source last := by
  induction h with
  | refl => exact List.prefix_rfl
  | step _ ih =>
      rw [handed_succ]
      exact ih.trans (List.prefix_append _ _)

/-! ## Finite sources -/

/-- The source hands over these payloads in plain polls and is exhausted then. -/
inductive Delivers : τ → List Payload → Prop
  | exhausted {source : τ} (h : Source.isExhausted source = true) : Delivers source []
  | poll {source : τ} {payloads : List Payload} (h : Source.isExhausted source = false)
      (plain : (Source.poll source).IsPlain)
      (rest : Delivers (Source.poll source).source payloads) :
      Delivers source ((Source.poll source).bursts.flatten ++ payloads)

/-- A source that delivers payloads is exhausted after some number of plain polls. -/
theorem Delivers.exists_polls {source : τ} {payloads : List Payload}
    (h : Delivers source payloads) :
    ∃ polls, (∀ i < polls, Source.isExhausted (after source i) = false) ∧
      (∀ i < polls, (Source.poll (after source i)).IsPlain) ∧
      Source.isExhausted (after source polls) = true ∧ handed source polls = payloads := by
  induction h with
  | exhausted h => exact ⟨0, by simp, by simp, h, rfl⟩
  | poll h plain _ ih =>
      obtain ⟨polls, hrunning, hplain, hover, hhanded⟩ := ih
      refine ⟨polls + 1, ?_, ?_, hover, ?_⟩
      · intro i hi
        cases i with
        | zero => exact h
        | succ i => exact hrunning i (Nat.lt_of_succ_lt_succ hi)
      · intro i hi
        cases i with
        | zero => exact plain
        | succ i => exact hplain i (Nat.lt_of_succ_lt_succ hi)
      · rw [handed, hhanded]

end Source

/-! ## Replays -/

namespace Replay

variable {r : Replay}

def movedTo (r : Replay) (position : Nat) : Replay :=
  { r with position }

@[simp] theorem movedTo_payloads (r : Replay) (position : Nat) :
    (r.movedTo position).payloads = r.payloads := rfl

@[simp] theorem movedTo_burstSize (r : Replay) (position : Nat) :
    (r.movedTo position).burstSize = r.burstSize := rfl

@[simp] theorem movedTo_looping (r : Replay) (position : Nat) :
    (r.movedTo position).looping = r.looping := rfl

@[simp] theorem movedTo_position (r : Replay) (position : Nat) :
    (r.movedTo position).position = position := rfl

@[simp] theorem movedTo_movedTo (r : Replay) (first second : Nat) :
    (r.movedTo first).movedTo second = r.movedTo second := rfl

@[simp] theorem movedTo_self (r : Replay) : r.movedTo r.position = r := rfl

/-- Where the next poll begins: at the first payload again if the replay loops and has come to the
end. -/
def start (r : Replay) : Nat :=
  if r.looping && r.payloads.length ≤ r.position then 0 else r.position

/-- Where the next burst comes to its end, where something is left. -/
def finish (r : Replay) : Nat :=
  min (r.position + r.burstSize) r.payloads.length

/-- The next burst of a replay, where something is left. -/
def burst (r : Replay) : List Payload :=
  (r.payloads.drop r.position).take r.burstSize

def advance (r : Replay) : Replay :=
  r.movedTo (r.position + r.burst.length)

theorem extract_eq_burst (r : Replay) : r.payloads.extract r.position r.finish = r.burst := by
  rw [List.extract_eq_take_drop, burst, finish, List.take_eq_take_iff, List.length_drop]
  omega

theorem finish_sub_position (r : Replay) : r.finish - r.position = r.burst.length := by
  rw [finish, burst, List.length_take, List.length_drop]
  omega

/-- A burst fits the slots that it is handed over in, so none of it is lost there. -/
theorem take_fill_burst (r : Replay) :
    (fill (List.replicate maxBurst []) r.burst).take r.burst.length = r.burst := by
  have hle : r.burst.length ≤ maxBurst := Nat.le_trans (List.length_take_le ..) r.burstSize_le
  rw [take_fill, List.length_replicate, List.take_of_length_le hle]

theorem movedTo_finish (h : r.burst ≠ []) : r.movedTo r.finish = r.advance := by
  have hpos := List.length_pos_iff.mpr h
  have hlength := r.finish_sub_position
  rw [advance]
  congr 1
  omega

/-- A poll hands over the burst at its start, if there is one. -/
theorem poll_eq (r : Replay) :
    Source.poll r =
      if (r.movedTo r.start).burst.isEmpty then Poll.idle (r.movedTo r.start)
      else Poll.burst (r.movedTo r.start).burst (r.movedTo r.start).advance := by
  have hpoll : Source.poll r =
      let s := r.movedTo r.start
      let slots := fill (List.replicate maxBurst []) (s.payloads.extract s.position s.finish)
      if s.finish - s.position = 0 then Poll.idle s
      else
        { bursts := [slots.take (s.finish - s.position)]
          count := s.finish - s.position
          stops := false
          source := s.movedTo s.finish } := rfl
  rw [hpoll]
  simp only [extract_eq_burst, finish_sub_position, take_fill_burst]
  by_cases h : (r.movedTo r.start).burst = []
  · rw [h, if_pos List.length_nil, if_pos List.isEmpty_nil]
  · rw [movedTo_finish h, if_neg (by simpa using h), if_neg (by simpa using h)]
    rfl

theorem isPlain_poll (r : Replay) : (Source.poll r).IsPlain := by
  rw [poll_eq]
  split
  · exact Poll.isPlain_idle _
  · exact Poll.isPlain_burst _ _

theorem start_of_once (hlooping : r.looping = false) : r.start = r.position := by
  simp [start, hlooping]

theorem length_burst_pos (h : r.position < r.payloads.length) : 0 < r.burst.length := by
  have hsize := r.burstSize_pos
  rw [burst, List.length_take, List.length_drop]
  omega

theorem burst_append (r : Replay) :
    r.burst ++ r.advance.payloads.drop r.advance.position = r.payloads.drop r.position := by
  have hburst : (r.payloads.drop r.position).take r.burst.length = r.burst := by
    rw [burst, List.length_take, ← List.take_eq_take_min]
  calc
    r.burst ++ r.payloads.drop (r.position + r.burst.length) =
        (r.payloads.drop r.position).take r.burst.length ++
          (r.payloads.drop r.position).drop r.burst.length := by rw [hburst, List.drop_drop]
    _ = r.payloads.drop r.position := List.take_append_drop ..

theorem poll_of_lt (hlooping : r.looping = false) (h : r.position < r.payloads.length) :
    Source.poll r = Poll.burst r.burst r.advance := by
  have hburst : ¬ r.burst.isEmpty = true := by
    rw [List.isEmpty_iff]
    exact List.ne_nil_of_length_pos (length_burst_pos h)
  rw [poll_eq, start_of_once hlooping, movedTo_self, if_neg hburst]

/-- A replay that does not loop delivers what is left of its payloads. -/
theorem delivers (hlooping : r.looping = false) :
    Source.Delivers r (r.payloads.drop r.position) := by
  induction hleft : r.payloads.length - r.position using Nat.strongRecOn generalizing r with
  | ind left ih =>
      by_cases h : r.position < r.payloads.length
      · have hpoll := poll_of_lt hlooping h
        have hpos := length_burst_pos h
        have hlt : r.advance.payloads.length - r.advance.position < left := by
          change r.payloads.length - (r.position + r.burst.length) < left
          omega
        have hrest : Source.Delivers r.advance (r.advance.payloads.drop r.advance.position) :=
          ih _ hlt hlooping rfl
        have hbursts : (Source.poll r).bursts.flatten = r.burst := by
          rw [hpoll]
          exact List.append_nil _
        rw [← r.burst_append, ← hbursts]
        apply Source.Delivers.poll
        · simpa [Source.isExhausted, isExhausted, hlooping] using h
        · exact r.isPlain_poll
        · rw [hpoll]
          exact hrest
      · rw [List.drop_eq_nil_of_le (Nat.le_of_not_lt h)]
        apply Source.Delivers.exhausted
        simpa [Source.isExhausted, isExhausted, hlooping] using h

theorem withBurstSize_delivers (hlooping : r.looping = false) (size : Nat) :
    Source.Delivers (r.withBurstSize size) (r.payloads.drop r.position) :=
  delivers (r := r.withBurstSize size) hlooping

end Replay

end QuoteFeed
