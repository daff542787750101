import QuoteFeed.Proofs.Intake.Offers
import QuoteFeed.Proofs.Source.Delivery

/-! # How runs go on and end

A run goes on poll by poll, until the source is exhausted or a response of the sink has stopped the
intake. What the run does until then is to receive the payloads of its polls. -/

namespace QuoteFeed

theorem Sink.length_responses {σ : Type} [Sink σ] (sink : σ) (quotes : List Quote) :
    (Sink.responses sink quotes).length = quotes.length := by
  induction quotes generalizing sink with
  | nil => rfl
  | cons quote quotes ih => exact congrArg (· + 1) (ih _)

theorem Sink.responses_append {σ : Type} [Sink σ] (sink : σ) (first second : List Quote) :
    Sink.responses sink (first ++ second) =
      Sink.responses sink first ++ Sink.responses (Sink.after sink first) second := by
  induction first generalizing sink with
  | nil => rfl
  | cons quote first ih => exact congrArg (_ :: ·) (ih _)

namespace Intake

variable {σ : Type} [Sink σ]

/-! ## Responses -/

def offers (s : Intake σ) (payloads : List Payload) : List Quote :=
  (s.recorded.receiveAll payloads).sink.attempts.toList.map Attempt.quote

/-- What the sink responds when payloads are received. -/
def responses (s : Intake σ) (payloads : List Payload) : List (Response σ) :=
  Sink.responses s.sink (s.offers payloads)

/-- The offers of a burst follow those recorded before, and only their responses stop the
intake. -/
theorem receiveAll_attempts (s : Intake (Recorder σ)) (payloads : List Payload) :
    ∃ attempts : List Attempt,
      (s.receiveAll payloads).sink.attempts.toList = s.sink.attempts.toList ++ attempts ∧
      attempts.length = payloads.countP (fun payload => 28 ≤ payload.length) ∧
      (s.receiveAll payloads).stopped = (s.stopped ||
        (Sink.responses s.sink.sink (attempts.map Attempt.quote)).any Response.stops) := by
  induction payloads generalizing s with
  | nil => exact ⟨[], by simp [receiveAll, Sink.responses]⟩
  | cons payload payloads ih =>
      obtain ⟨attempts, htoList, hlength, hstopped⟩ := ih (s.receive payload).2
      have hrest : s.receiveAll (payload :: payloads) = (s.receive payload).2.receiveAll payloads :=
        rfl
      rw [hrest, htoList, hstopped]
      rcases s.readTime.2.process_cases payload s.readTime.1 with
        ⟨hlt, hprocess⟩ | ⟨hle, quote, _, hprocess⟩
      -- Too short: no offer, and the flag stays as it is.
      · have hreceive : (s.receive payload).2 = s.readTime.2.reject := congrArg Prod.snd hprocess
        rw [hreceive]
        refine ⟨attempts, rfl, ?_, rfl⟩
        rw [List.countP_cons_of_neg (by simpa using hlt), hlength]
      · have hreceive : (s.receive payload).2 = s.readTime.2.settle quote :=
          congrArg Prod.snd hprocess
        rw [hreceive]
        refine ⟨⟨(Sink.offer s.sink.sink quote).taken, quote⟩ :: attempts, ?_, ?_, ?_⟩
        · rw [toList_attempts_settle, List.append_assoc, List.singleton_append]
          rfl
        · rw [List.countP_cons_of_pos (by simpa using hle), List.length_cons, hlength]
        · exact Bool.or_assoc ..

theorem recorded_receiveAll (s : Intake σ) (payloads : List Payload) :
    (s.recorded.receiveAll payloads).unrecorded = s.receiveAll payloads :=
  unrecorded_unnoticed.simulation.receiveAll (s := s.recorded) rfl payloads

theorem length_responses (s : Intake σ) (payloads : List Payload) :
    (s.responses payloads).length = payloads.countP (fun payload => 28 ≤ payload.length) := by
  obtain ⟨attempts, htoList, hlength, _⟩ := s.recorded.receiveAll_attempts payloads
  rw [responses, Sink.length_responses, offers, htoList, ← hlength]
  exact List.length_map _

theorem receiveAll_stopped (s : Intake σ) (payloads : List Payload) :
    (s.receiveAll payloads).stopped =
      (s.stopped || (s.responses payloads).any Response.stops) := by
  obtain ⟨attempts, htoList, _, hstopped⟩ := s.recorded.receiveAll_attempts payloads
  rw [responses, offers, htoList, ← recorded_receiveAll]
  exact hstopped

theorem responses_isPrefix (s : Intake σ) {first payloads : List Payload}
    (h : first <+: payloads) : s.responses first <+: s.responses payloads := by
  obtain ⟨rest, rfl⟩ := h
  obtain ⟨attempts, htoList, _⟩ := (s.recorded.receiveAll first).receiveAll_attempts rest
  have hoffers : s.offers (first ++ rest) = s.offers first ++ attempts.map Attempt.quote := by
    rw [offers, receiveAll_append, htoList, List.map_append]
    rfl
  rw [responses, responses, hoffers, Sink.responses_append]
  exact List.prefix_append _ _

theorem receiveAll_unstopped {s : Intake σ} (hstopped : s.stopped = false)
    {payloads : List Payload} (h : ∀ response ∈ s.responses payloads, response.stops = false) :
    (s.receiveAll payloads).stopped = false := by
  rw [receiveAll_stopped, hstopped, Bool.false_or, List.any_eq_false]
  intro response hresponse
  rw [h response hresponse]
  decide

theorem receiveAll_unstopped_of_isPrefix {s : Intake σ} {first payloads : List Payload}
    (h : (s.receiveAll payloads).stopped = false) (hfirst : first <+: payloads) :
    (s.receiveAll first).stopped = false := by
  obtain ⟨rest, rfl⟩ := hfirst
  rw [receiveAll_append, receiveAll_stopped, Bool.or_eq_false_iff] at h
  exact h.1

/-! ## Polls -/

variable {τ : Type} [Source τ]

/-- A run goes on for at least so many polls, all of them plain. -/
structure Polls (s : Intake σ) (source : τ) (polls : Nat) : Prop where
  plain : ∀ i < polls, (Source.poll (Source.after source i)).IsPlain
  running : ∀ i < polls, Source.isExhausted (Source.after source i) = false
  unstopped : ∀ i < polls, (s.receiveAll (Source.handed source i)).stopped = false

/-- The run after so many plain polls. -/
def polled (s : Intake σ) (source : τ) (polls : Nat) : Run σ τ where
  intake := s.receiveAll (Source.handed source polls)
  source := Source.after source polls
  packets := UInt64.ofNat (Source.handed source polls).length

theorem turn_polled {s : Intake σ} {source : τ} {polls : Nat}
    (h : (Source.poll (Source.after source polls)).IsPlain) :
    (s.polled source polls).turn = s.polled source (polls + 1) := by
  rw [Run.turn_eq, polled, polled, h.count, h.stops, stopIf_false, Source.handed_succ,
    Source.after_succ, receiveAll_append, List.length_append, UInt64.ofNat_add]

theorem Run.finish?_of_isOver {r : Run σ τ} (h : r.isOver = true) (polls : Nat) :
    r.finish? polls = some r := by
  cases polls with
  | zero => exact if_pos h
  | succ polls => exact if_pos h

/-- A run ends after exactly so many polls, and tells so. -/
structure Ends (s : Intake σ) (source : τ) (polls : Nat) : Prop where
  fewer : ∀ fewer < polls, s.run? fewer source = none
  enough : ∀ enough, polls ≤ enough → s.run? enough source = some (s.polled source polls)
  event : (s.polled source polls).events.getLast? =
    some (.pollingStopped (UInt64.ofNat (Source.handed source polls).length))

namespace Polls

variable {s : Intake σ} {source : τ} {polls : Nat}

theorem mono (h : Polls s source polls) {first : Nat} (hle : first ≤ polls) :
    Polls s source first where
  plain i hi := h.plain i (Nat.lt_of_lt_of_le hi hle)
  running i hi := h.running i (Nat.lt_of_lt_of_le hi hle)
  unstopped i hi := h.unstopped i (Nat.lt_of_lt_of_le hi hle)

theorem not_isOver (h : Polls s source polls) {i : Nat} (hi : i < polls) :
    ¬ (s.polled source i).isOver = true := by
  have hover : (s.polled source i).isOver =
      ((s.receiveAll (Source.handed source i)).stopped ||
        Source.isExhausted (Source.after source i)) := rfl
  rw [hover, h.unstopped i hi, h.running i hi]
  decide

theorem run?_add (h : Polls s source polls) (more : Nat) :
    s.run? (polls + more) source = (s.polled source polls).finish? more := by
  induction polls generalizing more with
  | zero =>
      rw [Nat.zero_add]
      rfl
  | succ polls ih =>
      have hlast : polls < polls + 1 := Nat.lt_succ_self polls
      rw [Nat.succ_add_eq_add_succ, ih (h.mono (Nat.le_of_lt hlast)), Run.finish?,
        if_neg (h.not_isOver hlast), turn_polled (h.plain polls hlast)]

theorem ends (h : Polls s source polls) (hover : (s.polled source polls).isOver = true) :
    Ends s source polls where
  fewer fewer hlt := by
    have hadd := (h.mono (Nat.le_of_lt hlt)).run?_add 0
    rw [Nat.add_zero, Run.finish?, if_neg (h.not_isOver hlt)] at hadd
    exact hadd
  enough enough hle := by
    obtain ⟨more, rfl⟩ := Nat.exists_eq_add_of_le hle
    rw [h.run?_add]
    exact Run.finish?_of_isOver hover more
  event := rfl

end Polls

/-- A run over a source that delivers payloads receives them all, unless a response stops it. How
often it polls depends on the source alone. -/
theorem ends_of_delivers {source : τ} {payloads : List Payload}
    (h : Source.Delivers source payloads) :
    ∃ polls, Source.handed source polls = payloads ∧
      ∀ {σ : Type} [Sink σ] (s : Intake σ), (s.receiveAll payloads).stopped = false →
        Ends s source polls := by
  obtain ⟨polls, hrunning, hplain, hexhausted, rfl⟩ := h.exists_polls
  refine ⟨polls, rfl, ?_⟩
  intro σ _ s hstopped
  have hpolls : Polls s source polls := by
    refine ⟨hplain, hrunning, ?_⟩
    intro i hi
    exact receiveAll_unstopped_of_isPrefix hstopped (Source.handed_isPrefix source (Nat.le_of_lt hi))
  apply hpolls.ends
  exact Bool.or_eq_true_iff.mpr (.inr hexhausted)

end Intake

end QuoteFeed
