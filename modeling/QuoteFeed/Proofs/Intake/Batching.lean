import QuoteFeed.Proofs.Intake.Running

/-! # Batching

Payloads may be handed over one at a time, in bursts, by runs over sources, or by several of these
in turn. Under a clock that stands still nothing tells afterwards how they were. -/

namespace QuoteFeed

/-- The sink never asks for a stop. -/
def Sink.IsQuiet {σ : Type} [Sink σ] (sink : σ) : Prop :=
  ∀ quotes, ∀ response ∈ Sink.responses sink quotes, response.stops = false

theorem BoundedQueue.isQuiet (q : BoundedQueue) : Sink.IsQuiet q := by
  intro quotes
  induction quotes generalizing q with
  | nil =>
      intro response hresponse
      cases hresponse
  | cons quote quotes ih =>
      have hoffer : (Sink.offer q quote).stops = false := by
        change (q.offer quote).stops = false
        rw [BoundedQueue.offer]
        split <;> rfl
      intro response hresponse
      rcases List.mem_cons.mp hresponse with rfl | hrest
      · exact hoffer
      · exact ih _ response hrest

namespace Intake

/-! ## Plans -/

inductive Handing : Type 1
  | packet (payload : Payload)
  | burst (burst : List Payload)
  | run {τ : Type} [Source τ] (source : τ)

namespace Handing

inductive Delivers : Handing → List Payload → Prop
  | packet (payload : Payload) : Delivers (.packet payload) [payload]
  | burst (burst : List Payload) : Delivers (.burst burst) burst
  | replay {r : Replay} (h : r.looping = false) (size : Nat) :
      Delivers (.run (r.withBurstSize size)) (r.payloads.drop r.position)
  | source {τ : Type} [Source τ] {source : τ} {payloads : List Payload}
      (h : Source.Delivers source payloads) : Delivers (.run source) payloads

/-- What is returned: a run returns how many packets it took. -/
def returned : Handing → List Payload → Option UInt64
  | packet _, _ => none
  | burst _, _ => none
  | @run _ _ _, payloads => some (UInt64.ofNat payloads.length)

end Handing

section Taking

variable {σ : Type} [Sink σ]

/-- Takes what is handed over, with at most so many polls to a run; also tells what is returned. -/
def take? (polls : Nat) (s : Intake σ) : Handing → Option (Option UInt64 × Intake σ)
  | .packet payload => some (none, (s.receive payload).2)
  | .burst burst => some (none, s.receiveAll burst)
  | @Handing.run _ _ source => (s.run? polls source).map fun r => (some r.packets, r.intake)

def takeAll? (polls : Nat) : Intake σ → List Handing → Option (List (Option UInt64) × Intake σ)
  | s, [] => some ([], s)
  | s, handing :: plan =>
      (s.take? polls handing).bind fun first =>
        (takeAll? polls first.2 plan).map fun rest => (first.1 :: rest.1, rest.2)

end Taking

/-! ## What a plan comes to -/

theorem take?_of_delivers {handing : Handing} {payloads : List Payload}
    (h : handing.Delivers payloads) :
    ∃ polls, ∀ {σ : Type} [Sink σ] (s : Intake σ), (s.receiveAll payloads).stopped = false →
      ∀ enough, polls ≤ enough →
        s.take? enough handing = some (handing.returned payloads, s.receiveAll payloads) := by
  have hsource : ∀ {τ : Type} [Source τ] {source : τ}, Source.Delivers source payloads →
      ∃ polls, ∀ {σ : Type} [Sink σ] (s : Intake σ), (s.receiveAll payloads).stopped = false →
        ∀ enough, polls ≤ enough → s.take? enough (.run source) =
          some (some (UInt64.ofNat payloads.length), s.receiveAll payloads) := by
    intro τ _ source hdelivers
    obtain ⟨polls, hhanded, hends⟩ := ends_of_delivers hdelivers
    refine ⟨polls, ?_⟩
    intro σ _ s hstopped enough hle
    rw [take?, (hends s hstopped).enough enough hle, Option.map_some, polled, hhanded]
  cases h with
  | packet payload =>
      refine ⟨0, ?_⟩
      intro σ _ s _ enough _
      rfl
  | burst burst =>
      refine ⟨0, ?_⟩
      intro σ _ s _ enough _
      rfl
  | replay hlooping size => exact hsource (Replay.withBurstSize_delivers hlooping size)
  | source hdelivers => exact hsource hdelivers

/-- A plan comes to receiving its payloads, however they are cut. -/
theorem takeAll?_of_delivers {plan : List Handing} {cuts : List (List Payload)}
    (h : List.Forall₂ Handing.Delivers plan cuts) :
    ∃ polls, ∀ {σ : Type} [Sink σ] (s : Intake σ), (s.receiveAll cuts.flatten).stopped = false →
      ∀ enough, polls ≤ enough →
        s.takeAll? enough plan =
          some (List.zipWith Handing.returned plan cuts, s.receiveAll cuts.flatten) := by
  induction h with
  | nil =>
      refine ⟨0, ?_⟩
      intro σ _ s _ enough _
      rfl
  | cons hfirst _ ih =>
      obtain ⟨polls, htake⟩ := take?_of_delivers hfirst
      obtain ⟨later, hrest⟩ := ih
      refine ⟨max polls later, ?_⟩
      intro σ _ s hstopped enough hle
      rw [List.flatten_cons] at hstopped ⊢
      have hunstopped := receiveAll_unstopped_of_isPrefix hstopped (List.prefix_append _ _)
      rw [receiveAll_append] at hstopped ⊢
      rw [takeAll?, htake s hunstopped enough (by omega), Option.bind_some,
        hrest _ hstopped enough (by omega)]
      rfl

/-! ## Batching cannot be told -/

variable {σ : Type} [Sink σ]

theorem recorded_unstopped {s : Intake σ} {payloads : List Payload}
    (h : (s.receiveAll payloads).stopped = false) :
    (s.recorded.receiveAll payloads).stopped = false := by
  rw [← recorded_receiveAll] at h
  exact h

/-- Two intakes end alike, also when the offers to their sinks are recorded. -/
structure SameEnd (t t' : Intake σ) (u u' : Intake (Recorder σ)) : Prop where
  sink : t.sink = t'.sink
  attempts : u.sink.attempts.toList = u'.sink.attempts.toList
  tally : t.tally = t'.tally
  pool : t.pool = t'.pool
  sequence : t.sequence = t'.sequence

omit [Sink σ] in
theorem SameMoment.sameEnd {time : UInt64} {t t' : Intake σ} {u u' : Intake (Recorder σ)}
    (h : SameMoment time t t') (hrecorded : SameMoment time u u') : SameEnd t t' u u' := by
  rw [← h.eq, ← hrecorded.eq]
  exact ⟨rfl, rfl, rfl, rfl, rfl⟩

/-- Two plans for the same payloads are carried out alike, whatever counters are read meanwhile. -/
theorem plans_sameEnd {s : Intake σ} {ticker : Ticker} {time : UInt64}
    (hleft : ∀ i, s.clock.now (s.ticker.readings i) = time)
    (hright : ∀ i, s.clock.now (ticker.readings i) = time)
    (hquiet : Sink.IsQuiet s.sink) (hstopped : s.stopped = false)
    {plan plan' : List Handing} {cuts cuts' : List (List Payload)}
    (h : List.Forall₂ Handing.Delivers plan cuts) (h' : List.Forall₂ Handing.Delivers plan' cuts')
    (hsame : cuts.flatten = cuts'.flatten) :
    let s' : Intake σ := { s with ticker }
    ∃ polls, ∀ enough, polls ≤ enough → ∃ t t' u u',
      s.takeAll? enough plan = some (List.zipWith Handing.returned plan cuts, t) ∧
      s'.takeAll? enough plan' = some (List.zipWith Handing.returned plan' cuts', t') ∧
      s.recorded.takeAll? enough plan = some (List.zipWith Handing.returned plan cuts, u) ∧
      s'.recorded.takeAll? enough plan' = some (List.zipWith Handing.returned plan' cuts', u') ∧
      SameEnd t t' u u' := by
  intro s'
  obtain ⟨polls, htake⟩ := takeAll?_of_delivers h
  obtain ⟨polls', htake'⟩ := takeAll?_of_delivers h'
  have hunstopped : ∀ payloads, (s.receiveAll payloads).stopped = false :=
    fun _ => receiveAll_unstopped hstopped (hquiet _)
  have hunstopped' : ∀ payloads, (s'.receiveAll payloads).stopped = false :=
    fun _ => receiveAll_unstopped (s := s') hstopped (hquiet _)
  have hmoment : SameMoment time s s' := ⟨rfl, hleft, hright⟩
  have hrecorded : SameMoment time s.recorded s'.recorded := ⟨rfl, hleft, hright⟩
  refine ⟨max polls polls', ?_⟩
  intro enough hle
  refine ⟨s.receiveAll cuts.flatten, s'.receiveAll cuts'.flatten,
    s.recorded.receiveAll cuts.flatten, s'.recorded.receiveAll cuts'.flatten, ?_, ?_, ?_, ?_, ?_⟩
  · exact htake s (hunstopped _) enough (by omega)
  · exact htake' s' (hunstopped' _) enough (by omega)
  · exact htake s.recorded (recorded_unstopped (hunstopped _)) enough (by omega)
  · exact htake' s'.recorded (recorded_unstopped (hunstopped' _)) enough (by omega)
  · rw [hsame]
    exact ((sameMoment_simulation time).receiveAll hmoment cuts'.flatten).sameEnd
      ((sameMoment_simulation time).receiveAll hrecorded cuts'.flatten)

/-- A queue of two places is handed four payloads in three ways, and then by one run whose counter
is one cycle ahead. At such readings a cycle does not show in the time. -/
theorem plans_sameEnd_small :
    let s : Intake BoundedQueue :=
      { small { capacity := 2 } with ticker := { readings := fun _ => 0x8000000000000000 } }
    let ticker : Ticker := { readings := fun _ => 0x8000000000000001 }
    let payloads : List Payload := [[], .replicate 28 7, .replicate 44 7, .replicate 28 8]
    let replay : Replay := { payloads, position := 2 }
    let plan : List Handing :=
      [.packet [], .burst [], .burst [.replicate 28 7], .run (replay.withBurstSize 0)]
    let plan' : List Handing := [.run ({ replay with position := 0 }.withBurstSize 3)]
    ∃ polls, ∀ enough, polls ≤ enough → ∃ t t' u u',
      s.takeAll? enough plan = some ([none, none, none, some 2], t) ∧
      ({ s with ticker } : Intake BoundedQueue).takeAll? enough plan' = some ([some 4], t') ∧
      s.recorded.takeAll? enough plan = some ([none, none, none, some 2], u) ∧
      ({ s with ticker } : Intake BoundedQueue).recorded.takeAll? enough plan' =
        some ([some 4], u') ∧
      SameEnd t t' u u' := by
  intro s ticker payloads replay plan plan'
  have hplan : List.Forall₂ Handing.Delivers plan
      [[[]], [], [.replicate 28 7], replay.payloads.drop replay.position] :=
    .cons (.packet _) (.cons (.burst _) (.cons (.burst _) (.cons (.replay rfl 0) .nil)))
  have hplan' : List.Forall₂ Handing.Delivers plan' [payloads.drop 0] :=
    .cons (.replay rfl 3) .nil
  have hleft : ∀ i, s.clock.now (s.ticker.readings i) = s.clock.now 0x8000000000000000 := by
    intro i
    rfl
  have hnow : s.clock.now 0x8000000000000001 = s.clock.now 0x8000000000000000 := by decide +kernel
  have hright : ∀ i, s.clock.now (ticker.readings i) = s.clock.now 0x8000000000000000 := by
    intro i
    exact hnow
  exact plans_sameEnd hleft hright (BoundedQueue.isQuiet s.sink) rfl hplan hplan' rfl

end Intake

end QuoteFeed
