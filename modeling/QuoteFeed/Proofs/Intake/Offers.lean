import Mathlib.Data.List.Forall2
import QuoteFeed.Proofs.Intake.Simulation

/-! # What a sink is offered

An exchange is what passes between an intake and its sink, told without pool, counters or clock:
the packets that can be decoded are offered in order, each as the quote that its payload conveys,
and the outcomes are the sink's answers. -/

namespace QuoteFeed

/-! ## Sinks that are offered quotes one after the other -/

namespace Sink

variable {σ : Type} [Sink σ]

def responses : σ → List Quote → List (Response σ)
  | _, [] => []
  | sink, quote :: quotes =>
      Sink.offer sink quote :: responses (Sink.offer sink quote).sink quotes

def after (sink : σ) (quotes : List Quote) : σ :=
  quotes.foldl (fun sink quote => (Sink.offer sink quote).sink) sink

end Sink

namespace Intake

variable {σ : Type} [Sink σ]

structure Arrival where
  payload : Payload
  time : UInt64

/-- What passes between an intake and its sink from the packet with the given number on. -/
inductive Exchange : Nat → σ → List Arrival → List Outcome → List Attempt → σ → Prop
  | done (number sink) : Exchange number sink [] [] [] sink
  | rejected {number sink arrival arrivals outcomes attempts last}
      (h : arrival.payload.length < 28)
      (rest : Exchange (number + 1) sink arrivals outcomes attempts last) :
      Exchange number sink (arrival :: arrivals) (.rejected :: outcomes) attempts last
  | offered {number sink arrival arrivals outcomes attempts last} {quote : Quote}
      (h : 28 ≤ arrival.payload.length)
      (conveys : quote.Conveys arrival.payload arrival.time number)
      (rest : Exchange (number + 1) (Sink.offer sink quote).sink arrivals outcomes attempts last) :
      Exchange number sink (arrival :: arrivals)
        (.ofTaken (Sink.offer sink quote).taken :: outcomes)
        (⟨(Sink.offer sink quote).taken, quote⟩ :: attempts) last

namespace Exchange

variable {number : Nat} {sink last : σ} {arrivals : List Arrival} {outcomes : List Outcome}
  {attempts : List Attempt}

/-- The attempts are the packets that can be decoded, in order. -/
theorem offers (h : Exchange number sink arrivals outcomes attempts last) :
    List.Forall₂
      (fun arrival attempt =>
        attempt.quote.Conveys arrival.1.payload arrival.1.time arrival.2)
      ((arrivals.zipIdx number).filter fun arrival => 28 ≤ arrival.1.payload.length) attempts := by
  induction h with
  | done => exact .nil
  | rejected h _ ih =>
      rw [List.zipIdx_cons, List.filter_cons_of_neg (by simpa using h)]
      exact ih
  | offered h conveys _ ih =>
      rw [List.zipIdx_cons, List.filter_cons_of_pos (by simpa using h)]
      exact .cons conveys ih

theorem answers (h : Exchange number sink arrivals outcomes attempts last) :
    attempts.map Attempt.taken =
      (Sink.responses sink (attempts.map Attempt.quote)).map Response.taken := by
  induction h with
  | done => rfl
  | rejected _ _ ih => exact ih
  | offered _ _ _ ih => simpa [Sink.responses] using ih

theorem last_eq (h : Exchange number sink arrivals outcomes attempts last) :
    last = Sink.after sink (attempts.map Attempt.quote) := by
  induction h with
  | done => rfl
  | rejected _ _ ih => exact ih
  | offered _ _ _ ih => exact ih

theorem rejections (h : Exchange number sink arrivals outcomes attempts last) :
    outcomes.map (fun outcome => decide (outcome = .rejected)) =
      arrivals.map fun arrival => decide (arrival.payload.length < 28) := by
  induction h with
  | done => rfl
  | rejected h _ ih => simp [h, ih]
  | offered h _ _ ih => simp [Nat.not_lt_of_le h, ih]

theorem deliveries (h : Exchange number sink arrivals outcomes attempts last) :
    outcomes.filter (fun outcome => decide (outcome ≠ .rejected)) =
      attempts.map fun attempt => .ofTaken attempt.taken := by
  induction h with
  | done => rfl
  | rejected _ _ ih => simpa using ih
  | offered _ _ _ ih => simpa using ih

end Exchange

/-! ## The exchange of an intake with its sink -/

/-- From one intake to another, the recorded offers grow by those of an exchange. -/
def Exchanged (number : Nat) (s : Intake (Recorder σ)) (arrivals : List Arrival)
    (outcomes : List Outcome) (t : Intake (Recorder σ)) : Prop :=
  ∃ attempts, t.sink.attempts.toList = s.sink.attempts.toList ++ attempts ∧
    Exchange number s.sink.sink arrivals outcomes attempts t.sink.sink

theorem Exchanged.refl (number : Nat) (s : Intake (Recorder σ)) : Exchanged number s [] [] s :=
  ⟨[], by simp, .done ..⟩

theorem toList_attempts_settle (s : Intake (Recorder σ)) (quote : Quote) :
    (s.settle quote).sink.attempts.toList =
      s.sink.attempts.toList ++ [⟨(Sink.offer s.sink.sink quote).taken, quote⟩] :=
  Fifo.toList_push ..

/-- A packet comes before what is exchanged after it. -/
theorem Exchanged.process {number : Nat} {s t : Intake (Recorder σ)} {payload : Payload}
    {time : UInt64} {arrivals : List Arrival} {outcomes : List Outcome}
    (hnumber : s.sequence.toNat = number % 2 ^ 32)
    (h : Exchanged (number + 1) (s.process payload time).2 arrivals outcomes t) :
    Exchanged number s (⟨payload, time⟩ :: arrivals) ((s.process payload time).1 :: outcomes)
      t := by
  rcases s.process_cases payload time with ⟨hlt, hprocess⟩ | ⟨hle, quote, hconveys, hprocess⟩
  · rw [hprocess] at h ⊢
    obtain ⟨attempts, htoList, hexchange⟩ := h
    exact ⟨attempts, htoList, .rejected hlt hexchange⟩
  · rw [hprocess] at h ⊢
    obtain ⟨attempts, htoList, hexchange⟩ := h
    refine ⟨_, ?_, .offered hle (hconveys number hnumber) hexchange⟩
    rw [htoList, toList_attempts_settle, List.append_assoc, List.singleton_append]

omit [Sink σ] in
theorem toNat_sequence_add_one {s : Intake σ} {number : Nat}
    (h : s.sequence.toNat = number % 2 ^ 32) :
    (s.sequence + 1).toNat = (number + 1) % 2 ^ 32 := by
  rw [UInt32.toNat_add, h]
  exact Nat.mod_add_mod ..

theorem process_sequence (s : Intake σ) (payload : Payload) (time : UInt64) :
    (s.process payload time).2.sequence = s.sequence + 1 := by
  rcases s.process_cases payload time with ⟨_, h⟩ | ⟨_, quote, _, h⟩ <;> rw [h] <;> rfl

/-! ## Sessions -/

inductive Request
  | process (payload : Payload) (time : UInt64)
  | warmUp
  | reset

def Request.arrival? : Request → Option Arrival
  | .process payload time => some ⟨payload, time⟩
  | .warmUp => none
  | .reset => none

def handle (s : Intake σ) : Request → Option Outcome × Intake σ
  | .process payload time => (some (s.process payload time).1, (s.process payload time).2)
  | .warmUp => (none, s.warmUp.2)
  | .reset => (none, s.resetTally)

/-- Answers requests in order; also tells what became of their packets. -/
def handleAll : Intake σ → List Request → List Outcome × Intake σ
  | s, [] => ([], s)
  | s, request :: requests =>
      let rest := handleAll (s.handle request).2 requests
      ((s.handle request).1.toList ++ rest.1, rest.2)

theorem handleAll_exchanged (s : Intake (Recorder σ)) {number : Nat}
    (hnumber : s.sequence.toNat = number % 2 ^ 32) (requests : List Request) :
    Exchanged number s (requests.filterMap Request.arrival?) (s.handleAll requests).1
      (s.handleAll requests).2 := by
  induction requests generalizing s number with
  | nil => exact .refl number s
  | cons request requests ih =>
      cases request with
      | process payload time =>
          apply Exchanged.process hnumber
          apply ih
          rw [process_sequence]
          exact toNat_sequence_add_one hnumber
      | warmUp =>
          -- A warm-up reaches neither the sink nor the sequence.
          obtain ⟨pool, ticker, hframe⟩ := s.warmUp_frame
          have hsequence : s.warmUp.2.sequence = s.sequence := by rw [hframe]
          have hsink : s.warmUp.2.sink = s.sink := by rw [hframe]
          have hrest := ih s.warmUp.2 (hsequence ▸ hnumber)
          rw [Exchanged, hsink] at hrest
          exact hrest
      | reset => exact ih s.resetTally hnumber

theorem Simulation.handleAll {τ : Type} [Sink τ] {related : Intake σ → Intake τ → Prop}
    (sim : Simulation related) {s : Intake σ} {t : Intake τ} (h : related s t)
    (requests : List Request) :
    (s.handleAll requests).1 = (t.handleAll requests).1 ∧
      related (s.handleAll requests).2 (t.handleAll requests).2 := by
  induction requests generalizing s t with
  | nil => exact ⟨rfl, h⟩
  | cons request requests ih =>
      cases request with
      | process payload time =>
          obtain ⟨houtcome, hprocess⟩ := sim.process h payload time
          obtain ⟨houtcomes, hrest⟩ := ih hprocess
          refine ⟨?_, hrest⟩
          simp only [Intake.handleAll, handle, Option.toList_some, houtcome, houtcomes]
      | warmUp => exact ih (sim.warmUp h)
      | reset => exact ih (sim.resetTally h)

/-- What a session comes to: its packets, their outcomes, and the offers made to a sink that ends
as `last`. -/
structure SessionSpec (sink : σ) (arrivals : List Arrival) (outcomes : List Outcome)
    (attempts : List Attempt) (last : σ) : Prop where
  /-- One offer for each packet of at least 28 bytes and no other, in order, each of the quote that
  the payload conveys under the packet's number. -/
  offers : List.Forall₂
    (fun arrival attempt => attempt.quote.Conveys arrival.1.payload arrival.1.time arrival.2)
    (arrivals.zipIdx.filter fun arrival => 28 ≤ arrival.1.payload.length) attempts
  /-- The answers are those of the sink to these offers. -/
  answers : attempts.map Attempt.taken =
    (Sink.responses sink (attempts.map Attempt.quote)).map Response.taken
  last_eq : last = Sink.after sink (attempts.map Attempt.quote)
  rejections : outcomes.map (fun outcome => decide (outcome = .rejected)) =
    arrivals.map fun arrival => decide (arrival.payload.length < 28)
  deliveries : outcomes.filter (fun outcome => decide (outcome ≠ .rejected)) =
    attempts.map fun attempt => if attempt.taken then .published else .dropped

theorem Exchange.sessionSpec {sink last : σ} {arrivals : List Arrival} {outcomes : List Outcome}
    {attempts : List Attempt} (h : Exchange 0 sink arrivals outcomes attempts last) :
    SessionSpec sink arrivals outcomes attempts last :=
  ⟨h.offers, h.answers, h.last_eq, h.rejections, h.deliveries⟩

/-- A sink is offered the packets of a session that can be decoded, and nothing else, whatever the
pool held before. -/
theorem handleAll_offers {memory : Nat} {config : Config} {origin : ClockOrigin} {ticker : Ticker}
    {sink : σ} {s : Intake σ} (h : build memory config origin ticker sink = .ok s) (pool : Pool)
    (requests : List Request) :
    SessionSpec sink (requests.filterMap Request.arrival?)
      (({ s with pool } : Intake σ).handleAll requests).1
      (({ s with pool } : Intake σ).recorded.handleAll requests).2.sink.attempts.toList
      (({ s with pool } : Intake σ).handleAll requests).2.sink := by
  obtain ⟨_, made, clock, left, _, rfl⟩ := build_eq_ok h
  let s : Intake σ := { config, pool, clock, ticker := left, sink }
  change SessionSpec sink (requests.filterMap Request.arrival?) (s.handleAll requests).1
    (s.recorded.handleAll requests).2.sink.attempts.toList (s.handleAll requests).2.sink
  have hnumber : s.recorded.sequence.toNat = 0 % 2 ^ 32 := rfl
  obtain ⟨attempts, htoList, hexchange⟩ := handleAll_exchanged s.recorded hnumber requests
  have hrecorded : s.recorded.unrecorded = s := rfl
  obtain ⟨houtcomes, hlast⟩ := unrecorded_unnoticed.simulation.handleAll hrecorded requests
  rw [← houtcomes, ← hlast, htoList]
  exact hexchange.sessionSpec

/-- A queue of one place takes the first packet that can be decoded and leaves the second. -/
theorem handleAll_offers_small :
    let sink : BoundedQueue := { capacity := 1 }
    let requests : List Request := [.warmUp, .process [] 5, .process (List.replicate 44 7) 6, .reset,
      .process (List.replicate 28 7) 8]
    build 4096 .small (.known (small sink).clock) (small sink).ticker sink = .ok (small sink) ∧
      ((small sink).handleAll requests).1 = [.rejected, .published, .dropped] ∧
      SessionSpec sink (requests.filterMap Request.arrival?) ((small sink).handleAll requests).1
        ((small sink).recorded.handleAll requests).2.sink.attempts.toList
        ((small sink).handleAll requests).2.sink := by
  intro sink requests
  exact ⟨build_small sink, by decide +kernel,
    handleAll_offers (build_small sink) (small sink).pool requests⟩

end Intake

end QuoteFeed
