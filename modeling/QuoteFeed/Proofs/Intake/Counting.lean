import QuoteFeed.Proofs.Intake.Simulation

/-! # What the tally counts

Between any two packets the counters show, modulo `2 ^ 64`, how many packets of each outcome there
were since the last reset. An intake that does not count shows zeros and does all else the same. -/

namespace QuoteFeed

open Intake

structure Tally.Counts (t : Tally) (outcomes : List Outcome) : Prop where
  received : t.received.toNat = outcomes.length % 2 ^ 64
  processed : t.processed.toNat = outcomes.count .published % 2 ^ 64
  dropped : t.dropped.toNat = outcomes.count .dropped % 2 ^ 64
  rejected : t.rejected.toNat = outcomes.count .rejected % 2 ^ 64

theorem Tally.counts_nil : Tally.Counts {} [] :=
  ⟨rfl, rfl, rfl, rfl⟩

theorem Tally.Counts.bump {t : Tally} {outcomes : List Outcome} (h : t.Counts outcomes)
    (outcome : Outcome) :
    ((t.bump .received).bump outcome.counter).Counts (outcome :: outcomes) := by
  have hreceived := toNat_add_one_eq_mod h.received
  have hself : ∀ {x : UInt64}, x.toNat = outcomes.count outcome % 2 ^ 64 →
      (x + 1).toNat = (outcome :: outcomes).count outcome % 2 ^ 64 := by
    intro x hx
    rw [List.count_cons_self]
    exact toNat_add_one_eq_mod hx
  have hother : ∀ {x : UInt64} {other}, outcome ≠ other →
      x.toNat = outcomes.count other % 2 ^ 64 →
      x.toNat = (outcome :: outcomes).count other % 2 ^ 64 := by
    intro x other hne hx
    rw [List.count_cons_of_ne hne]
    exact hx
  cases outcome with
  | published =>
      exact ⟨hreceived, hself h.processed, hother (by decide) h.dropped,
        hother (by decide) h.rejected⟩
  | dropped =>
      exact ⟨hreceived, hother (by decide) h.processed, hself h.dropped,
        hother (by decide) h.rejected⟩
  | rejected =>
      exact ⟨hreceived, hother (by decide) h.processed, hother (by decide) h.dropped,
        hself h.rejected⟩

theorem length_eq_count_add_count_add_count (outcomes : List Outcome) :
    outcomes.length =
      outcomes.count .published + outcomes.count .dropped + outcomes.count .rejected := by
  induction outcomes with
  | nil => rfl
  | cons outcome outcomes ih =>
      cases outcome <;> simp only [List.length_cons, ih, List.count_cons] <;> simp <;> omega

theorem Tally.Counts.balance {t : Tally} {outcomes : List Outcome} (h : t.Counts outcomes) :
    t.received = t.processed + t.dropped + t.rejected := by
  apply UInt64.toNat_inj.mp
  rw [UInt64.toNat_add, UInt64.toNat_add, h.received, h.processed, h.dropped, h.rejected,
    length_eq_count_add_count_add_count]
  omega

namespace Intake

variable {σ : Type}

/-- The outcomes of the packets since the last reset, the newest first. -/
def sinceReset : List Moment → List Outcome
  | [] => []
  | .packet outcome :: earlier => outcome :: sinceReset earlier
  | .reset :: _ => []

theorem sinceReset_packets_append (outcomes : List Outcome) (history : List Moment) :
    sinceReset (Moment.packets outcomes ++ history) = outcomes.reverse ++ sinceReset history := by
  induction outcomes generalizing history with
  | nil => rfl
  | cons outcome outcomes ih =>
      rw [Moment.packets_cons_append, ih, sinceReset, List.reverse_cons, List.append_assoc,
        List.singleton_append]

/-- The worker counts, and has counted every packet since the last reset. -/
structure Worker.Counted (w : Worker σ) : Prop where
  counting : w.intake.config.counting = true
  counts : w.intake.tally.Counts (sinceReset w.history)

variable [Sink σ]

theorem process_config (s : Intake σ) (payload : Payload) (time : UInt64) :
    (s.process payload time).2.config = s.config := by
  obtain ⟨pool, sink, tally, stopped, sequence, hframe⟩ := s.process_frame payload time
  rw [hframe]

theorem Worker.Counted.change {w v : Worker σ} (h : w.Counted) (hchange : w.Change v) :
    v.Counted := by
  cases hchange with
  | packet ticker payload time task =>
      let s : Intake σ := { w.intake with ticker }
      constructor
      · exact (congrArg Config.counting (s.process_config payload time)).trans h.counting
      · change Tally.Counts (s.process payload time).2.tally
          ((s.process payload time).1 :: sinceReset w.history)
        rw [process_tally, tallyAfter, if_pos h.counting]
        exact h.counts.bump (s.process payload time).1
  | reset => exact ⟨h.counting, Tally.counts_nil⟩
  | warmUp =>
      obtain ⟨pool, ticker, hframe⟩ := w.intake.warmUp_frame
      rw [hframe]
      exact ⟨h.counting, h.counts⟩
  | control asked task => exact ⟨h.counting, h.counts⟩

theorem Worker.Counted.perform {w : Worker σ} (h : w.Counted) (moves : List Move) :
    (w.perform moves).Counted :=
  Worker.perform_induction Worker.Counted.change h moves

/-- The packets of a burst are counted after those before it, also where no worker takes it. -/
theorem Worker.Counted.receiveAll {w : Worker σ} (h : w.Counted) (burst : List Payload) :
    (w.intake.receiveAll burst).tally.Counts
      ((w.intake.outcomes burst).reverse ++ sinceReset w.history) := by
  have hidle : Counted ⟨w.intake, .idle, w.history⟩ := ⟨h.counting, h.counts⟩
  have hburst := hidle.perform (.call (.receiveAll burst) :: .replicate (burst.length + 1) .advance)
  rw [Worker.perform_receiveAll] at hburst
  rw [← sinceReset_packets_append]
  exact hburst.counts

theorem Worker.Counted.run {τ : Type} [Source τ] {w : Worker σ} (h : w.Counted) {polls : Nat}
    {source : τ} {done : Run σ τ} (hrun : w.intake.run? polls source = some done) :
    ∃ n ≤ polls, done.intake.tally.Counts
      ((w.intake.outcomes (Source.handed source n)).reverse ++ sinceReset w.history) := by
  have hidle : Counted ⟨w.intake, .idle, w.history⟩ := ⟨h.counting, h.counts⟩
  obtain ⟨n, hle, _, hworker⟩ := Worker.perform_run hrun
  obtain ⟨advances, hperform⟩ := hworker w.history
  have hdone := hidle.perform (.call (.run source) :: .replicate advances .advance)
  rw [hperform] at hdone
  refine ⟨n, hle, ?_⟩
  rw [← sinceReset_packets_append]
  exact hdone.counts

theorem work_counted {s : Intake σ} (hcounting : s.config.counting = true) (htally : s.tally = {})
    (moves : List Move) : (s.work moves).Counted := by
  apply Worker.Counted.perform
  refine ⟨hcounting, ?_⟩
  change Tally.Counts s.tally []
  rw [htally]
  exact Tally.counts_nil

/-! ## Intakes that count and intakes that do not -/

/-- What the same moves come to with an intake that counts packets and with one that does not. -/
structure CountingSpec (on off : Intake σ) (moves : List Move) : Prop where
  counts : (on.work moves).intake.tally.Counts (sinceReset (on.work moves).history)
  balance :
    let tally := (on.work moves).intake.tally
    tally.received = tally.processed + tally.dropped + tally.rejected
  warmUp : (on.work moves).intake.warmUp.2.tally = (on.work moves).intake.tally
  /-- A burst that is taken in one go is counted packet by packet. -/
  receiveAll : ∀ burst, ((on.work moves).intake.receiveAll burst).tally.Counts
    (((on.work moves).intake.outcomes burst).reverse ++ sinceReset (on.work moves).history)
  /-- So is a run that comes to its end: it counts what its polls handed over. -/
  run : ∀ {τ : Type} [Source τ] (source : τ) polls (done : Run σ τ),
    (on.work moves).intake.run? polls source = some done →
    ∃ n ≤ polls, done.intake.tally.Counts
      (((on.work moves).intake.outcomes (Source.handed source n)).reverse ++
        sinceReset (on.work moves).history)
  uncounted : (off.work moves).intake.tally = {}
  /-- The packets have the same outcomes, between the same resets. -/
  history : (off.work moves).history = (on.work moves).history
  attempts : (off.recorded.work moves).intake.sink.attempts.toList =
    (on.recorded.work moves).intake.sink.attempts.toList
  sink : (off.work moves).intake.sink = (on.work moves).intake.sink
  pool : (off.work moves).intake.pool = (on.work moves).intake.pool
  sequence : (off.work moves).intake.sequence = (on.work moves).intake.sequence

theorem uncounted_countingSpec {s : Intake σ} (hcounting : s.config.counting = true)
    (htally : s.tally = {}) (moves : List Move) : CountingSpec s s.uncounted moves := by
  have hcounted := work_counted hcounting htally moves
  have hworkers := uncounted_unnoticed.simulation.work (s := s) rfl moves
  have hrecorded := uncounted_unnoticed.simulation.work (s := s.recorded) rfl moves
  have hintake := hworkers.intake.symm
  constructor
  · exact hcounted.counts
  · exact hcounted.counts.balance
  · obtain ⟨pool, ticker, hframe⟩ := (s.work moves).intake.warmUp_frame
    rw [hframe]
  · exact hcounted.receiveAll
  · intro τ _ source polls done hrun
    exact hcounted.run hrun
  · rw [hintake]
    rfl
  · exact hworkers.history.symm
  · exact congrArg (·.sink.attempts.toList) hrecorded.intake.symm
  · rw [hintake]
    rfl
  · rw [hintake]
    rfl
  · rw [hintake]
    rfl

/-- Between any two packets the tally shows the outcomes since the last reset, and an intake that
does not count differs in its tally only. -/
theorem work_counting {memory : Nat} {config : Config} {origin : ClockOrigin} {ticker : Ticker}
    {sink : σ} {on off : Intake σ}
    (hon : build memory { config with counting := true } origin ticker sink = .ok on)
    (hoff : build memory { config with counting := false } origin ticker sink = .ok off)
    (moves : List Move) : CountingSpec on off moves := by
  have hswitched : off = on.withCounting false :=
    Except.ok.inj (hoff.symm.trans (build_withCounting hon false))
  obtain ⟨_, pool, clock, left, _, rfl⟩ := build_eq_ok hon
  rw [hswitched]
  exact uncounted_countingSpec rfl rfl moves

/-- A reset in the middle of a burst forgets its first packet; the run that follows finds no room
for its second quote. -/
theorem work_counting_small :
    let sink : BoundedQueue := { capacity := 2 }
    let replay : Replay := { payloads := [.replicate 44 7, [], .replicate 28 7] }
    let moves : List Move := [.call .warmUp, .call (.receiveAll [[], .replicate 28 7]), .advance,
      .reset, .advance, .advance, .call (.run (replay.withBurstSize 2))] ++ .replicate 6 .advance
    (small sink).config.counting = true ∧
      ((small sink).work moves).intake.tally = ⟨4, 2, 1, 1⟩ ∧
      CountingSpec (small sink) ((small sink).withCounting false) moves := by
  intro sink replay moves
  exact ⟨rfl, by decide +kernel,
    work_counting (build_small sink) (build_withCounting (build_small sink) false) moves⟩

end Intake

end QuoteFeed
