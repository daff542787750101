import QuoteFeed.Proofs.Intake.Making
import QuoteFeed.Proofs.Intake.Worker

/-! # Intakes that cannot be told apart

A relation that survives every packet, reading, warm-up and reset survives whatever a worker does.
Three such relations are given: recording the offers to a sink, switching off the counting of
packets, and reading another counter under a clock that shows one moment only. -/

namespace QuoteFeed.Intake

variable {σ τ : Type} [Sink σ] [Sink τ]

/-- A relation between intakes that nothing breaks, and under which packets have the same
outcomes. -/
structure Simulation (related : Intake σ → Intake τ → Prop) : Prop where
  process : ∀ {s t}, related s t → ∀ payload time,
    (s.process payload time).1 = (t.process payload time).1 ∧
      related (s.process payload time).2 (t.process payload time).2
  readTime : ∀ {s t}, related s t →
    s.readTime.1 = t.readTime.1 ∧ related s.readTime.2 t.readTime.2
  warmUpPackets : ∀ {s t}, related s t → s.config.warmUpPackets = t.config.warmUpPackets
  warmUpOnce : ∀ {s t}, related s t → ∀ n, related (warmUpOnce (n, s)).2 (warmUpOnce (n, t)).2
  resetTally : ∀ {s t}, related s t → related s.resetTally t.resetTally
  stopped : ∀ {s t}, related s t → s.stopped = t.stopped
  stopIf : ∀ {s t}, related s t → ∀ asked, related (s.stopIf asked) (t.stopIf asked)

namespace Simulation

variable {related : Intake σ → Intake τ → Prop} {s : Intake σ} {t : Intake τ}

theorem receive (sim : Simulation related) (h : related s t) (payload : Payload) :
    (s.receive payload).1 = (t.receive payload).1 ∧
      related (s.receive payload).2 (t.receive payload).2 := by
  obtain ⟨htime, hread⟩ := sim.readTime h
  rw [Intake.receive, Intake.receive, htime]
  exact sim.process hread payload t.readTime.1

theorem receiveAll (sim : Simulation related) (h : related s t) (burst : List Payload) :
    related (s.receiveAll burst) (t.receiveAll burst) := by
  induction burst generalizing s t with
  | nil => exact h
  | cons payload burst ih => exact ih (sim.receive h payload).2

theorem warmUp (sim : Simulation related) (h : related s t) : related s.warmUp.2 t.warmUp.2 := by
  rw [Intake.warmUp, Intake.warmUp, sim.warmUpPackets h]
  induction t.config.warmUpPackets with
  | zero => exact (sim.readTime h).2
  | succ n ih =>
      rw [Nat.repeat, Nat.repeat, repeat_warmUpOnce, repeat_warmUpOnce]
      exact sim.warmUpOnce ih n

/-! ## Workers -/

/-- Workers in the same place whose intakes are related. -/
structure Workers (related : Intake σ → Intake τ → Prop) (w : Worker σ) (v : Worker τ) : Prop where
  intake : related w.intake v.intake
  task : w.task = v.task
  history : w.history = v.history

variable {w : Worker σ} {v : Worker τ}

omit [Sink σ] [Sink τ] in
theorem took {packet : Outcome × Intake σ} {packet' : Outcome × Intake τ}
    (h : packet.1 = packet'.1 ∧ related packet.2 packet'.2) (hw : Workers related w v)
    (task : Task) : Workers related (w.took packet task) (v.took packet' task) := by
  refine ⟨h.2, rfl, ?_⟩
  rw [Worker.took, Worker.took, h.1, hw.history]

theorem start (sim : Simulation related) (h : Workers related w v) (call : Call) :
    Workers related (w.start call) (v.start call) := by
  cases call with
  | process payload time => exact took (sim.process h.intake payload time) h .idle
  | receive payload => exact took (sim.receive h.intake payload) h .idle
  | receiveAll burst => exact ⟨h.intake, rfl, h.history⟩
  | run source => exact ⟨h.intake, rfl, h.history⟩
  | warmUp => exact ⟨sim.warmUp h.intake, h.task, h.history⟩

theorem advance (sim : Simulation related) (h : Workers related w v) :
    Workers related w.advance v.advance := by
  obtain ⟨s, task, history⟩ := w
  obtain ⟨t, task', history'⟩ := v
  obtain ⟨hrelated, rfl, rfl⟩ := h
  have hw : Workers related ⟨s, task, history⟩ ⟨t, task, history⟩ := ⟨hrelated, rfl, rfl⟩
  cases task with
  | idle => exact hw
  | burst pending =>
      cases pending with
      | nil => exact ⟨hrelated, rfl, rfl⟩
      | cons payload pending => exact took (sim.receive hrelated payload) hw (.burst pending)
  | run source pending =>
      cases pending with
      | cons payload pending =>
          exact took (sim.receive hrelated payload) hw (.run source pending)
      | nil =>
          simp only [Worker.advance]
          rw [sim.stopped hrelated]
          split
          · exact ⟨hrelated, rfl, rfl⟩
          · exact ⟨sim.stopIf hrelated _, rfl, rfl⟩

theorem step (sim : Simulation related) (h : Workers related w v) (move : Move) :
    Workers related (w.step move) (v.step move) := by
  cases move with
  | advance => exact sim.advance h
  | reset => exact ⟨sim.resetTally h.intake, h.task, congrArg (Moment.reset :: ·) h.history⟩
  | call call =>
      simp only [Worker.step, h.task]
      split
      · exact sim.start h call
      · exact h

theorem perform (sim : Simulation related) (h : Workers related w v) (moves : List Move) :
    Workers related (w.perform moves) (v.perform moves) := by
  induction moves generalizing w v with
  | nil => exact h
  | cons move moves ih => exact ih (sim.step h move)

theorem work (sim : Simulation related) (h : related s t) (moves : List Move) :
    Workers related (s.work moves) (t.work moves) :=
  sim.perform ⟨h, rfl, rfl⟩ moves

end Simulation

/-! ## Changes that are not noticed -/

/-- A change of intakes that goes through every step unchanged. -/
structure Unnoticed (change : Intake σ → Intake τ) : Prop where
  sequence : ∀ s, (change s).sequence = s.sequence
  taken : ∀ s quote, (Sink.offer (change s).sink quote).taken = (Sink.offer s.sink quote).taken
  reject : ∀ s, (change s).reject = change s.reject
  settle : ∀ s quote, (change s).settle quote = change (s.settle quote)
  readTime : ∀ s, (change s).readTime = (s.readTime.1, change s.readTime.2)
  warmUpPackets : ∀ s, (change s).config.warmUpPackets = s.config.warmUpPackets
  warmUpOnce : ∀ s n, (warmUpOnce (n, change s)).2 = change (warmUpOnce (n, s)).2
  resetTally : ∀ s, (change s).resetTally = change s.resetTally
  stopped : ∀ s, (change s).stopped = s.stopped
  stopIf : ∀ s asked, (change s).stopIf asked = change (s.stopIf asked)

theorem Unnoticed.simulation {change : Intake σ → Intake τ} (h : Unnoticed change) :
    Simulation fun s t => change s = t where
  process := by
    intro s t hst payload time
    rw [← hst, process_map change h.sequence h.taken h.reject h.settle]
    exact ⟨rfl, rfl⟩
  readTime := by
    intro s t hst
    rw [← hst, h.readTime]
    exact ⟨rfl, rfl⟩
  warmUpPackets := by
    intro s t hst
    rw [← hst, h.warmUpPackets]
  warmUpOnce := by
    intro s t hst n
    rw [← hst, h.warmUpOnce]
  resetTally := by
    intro s t hst
    rw [← hst, h.resetTally]
  stopped := by
    intro s t hst
    rw [← hst, h.stopped]
  stopIf := by
    intro s t hst asked
    rw [← hst, h.stopIf]

/-- The intake whose sink records every offer made to it from now on. -/
def recorded (s : Intake σ) : Intake (Recorder σ) :=
  { s with sink := { sink := s.sink } }

def unrecorded (s : Intake (Recorder σ)) : Intake σ :=
  { s with sink := s.sink.sink }

theorem unrecorded_unnoticed : Unnoticed (unrecorded : Intake (Recorder σ) → Intake σ) where
  sequence _ := rfl
  taken _ _ := rfl
  reject _ := rfl
  settle _ _ := rfl
  readTime _ := rfl
  warmUpPackets _ := rfl
  warmUpOnce s n := by rw [warmUpOnce_eq, warmUpOnce_eq]; rfl
  resetTally _ := rfl
  stopped _ := rfl
  stopIf _ _ := rfl

/-- The intake that counts nothing and has counted nothing. -/
def uncounted (s : Intake σ) : Intake σ :=
  { s.withCounting false with tally := {} }

theorem uncounted_unnoticed : Unnoticed (uncounted : Intake σ → Intake σ) where
  sequence _ := rfl
  taken _ _ := rfl
  reject _ := rfl
  settle _ _ := rfl
  readTime _ := rfl
  warmUpPackets _ := rfl
  warmUpOnce s n := by rw [warmUpOnce_eq, warmUpOnce_eq]; rfl
  resetTally _ := rfl
  stopped _ := rfl
  stopIf _ _ := rfl

/-! ## Counters under a clock that stands still -/

/-- The intakes differ at most in their counters, and the clock shows the same moment at every
reading of both. -/
structure SameMoment (time : UInt64) (s t : Intake σ) : Prop where
  eq : { s with ticker := t.ticker } = t
  left : ∀ i, s.clock.now (s.ticker.readings i) = time
  right : ∀ i, s.clock.now (t.ticker.readings i) = time

omit [Sink σ] in
theorem SameMoment.readTime_eq {time : UInt64} {s t : Intake σ} (h : SameMoment time s t) :
    s.readTime.1 = t.readTime.1 := by
  have hclock : s.clock = t.clock := by rw [← h.eq]
  have hleft : s.readTime.1 = time := h.left s.ticker.taken
  have hright : s.clock.now (t.ticker.readings t.ticker.taken) = time := h.right t.ticker.taken
  rw [hleft, ← hright, hclock]
  rfl

/-- Which counter is read is not noticed while the clock stands still. -/
theorem sameMoment_simulation (time : UInt64) :
    Simulation (SameMoment time : Intake σ → Intake σ → Prop) where
  process := by
    intro s t h payload arrival
    have hprocess := process_map (fun s : Intake σ => { s with ticker := t.ticker })
      (fun _ => rfl) (fun _ _ => rfl) (fun _ => rfl) (fun _ _ => rfl) s payload arrival
    obtain ⟨pool, sink, tally, stopped, sequence, hframe⟩ := s.process_frame payload arrival
    rw [← h.eq, hprocess, hframe]
    exact ⟨rfl, rfl, h.left, h.right⟩
  readTime := by
    intro s t h
    refine ⟨h.readTime_eq, ?_, h.left, h.right⟩
    rw [← h.eq]
    rfl
  warmUpPackets := by
    intro s t h
    rw [← h.eq]
  warmUpOnce := by
    intro s t h n
    rw [warmUpOnce_eq, warmUpOnce_eq, ← h.readTime_eq]
    refine ⟨?_, h.left, h.right⟩
    rw [← h.eq]
  resetTally := by
    intro s t h
    refine ⟨?_, h.left, h.right⟩
    rw [← h.eq]
    rfl
  stopped := by
    intro s t h
    rw [← h.eq]
  stopIf := by
    intro s t h asked
    refine ⟨?_, h.left, h.right⟩
    rw [← h.eq]
    rfl

end QuoteFeed.Intake
