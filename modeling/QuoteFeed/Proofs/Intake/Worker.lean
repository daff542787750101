import QuoteFeed.Proofs.Intake.Step
import QuoteFeed.Proofs.Source.Delivery

/-! # Intakes at work

A worker is an intake that may be in the middle of a burst or of a run. It goes on by one packet or
by one poll at a time, so each of its states lies between two packets, and its tally may be reset in
each of them. Left alone, a worker does what `receiveAll` and `run?` do. -/

namespace QuoteFeed.Intake

variable {σ : Type}

/-- What a worker has still to do. -/
inductive Task : Type 1
  | idle
  | burst (pending : List Payload)
  /-- A run, in which some payloads of the last poll have still to be taken. -/
  | run {τ : Type} [Source τ] (source : τ) (pending : List Payload)

/-- What an intake can be called to do. -/
inductive Call : Type 1
  | process (payload : Payload) (time : UInt64)
  | receive (payload : Payload)
  | receiveAll (burst : List Payload)
  | run {τ : Type} [Source τ] (source : τ)
  | warmUp

/-- What may happen between two packets. A call waits for an idle worker. -/
inductive Move : Type 1
  | call (call : Call)
  | advance
  | reset

inductive Moment
  | packet (outcome : Outcome)
  | reset
deriving DecidableEq

/-- The packets with these outcomes, the newest first. -/
def Moment.packets (outcomes : List Outcome) : List Moment :=
  (outcomes.map .packet).reverse

theorem Moment.packets_cons_append (outcome : Outcome) (outcomes : List Outcome)
    (history : List Moment) :
    packets (outcome :: outcomes) ++ history = packets outcomes ++ .packet outcome :: history := by
  simp [packets]

theorem Moment.packets_append_append (first second : List Outcome) (history : List Moment) :
    packets (first ++ second) ++ history = packets second ++ (packets first ++ history) := by
  simp [packets]

structure Worker (σ : Type) where
  intake : Intake σ
  task : Task := .idle
  /-- What the tally was told so far, the newest first. -/
  history : List Moment := []

namespace Worker

def took (w : Worker σ) (packet : Outcome × Intake σ) (task : Task) : Worker σ :=
  { intake := packet.2, task, history := .packet packet.1 :: w.history }

def start [Sink σ] (w : Worker σ) : Call → Worker σ
  | .process payload time => w.took (w.intake.process payload time) .idle
  | .receive payload => w.took (w.intake.receive payload) .idle
  | .receiveAll burst => { w with task := .burst burst }
  | @Call.run _ _ source => { w with task := .run source [] }
  | .warmUp => { w with intake := w.intake.warmUp.2 }

def advance [Sink σ] (w : Worker σ) : Worker σ :=
  match w.task with
  | .idle => w
  | .burst [] => { w with task := .idle }
  | .burst (payload :: pending) => w.took (w.intake.receive payload) (.burst pending)
  | @Task.run _ _ source (payload :: pending) =>
      w.took (w.intake.receive payload) (.run source pending)
  | @Task.run _ _ source [] =>
      -- A run looks at the request to stop only here, before it polls again.
      if w.intake.stopped || Source.isExhausted source then { w with task := .idle }
      else
        let poll := Source.poll source
        { w with
          intake := w.intake.stopIf poll.stops
          task := .run poll.source poll.bursts.flatten }

def step [Sink σ] (w : Worker σ) : Move → Worker σ
  | .advance => w.advance
  | .reset => { w with intake := w.intake.resetTally, history := .reset :: w.history }
  | .call call =>
      match w.task with
      | .idle => w.start call
      | _ => w

def perform [Sink σ] (w : Worker σ) (moves : List Move) : Worker σ :=
  moves.foldl step w

section Calls

variable [Sink σ]

theorem perform_cons (w : Worker σ) (move : Move) (moves : List Move) :
    w.perform (move :: moves) = (w.step move).perform moves :=
  rfl

theorem perform_append (w : Worker σ) (first second : List Move) :
    w.perform (first ++ second) = (w.perform first).perform second :=
  List.foldl_append

/-! ## What one step can do -/

/-- The four things that a step can do to a worker. -/
inductive Change (w : Worker σ) : Worker σ → Prop
  | packet (ticker : Ticker) (payload : Payload) (time : UInt64) (task : Task) :
      Change w (w.took (({ w.intake with ticker } : Intake σ).process payload time) task)
  | reset : Change w { w with intake := w.intake.resetTally, history := .reset :: w.history }
  | warmUp : Change w { w with intake := w.intake.warmUp.2 }
  | control (asked : Bool) (task : Task) :
      Change w { w with intake := w.intake.stopIf asked, task }

theorem Change.retask (w : Worker σ) (task : Task) : Change w { w with task } := by
  have h := Change.control (w := w) false task
  rw [stopIf_false] at h
  exact h

theorem Change.receive (w : Worker σ) (payload : Payload) (task : Task) :
    Change w (w.took (w.intake.receive payload) task) :=
  .packet w.intake.ticker.read.2 payload w.intake.readTime.1 task

theorem start_change (w : Worker σ) (call : Call) : Change w (w.start call) := by
  cases call with
  | process payload time => exact .packet w.intake.ticker payload time .idle
  | receive payload => exact .receive w payload .idle
  | receiveAll burst => exact .retask w (.burst burst)
  | run source => exact .retask w (.run source [])
  | warmUp => exact .warmUp

theorem advance_change (w : Worker σ) : Change w w.advance := by
  rw [advance]
  split
  · exact .retask w w.task
  · exact .retask w .idle
  · exact .receive w _ _
  · exact .receive w _ _
  · split
    · exact .retask w .idle
    · exact .control _ _

theorem step_change (w : Worker σ) (move : Move) : Change w (w.step move) := by
  cases move with
  | advance => exact w.advance_change
  | reset => exact .reset
  | call call =>
      rw [step]
      split
      · exact w.start_change call
      · exact .retask w w.task

/-- What every step keeps, every list of moves keeps. -/
theorem perform_induction {P : Worker σ → Prop} (hstep : ∀ {w v}, P w → Change w v → P v)
    {w : Worker σ} (hw : P w) (moves : List Move) : P (w.perform moves) := by
  induction moves generalizing w with
  | nil => exact hw
  | cons move moves ih => exact ih (hstep hw (w.step_change move))

/-! ## Left alone, a worker finishes its call -/

/-- A task whose next step is the next of its pending payloads comes to the end of them. -/
theorem perform_pending (task : List Payload → Task)
    (htask : ∀ (s : Intake σ) payload pending history,
      advance ⟨s, task (payload :: pending), history⟩ =
        took ⟨s, task (payload :: pending), history⟩ (s.receive payload) (task pending))
    (s : Intake σ) (pending : List Payload) (history : List Moment) :
    perform ⟨s, task pending, history⟩ (.replicate pending.length .advance) =
      ⟨s.receiveAll pending, task [], Moment.packets (s.outcomes pending) ++ history⟩ := by
  induction pending generalizing s history with
  | nil => rfl
  | cons payload pending ih =>
      rw [List.length_cons, List.replicate_succ, perform_cons, step, htask, outcomes,
        Moment.packets_cons_append]
      exact ih (s.receive payload).2 (.packet (s.receive payload).1 :: history)

/-- A burst that nothing interrupts is `receiveAll`. -/
theorem perform_receiveAll (s : Intake σ) (burst : List Payload) (history : List Moment) :
    perform ⟨s, .idle, history⟩
        (.call (.receiveAll burst) :: .replicate (burst.length + 1) .advance) =
      ⟨s.receiveAll burst, .idle, Moment.packets (s.outcomes burst) ++ history⟩ := by
  have hcall : step ⟨s, .idle, history⟩ (.call (.receiveAll burst)) = ⟨s, .burst burst, history⟩ :=
    rfl
  rw [perform_cons, hcall, List.replicate_succ', perform_append,
    perform_pending .burst (fun _ _ _ _ => rfl)]
  rfl

variable {τ : Type} [Source τ] {r done : Run σ τ}

theorem advance_run_of_isOver (h : r.isOver = true) (history : List Moment) :
    advance ⟨r.intake, .run r.source [], history⟩ = ⟨r.intake, .idle, history⟩ :=
  if_pos h

theorem advance_run_of_not_isOver (h : ¬ r.isOver = true) (history : List Moment) :
    advance ⟨r.intake, .run r.source [], history⟩ =
      ⟨r.intake.stopIf (Source.poll r.source).stops,
        .run (Source.poll r.source).source (Source.poll r.source).bursts.flatten, history⟩ :=
  if_neg h

/-- One turn of a run takes one step for the poll and one for each packet. -/
theorem perform_turn (h : ¬ r.isOver = true) (history : List Moment) :
    let payloads := (Source.poll r.source).bursts.flatten
    perform ⟨r.intake, .run r.source [], history⟩ (.replicate (payloads.length + 1) .advance) =
      ⟨r.turn.intake, .run r.turn.source [],
        Moment.packets (r.intake.outcomes payloads) ++ history⟩ := by
  intro payloads
  rw [List.replicate_succ, perform_cons, step, advance_run_of_not_isOver h,
    perform_pending (.run (Source.poll r.source).source) (fun _ _ _ _ => rfl), receiveAll_stopIf,
    outcomes_stopIf, r.turn_eq]

/-- Left alone, a worker comes to the end of the run. It takes the payloads of `n` polls and is idle
then. -/
structure Finishes (r : Run σ τ) (n : Nat) (done : Run σ τ) : Prop where
  intake : ∃ asked, done.intake = (r.intake.receiveAll (Source.handed r.source n)).stopIf asked
  perform : ∀ history, ∃ advances,
    Worker.perform ⟨r.intake, .run r.source [], history⟩ (.replicate advances .advance) =
      ⟨done.intake, .idle,
        Moment.packets (r.intake.outcomes (Source.handed r.source n)) ++ history⟩

theorem finishes_of_isOver (h : r.isOver = true) : Finishes r 0 r where
  intake := ⟨false, (stopIf_false _).symm⟩
  perform history := ⟨1, advance_run_of_isOver h history⟩

theorem Finishes.turn {n : Nat} (hr : ¬ r.isOver = true) (h : Finishes r.turn n done) :
    Finishes r (n + 1) done where
  intake := by
    obtain ⟨asked, hintake⟩ := h.intake
    refine ⟨(Source.poll r.source).stops || asked, ?_⟩
    rw [hintake, r.turn_eq, Source.handed, receiveAll_append, receiveAll_stopIf, stopIf_stopIf]
  perform history := by
    let payloads := (Source.poll r.source).bursts.flatten
    obtain ⟨advances, hrest⟩ := h.perform (Moment.packets (r.intake.outcomes payloads) ++ history)
    refine ⟨payloads.length + 1 + advances, ?_⟩
    rw [← List.replicate_append_replicate, perform_append, perform_turn hr, hrest, r.turn_eq,
      outcomes_stopIf, Source.handed, outcomes_append, Moment.packets_append_append]

theorem exists_finishes {polls : Nat} (h : r.finish? polls = some done) :
    ∃ n ≤ polls, Finishes r n done := by
  induction polls generalizing r with
  | zero =>
      rw [Run.finish?] at h
      split at h
      · next hr =>
          obtain rfl := Option.some.inj h
          exact ⟨0, Nat.le_refl 0, finishes_of_isOver hr⟩
      · cases h
  | succ polls ih =>
      rw [Run.finish?] at h
      split at h
      · next hr =>
          obtain rfl := Option.some.inj h
          exact ⟨0, Nat.zero_le _, finishes_of_isOver hr⟩
      · next hr =>
          obtain ⟨n, hle, hfinishes⟩ := ih h
          exact ⟨n + 1, Nat.succ_le_succ hle, hfinishes.turn hr⟩

/-- A run that nothing interrupts is `run?`. It takes the payloads of its polls, and may be asked to
stop meanwhile. -/
theorem perform_run {polls : Nat} {s : Intake σ} {source : τ}
    (h : s.run? polls source = some done) :
    ∃ n ≤ polls,
      (∃ asked, done.intake = (s.receiveAll (Source.handed source n)).stopIf asked) ∧
      ∀ history, ∃ advances,
        perform ⟨s, .idle, history⟩ (.call (.run source) :: .replicate advances .advance) =
          ⟨done.intake, .idle,
            Moment.packets (s.outcomes (Source.handed source n)) ++ history⟩ := by
  obtain ⟨n, hle, hfinishes⟩ := exists_finishes h
  exact ⟨n, hle, hfinishes.intake, hfinishes.perform⟩

end Calls

end Worker

/-- The intake after the moves, starting idle, and what its tally was told meanwhile. -/
def work [Sink σ] (s : Intake σ) (moves : List Move) : Worker σ :=
  Worker.perform { intake := s } moves

end QuoteFeed.Intake
