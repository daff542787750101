import QuoteFeed.Intake.Basic

/-! # Newly made intakes

An intake is made with a clock that is known or with one that is measured first. Either way it has
its settings and its sink, a pool of blank quotes, and has seen no packet. -/

namespace QuoteFeed.Intake

variable {σ : Type}

/-- Where the clock of an intake comes from. -/
inductive ClockOrigin
  | known (clock : Clock)
  | measured (measurement : Clock.Measurement)

def build (memory : Nat) (config : Config) (origin : ClockOrigin) (ticker : Ticker) (sink : σ) :
    Except Error (Intake σ) :=
  match origin with
  | .known clock => create memory config clock ticker sink
  | .measured measurement => createMeasured memory config measurement ticker sink

theorem mapError_ok {ε ε' α : Type} (f : ε → ε') (a : α) :
    (Except.ok a : Except ε α).mapError f = .ok a :=
  rfl

theorem mapError_error {ε ε' α : Type} (f : ε → ε') (e : ε) :
    (Except.error e : Except ε α).mapError f = .error (f e) :=
  rfl

theorem create_eq_ok_iff {memory : Nat} {config : Config} {clock : Clock} {ticker : Ticker}
    {sink : σ} {s : Intake σ} :
    create memory config clock ticker sink = .ok s ↔
      config.check = .ok () ∧ ∃ pool, Pool.create memory config.poolCapacity = .ok pool ∧
        s = { config, pool, clock, ticker, sink } := by
  rw [create]
  cases config.check with
  | error e => simp [bind, Except.bind]
  | ok _ =>
      cases Pool.create memory config.poolCapacity with
      | error e => simp [bind, Except.bind, mapError_error]
      | ok pool => simp [bind, Except.bind, mapError_ok, pure, Except.pure, eq_comm]

theorem createMeasured_eq_ok_iff {memory : Nat} {config : Config}
    {measurement : Clock.Measurement} {ticker : Ticker} {sink : σ} {s : Intake σ} :
    createMeasured memory config measurement ticker sink = .ok s ↔
      ∃ clock, Clock.calibrate Clock.calibrationInterval measurement ticker.read.1 = .ok clock ∧
        create memory config clock ticker.read.2 sink = .ok s := by
  rw [createMeasured]
  cases hcheck : config.check with
  | error e => simp [bind, Except.bind, create_eq_ok_iff, hcheck]
  | ok _ =>
      cases hclock : Clock.calibrate Clock.calibrationInterval measurement ticker.read.1 with
      | error e => simp [bind, Except.bind, mapError_error, hclock]
      | ok clock => simp [bind, Except.bind, mapError_ok, hclock]

/-- What a newly made intake is, up to its clock. -/
theorem build_eq_ok {memory : Nat} {config : Config} {origin : ClockOrigin} {ticker : Ticker}
    {sink : σ} {s : Intake σ} (h : build memory config origin ticker sink = .ok s) :
    config.check = .ok () ∧ ∃ pool clock left, Pool.create memory config.poolCapacity = .ok pool ∧
      s = { config, pool, clock, ticker := left, sink } := by
  cases origin with
  | known clock =>
      obtain ⟨hcheck, pool, hpool, hs⟩ := create_eq_ok_iff.mp h
      exact ⟨hcheck, pool, clock, ticker, hpool, hs⟩
  | measured measurement =>
      obtain ⟨clock, _, hcreate⟩ := createMeasured_eq_ok_iff.mp h
      obtain ⟨hcheck, pool, hpool, hs⟩ := create_eq_ok_iff.mp hcreate
      exact ⟨hcheck, pool, clock, ticker.read.2, hpool, hs⟩

/-! ## A small intake -/

def Config.small : Config :=
  { poolCapacity := 64, warmUpPackets := 2 }

/-- An intake with small settings, a clock of one nanosecond to a cycle, and a counter that stands
still. -/
def small (sink : σ) : Intake σ where
  config := .small
  pool := .replicate 64 .blank (by decide) (by decide)
  clock := ⟨.one, 0, by decide⟩
  ticker := { readings := fun _ => 0 }
  sink := sink

theorem build_small (sink : σ) :
    build 4096 .small (.known (small sink).clock) (small sink).ticker sink = .ok (small sink) :=
  rfl

/-! ## Counting -/

/-- The intake with counting switched on or off. -/
def withCounting (s : Intake σ) (counting : Bool) : Intake σ :=
  { s with config := { s.config with counting } }

/-- Whether packets are counted decides nothing in the making of an intake. -/
theorem build_withCounting {memory : Nat} {config : Config} {origin : ClockOrigin}
    {ticker : Ticker} {sink : σ} {s : Intake σ}
    (h : build memory config origin ticker sink = .ok s) (counting : Bool) :
    build memory { config with counting } origin ticker sink = .ok (s.withCounting counting) := by
  have hcreate : ∀ {clock : Clock} {left : Ticker}, create memory config clock left sink = .ok s →
      create memory { config with counting } clock left sink = .ok (s.withCounting counting) := by
    intro clock left h
    obtain ⟨hcheck, pool, hpool, rfl⟩ := create_eq_ok_iff.mp h
    exact create_eq_ok_iff.mpr ⟨hcheck, pool, hpool, rfl⟩
  cases origin with
  | known clock => exact hcreate h
  | measured measurement =>
      obtain ⟨clock, hclock, h⟩ := createMeasured_eq_ok_iff.mp h
      exact createMeasured_eq_ok_iff.mpr ⟨clock, hclock, hcreate h⟩

end QuoteFeed.Intake
