import QuoteFeed.Intake.Basic

/-! # Runs

A run polls a source until the intake is stopped or the source is exhausted. Both are looked at
before each poll only, so a burst that has begun is taken to its end. A source may go on for ever;
therefore a run is given how often it may poll, and has no result if that is not enough.
-/

namespace QuoteFeed.Intake

variable {σ τ : Type}

/-- A run in progress, or at its end. -/
structure Run (σ τ : Type) where
  intake : Intake σ
  source : τ
  packets : UInt64 := 0

namespace Run

def isOver [Source τ] (r : Run σ τ) : Bool :=
  r.intake.stopped || Source.isExhausted r.source

/-- Polls once and takes what the source hands over. -/
def turn [Sink σ] [Source τ] (r : Run σ τ) : Run σ τ :=
  let poll := Source.poll r.source
  let intake := poll.bursts.foldl receiveAll r.intake
  { intake := { intake with stopped := intake.stopped || poll.stops }
    source := poll.source
    packets := r.packets + UInt64.ofNat poll.count }

/-- Polls to the end of the run, at most `polls` times. -/
def finish? [Sink σ] [Source τ] : Nat → Run σ τ → Option (Run σ τ)
  | 0, r => if r.isOver then some r else none
  | polls + 1, r => if r.isOver then some r else finish? polls r.turn

def events (r : Run σ τ) : List Event :=
  [.pollingStarted r.intake.config.udpPort r.intake.config.channel, .pollingStopped r.packets]

end Run

/-- Runs the intake on a source with at most `polls` polls. -/
def run? [Sink σ] [Source τ] (polls : Nat) (s : Intake σ) (source : τ) : Option (Run σ τ) :=
  Run.finish? polls { intake := s, source }

end QuoteFeed.Intake
