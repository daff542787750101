import QuoteFeed.Fifo
import QuoteFeed.Quote.Basic

/-! # Sinks

A sink is any state machine that is offered quotes one at a time. It takes each one or leaves it,
and it may ask for the feed to stop.
-/

namespace QuoteFeed

structure Response (σ : Type) where
  taken : Bool
  /-- Whether the sink asks for the feed to stop. -/
  stops : Bool
  sink : σ

/-- State machines that are offered quotes. -/
class Sink (σ : Type) where
  offer : σ → Quote → Response σ

/-! ## Queues -/

/-- A queue of quotes that holds no more than its capacity. -/
structure BoundedQueue where
  capacity : Nat
  content : Fifo Quote := Fifo.empty

namespace BoundedQueue

/-- Takes the quote unless the queue is full. -/
def offer (q : BoundedQueue) (quote : Quote) : Response BoundedQueue :=
  if q.content.size < q.capacity then
    { taken := true, stops := false, sink := { q with content := q.content.push quote } }
  else { taken := false, stops := false, sink := q }

/-- The oldest quote, if there is one, and the queue without it. -/
def pop (q : BoundedQueue) : Option Quote × BoundedQueue :=
  match q.content.pop? with
  | some (quote, rest) => (some quote, { q with content := rest })
  | none => (none, q)

end BoundedQueue

instance : Sink BoundedQueue := ⟨BoundedQueue.offer⟩

/-! ## Recorders -/

structure Attempt where
  taken : Bool
  quote : Quote
deriving DecidableEq

/-- A sink together with every offer made to it. -/
structure Recorder (σ : Type) where
  sink : σ
  attempts : Fifo Attempt := Fifo.empty

/-- Passes the quote on and records the offer. -/
def Recorder.offer {σ : Type} [Sink σ] (r : Recorder σ) (quote : Quote) : Response (Recorder σ) :=
  let response := Sink.offer r.sink quote
  { taken := response.taken
    stops := response.stops
    sink := { sink := response.sink, attempts := r.attempts.push ⟨response.taken, quote⟩ } }

instance {σ : Type} [Sink σ] : Sink (Recorder σ) := ⟨Recorder.offer⟩

end QuoteFeed
