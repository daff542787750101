import QuoteFeed.Wire.Layout

/-! # Sources

A source is any state machine that is polled for payloads. A poll hands over bursts and tells how
many payloads it handed over. A replay delivers a list of payloads in bursts of limited size, once
or for ever; a schedule delivers the bursts it is given.
-/

namespace QuoteFeed

/-- The largest burst of a replay. -/
def maxBurst : Nat := 32

structure Poll (τ : Type) where
  bursts : List (List Payload)
  /-- The number of payloads that the source says it handed over. -/
  count : Nat
  /-- Whether the source asks for the feed to stop. -/
  stops : Bool
  /-- The source afterwards. -/
  source : τ

/-- State machines that are polled for payloads. -/
class Source (τ : Type) where
  poll : τ → Poll τ
  /-- Whether the source is finite and has delivered everything. -/
  isExhausted : τ → Bool := fun _ => false

def Poll.burst {τ : Type} (burst : List Payload) (source : τ) : Poll τ where
  bursts := [burst]
  count := burst.length
  stops := false
  source := source

def Poll.idle {τ : Type} (source : τ) : Poll τ where
  bursts := []
  count := 0
  stops := false
  source := source

/-! ## Slots -/

/-- Puts values into the first slots, as far as there are slots and values. -/
def fill {α : Type} : List α → List α → List α
  | _ :: slots, value :: values => value :: fill slots values
  | slots, _ => slots

/-- The values that found a slot lie in front, in their order. -/
theorem take_fill {α : Type} (slots values : List α) :
    (fill slots values).take values.length = values.take slots.length := by
  induction slots generalizing values with
  | nil => simp [fill]
  | cons slot slots ih => cases values <;> simp [fill, ih]

/-! ## Replays -/

/-- A list of payloads that is delivered in bursts. -/
structure Replay where
  payloads : List Payload
  burstSize : Nat := maxBurst
  /-- How many payloads of the list were delivered. -/
  position : Nat := 0
  /-- Whether the list is delivered again and again. -/
  looping : Bool := false
  burstSize_pos : 0 < burstSize := by decide
  burstSize_le : burstSize ≤ maxBurst := by decide
deriving DecidableEq

namespace Replay

/-- The replay with another burst size, at least one and at most `maxBurst`. -/
def withBurstSize (r : Replay) (size : Nat) : Replay :=
  { r with
    burstSize := min maxBurst (max 1 size)
    burstSize_pos := Nat.lt_min.mpr ⟨by decide, Nat.le_max_left 1 size⟩
    burstSize_le := Nat.min_le_left maxBurst (max 1 size) }

def forever (r : Replay) : Replay :=
  { r with looping := true }

def size (r : Replay) : Nat :=
  r.payloads.length

def isEmpty (r : Replay) : Bool :=
  r.payloads.isEmpty

/-- Hands over the next burst. A burst never spans the end of the list, and where nothing is left
no burst is handed over. There are `maxBurst` slots, and the burst is as many of the first ones as
it has filled. -/
def poll (r : Replay) : Poll Replay :=
  let first := if r.looping && r.payloads.length ≤ r.position then 0 else r.position
  let last := min (first + r.burstSize) r.payloads.length
  let count := last - first
  if count = 0 then Poll.idle { r with position := first }
  else
    let slots := fill (List.replicate maxBurst []) (r.payloads.extract first last)
    { bursts := [slots.take count]
      count
      stops := false
      source := { r with position := last } }

/-- Whether everything was delivered and nothing will be delivered again. -/
def isExhausted (r : Replay) : Bool :=
  !r.looping && r.payloads.length ≤ r.position

end Replay

instance : Source Replay := ⟨Replay.poll, Replay.isExhausted⟩

/-! ## Schedules -/

/-- Bursts that are delivered one to a poll, of any size. -/
structure Schedule where
  bursts : List (List Payload)
deriving DecidableEq

/-- Hands over the next burst, which may be empty. -/
def Schedule.poll (s : Schedule) : Poll Schedule :=
  match s.bursts with
  | [] => Poll.idle s
  | burst :: rest => Poll.burst burst ⟨rest⟩

instance : Source Schedule where
  poll := Schedule.poll

end QuoteFeed
