import QuoteFeed.Proofs.Intake.Offers

/-! # Queues with a consumer

An intake publishes to a bounded queue from which a consumer takes quotes at any moment. What the
consumer has taken and what the queue still holds are together the published quotes, in the order of
their packets and as they were when they were published. -/

namespace QuoteFeed

/-! ## Queues -/

/-- A bounded queue of quotes. It refuses a quote when it is full and only then, and what it took
comes out in order. -/
class Queue (κ : Type) extends Sink κ where
  capacity : κ → Nat
  /-- The quotes that the queue holds, oldest first. -/
  content : κ → List Quote
  pop : κ → Option Quote × κ
  taken_iff : ∀ q quote, (offer q quote).taken = true ↔ (content q).length < capacity q
  content_offer : ∀ q quote, content (offer q quote).sink =
    if (offer q quote).taken then content q ++ [quote] else content q
  capacity_offer : ∀ q quote, capacity (offer q quote).sink = capacity q
  content_pop : ∀ q, (pop q).1.toList ++ content (pop q).2 = content q
  capacity_pop : ∀ q, capacity (pop q).2 = capacity q

namespace BoundedQueue

theorem offer_of_lt {q : BoundedQueue} (h : q.content.toList.length < q.capacity) (quote : Quote) :
    q.offer quote = ⟨true, false, { q with content := q.content.push quote }⟩ := by
  rw [← q.content.size_eq_length] at h
  exact if_pos h

theorem offer_of_le {q : BoundedQueue} (h : q.capacity ≤ q.content.toList.length) (quote : Quote) :
    q.offer quote = ⟨false, false, q⟩ := by
  rw [← q.content.size_eq_length] at h
  exact if_neg (Nat.not_lt_of_le h)

theorem pop_cases (q : BoundedQueue) :
    (∃ quote rest, q.pop = (some quote, { q with content := rest }) ∧
      q.content.toList = quote :: rest.toList) ∨
    (q.pop = (none, q) ∧ q.content.toList = []) := by
  rw [pop]
  cases hpop : q.content.pop? with
  | none => exact .inr ⟨rfl, q.content.pop?_eq_none_iff.mp hpop⟩
  | some popped => exact .inl ⟨popped.1, popped.2, rfl, Fifo.toList_of_pop?_eq_some hpop⟩

instance : Queue BoundedQueue where
  capacity := BoundedQueue.capacity
  content q := q.content.toList
  pop := BoundedQueue.pop
  taken_iff := by
    intro q quote
    by_cases h : q.content.toList.length < q.capacity
    · simp [Sink.offer, offer_of_lt h, h]
    · simp [Sink.offer, offer_of_le (Nat.le_of_not_lt h), h]
  content_offer := by
    intro q quote
    by_cases h : q.content.toList.length < q.capacity
    · simp [Sink.offer, offer_of_lt h]
    · simp [Sink.offer, offer_of_le (Nat.le_of_not_lt h)]
  capacity_offer := by
    intro q quote
    by_cases h : q.content.toList.length < q.capacity
    · simp [Sink.offer, offer_of_lt h]
    · simp [Sink.offer, offer_of_le (Nat.le_of_not_lt h)]
  content_pop := by
    intro q
    rcases q.pop_cases with ⟨quote, rest, hpop, hcontent⟩ | ⟨hpop, hcontent⟩
    · simp [hpop, hcontent]
    · simp [hpop, hcontent]
  capacity_pop := by
    intro q
    rcases q.pop_cases with ⟨quote, rest, hpop, _⟩ | ⟨hpop, _⟩ <;> rw [hpop]

end BoundedQueue

namespace Intake

/-! ## Lines -/

/-- What became of one packet. -/
structure Entry where
  arrival : Arrival
  outcome : Outcome
  /-- How many quotes the queue held when the packet arrived. -/
  queued : Nat
  /-- What the next slot of the pool held once the packet was taken. -/
  shown : Option Quote

inductive Action
  | process (payload : Payload) (time : UInt64)
  | warmUp
  | reset
  | pop
deriving DecidableEq

def Action.arrival? : Action → Option Arrival
  | .process payload time => some ⟨payload, time⟩
  | .warmUp | .reset | .pop => none

/-- An intake that fills a queue, and the consumer at the other end. -/
structure Line (κ : Type) where
  intake : Intake κ
  /-- What the consumer has taken, oldest first. -/
  popped : List Quote := []
  /-- What became of the packets so far, oldest first. -/
  entries : List Entry := []

namespace Line

variable {κ : Type} [Queue κ]

def process (l : Line κ) (payload : Payload) (time : UInt64) : Line κ where
  intake := (l.intake.process payload time).2
  popped := l.popped
  entries := l.entries ++ [{
    arrival := ⟨payload, time⟩
    outcome := (l.intake.process payload time).1
    queued := (Queue.content l.intake.sink).length
    shown := (l.intake.process payload time).2.pool.get? l.intake.pool.head }]

def pop (l : Line κ) : Line κ where
  intake := { l.intake with sink := (Queue.pop l.intake.sink).2 }
  popped := l.popped ++ (Queue.pop l.intake.sink).1.toList
  entries := l.entries

def step (l : Line κ) : Action → Line κ
  | .process payload time => l.process payload time
  | .warmUp => { l with intake := l.intake.warmUp.2 }
  | .reset => { l with intake := l.intake.resetTally }
  | .pop => l.pop

def perform (l : Line κ) (actions : List Action) : Line κ :=
  actions.foldl step l

/-- Every quote that the queue took, oldest first. -/
def delivered (l : Line κ) : List Quote :=
  l.popped ++ Queue.content l.intake.sink

/-! ## What a packet does to a line -/

/-- The line with another intake and one more entry. -/
def enter (l : Line κ) (intake : Intake κ) (arrival : Arrival) (outcome : Outcome)
    (shown : Option Quote) : Line κ where
  intake := intake
  popped := l.popped
  entries := l.entries ++ [⟨arrival, outcome, (Queue.content l.intake.sink).length, shown⟩]

/-- The three things that a packet can do. -/
inductive Passes (l : Line κ) (arrival : Arrival) : Line κ → Prop
  | rejected (shown : Option Quote) (h : arrival.payload.length < 28) :
      Passes l arrival (l.enter l.intake.reject arrival .rejected shown)
  | dropped (quote : Quote) (h : 28 ≤ arrival.payload.length)
      (conveys : ∀ number, l.intake.sequence.toNat = number % 2 ^ 32 →
        quote.Conveys arrival.payload arrival.time number)
      (full : Queue.capacity l.intake.sink ≤ (Queue.content l.intake.sink).length)
      (content : Queue.content (l.intake.settle quote).sink = Queue.content l.intake.sink)
      (tally : (l.intake.settle quote).tally = l.intake.tallyAfter .dropped) :
      Passes l arrival (l.enter (l.intake.settle quote) arrival .dropped (some quote))
  | published (quote : Quote) (h : 28 ≤ arrival.payload.length)
      (conveys : ∀ number, l.intake.sequence.toNat = number % 2 ^ 32 →
        quote.Conveys arrival.payload arrival.time number)
      (room : (Queue.content l.intake.sink).length < Queue.capacity l.intake.sink)
      (content : Queue.content (l.intake.settle quote).sink =
        Queue.content l.intake.sink ++ [quote])
      (tally : (l.intake.settle quote).tally = l.intake.tallyAfter .published) :
      Passes l arrival (l.enter (l.intake.settle quote) arrival .published (some quote))

theorem process_passes (l : Line κ) (payload : Payload) (time : UInt64) :
    Passes l ⟨payload, time⟩ (l.process payload time) := by
  rcases l.intake.process_cases payload time with ⟨hlt, hprocess⟩ | ⟨hle, quote, hconveys, hprocess⟩
  · rw [process, hprocess]
    exact .rejected (l.intake.reject.pool.get? l.intake.pool.head) hlt
  · have hshown : (l.intake.settle quote).pool.get? l.intake.pool.head = some quote :=
      SlotRing.get?_push_head ..
    have htaken := Queue.taken_iff l.intake.sink quote
    have hcontent := Queue.content_offer l.intake.sink quote
    have htally : (l.intake.settle quote).tally =
        l.intake.tallyAfter (.ofTaken (Sink.offer l.intake.sink quote).taken) := rfl
    rw [process, hprocess, hshown]
    cases hanswer : (Sink.offer l.intake.sink quote).taken with
    | true =>
        rw [hanswer] at htaken hcontent htally
        exact .published quote hle hconveys (htaken.mp rfl) hcontent htally
    | false =>
        rw [hanswer] at htaken hcontent htally
        have hfull : ¬ (Queue.content l.intake.sink).length < Queue.capacity l.intake.sink := by
          intro hroom
          cases htaken.mpr hroom
        exact .dropped quote hle hconveys (Nat.le_of_not_lt hfull) hcontent htally

theorem delivered_pop (l : Line κ) : l.pop.delivered = l.delivered := by
  have hcontent := Queue.content_pop l.intake.sink
  rw [delivered, delivered, ← hcontent, ← List.append_assoc]
  rfl

/-! ## What every action keeps -/

/-- What the entry of the packet with the given number tells, for a queue of `capacity` quotes. -/
structure Tells (capacity number : Nat) (e : Entry) : Prop where
  rejected : e.outcome = .rejected ↔ e.arrival.payload.length < 28
  dropped : 28 ≤ e.arrival.payload.length → (e.outcome = .dropped ↔ e.queued = capacity)
  shown : 28 ≤ e.arrival.payload.length → ∃ quote, e.shown = some quote ∧
    quote.Conveys e.arrival.payload e.arrival.time number

structure Kept (capacity : Nat) (l : Line κ) : Prop where
  capacity_eq : Queue.capacity l.intake.sink = capacity
  bounded : (Queue.content l.intake.sink).length ≤ capacity
  sequence : l.intake.sequence.toNat = l.entries.length % 2 ^ 32
  tells : ∀ entry ∈ l.entries.zipIdx, Tells capacity entry.2 entry.1
  order : l.delivered.map some =
    (l.entries.filter fun e => e.outcome = .published).map Entry.shown
  /-- The sequence numbers grow, and those still to come are greater. -/
  increasing : l.entries.length ≤ 2 ^ 32 →
    l.delivered.Pairwise (fun p q => p.sequence.toNat < q.sequence.toNat) ∧
      ∀ quote ∈ l.delivered, quote.sequence.toNat < l.entries.length

variable {capacity : Nat} {l m : Line κ}

omit [Queue κ] in
theorem tells_append {entries : List Entry} {e : Entry}
    (h : ∀ entry ∈ entries.zipIdx, Tells capacity entry.2 entry.1)
    (hlast : Tells capacity entries.length e) :
    ∀ entry ∈ (entries ++ [e]).zipIdx, Tells capacity entry.2 entry.1 := by
  intro entry hentry
  rw [List.zipIdx_append] at hentry
  rcases List.mem_append.mp hentry with hearlier | hnew
  · exact h entry hearlier
  · simp only [List.zipIdx_singleton, List.mem_singleton, Nat.zero_add] at hnew
    rw [hnew]
    exact hlast

theorem length_enter (l : Line κ) (intake : Intake κ) (arrival : Arrival) (outcome : Outcome)
    (shown : Option Quote) :
    (l.enter intake arrival outcome shown).entries.length = l.entries.length + 1 := by
  simp [enter]

theorem Kept.sequence_enter (h : Kept capacity l) {intake : Intake κ}
    (hsequence : intake.sequence = l.intake.sequence + 1) (arrival : Arrival) (outcome : Outcome)
    (shown : Option Quote) :
    (l.enter intake arrival outcome shown).intake.sequence.toNat =
      (l.enter intake arrival outcome shown).entries.length % 2 ^ 32 := by
  rw [length_enter, enter, hsequence]
  exact toNat_sequence_add_one h.sequence

/-- A packet that is not published leaves the queue as it is. -/
theorem Kept.unpublished (h : Kept capacity l) {intake : Intake κ} {arrival : Arrival}
    {outcome : Outcome} {shown : Option Quote}
    (hcapacity : Queue.capacity intake.sink = Queue.capacity l.intake.sink)
    (hcontent : Queue.content intake.sink = Queue.content l.intake.sink)
    (hsequence : intake.sequence = l.intake.sequence + 1) (houtcome : outcome ≠ .published)
    (htells : Tells capacity l.entries.length
      ⟨arrival, outcome, (Queue.content l.intake.sink).length, shown⟩) :
    Kept capacity (l.enter intake arrival outcome shown) := by
  have hdelivered : (l.enter intake arrival outcome shown).delivered = l.delivered :=
    congrArg (l.popped ++ ·) hcontent
  refine ⟨hcapacity.trans h.capacity_eq, ?_, h.sequence_enter hsequence ..,
    tells_append h.tells htells, ?_, ?_⟩
  · rw [enter, hcontent]
    exact h.bounded
  · rw [hdelivered, h.order]
    simp [enter, houtcome]
  · intro hle
    rw [length_enter] at hle ⊢
    obtain ⟨hpairwise, hbelow⟩ := h.increasing (by omega)
    rw [hdelivered]
    exact ⟨hpairwise, fun quote hquote => Nat.lt_succ_of_lt (hbelow quote hquote)⟩

theorem Kept.published (h : Kept capacity l) {intake : Intake κ} {arrival : Arrival} {quote : Quote}
    (hcapacity : Queue.capacity intake.sink = Queue.capacity l.intake.sink)
    (hroom : (Queue.content l.intake.sink).length < capacity)
    (hcontent : Queue.content intake.sink = Queue.content l.intake.sink ++ [quote])
    (hsequence : intake.sequence = l.intake.sequence + 1)
    (hconveys : quote.Conveys arrival.payload arrival.time l.entries.length)
    (htells : Tells capacity l.entries.length
      ⟨arrival, .published, (Queue.content l.intake.sink).length, some quote⟩) :
    Kept capacity (l.enter intake arrival .published (some quote)) := by
  have hdelivered : (l.enter intake arrival .published (some quote)).delivered =
      l.delivered ++ [quote] := by
    rw [delivered, enter, hcontent, ← List.append_assoc]
    rfl
  refine ⟨hcapacity.trans h.capacity_eq, ?_, h.sequence_enter hsequence ..,
    tells_append h.tells htells, ?_, ?_⟩
  · rw [enter, hcontent, List.length_append]
    exact hroom
  · rw [hdelivered, List.map_append, h.order]
    simp [enter]
  · intro hle
    rw [length_enter] at hle ⊢
    obtain ⟨hpairwise, hbelow⟩ := h.increasing (by omega)
    have hnumber : quote.sequence.toNat = l.entries.length := by
      rw [hconveys.sequence]
      omega
    rw [hdelivered]
    constructor
    · apply List.pairwise_append.mpr
      refine ⟨hpairwise, List.pairwise_singleton .., ?_⟩
      intro earlier hearlier last hlast
      rw [List.mem_singleton.mp hlast, hnumber]
      exact hbelow earlier hearlier
    · intro other hother
      rcases List.mem_append.mp hother with hearlier | hlast
      · exact Nat.lt_succ_of_lt (hbelow other hearlier)
      · rw [List.mem_singleton.mp hlast, hnumber]
        exact Nat.lt_succ_self _

theorem Kept.passes (h : Kept capacity l) {arrival : Arrival} (hpasses : Passes l arrival m) :
    Kept capacity m := by
  have hbounded := h.bounded
  cases hpasses with
  | rejected shown hlt =>
      refine h.unpublished rfl rfl rfl (by decide) ?_
      refine ⟨by simpa using hlt, ?_, ?_⟩
      · intro hle
        exact absurd hle (Nat.not_le_of_lt hlt)
      · intro hle
        exact absurd hle (Nat.not_le_of_lt hlt)
  | dropped quote hle hconveys hfull hcontent _ =>
      rw [h.capacity_eq] at hfull
      refine h.unpublished (Queue.capacity_offer ..) hcontent rfl (by decide) ?_
      refine ⟨by simpa using hle, ?_, fun _ => ⟨quote, rfl, hconveys _ h.sequence⟩⟩
      simpa using fun _ => Nat.le_antisymm hbounded hfull
  | published quote hle hconveys hroom hcontent _ =>
      rw [h.capacity_eq] at hroom
      refine h.published (Queue.capacity_offer ..) hroom hcontent rfl (hconveys _ h.sequence) ?_
      refine ⟨by simpa using hle, ?_, fun _ => ⟨quote, rfl, hconveys _ h.sequence⟩⟩
      simpa using fun _ => Nat.ne_of_lt hroom

theorem Kept.pop (h : Kept capacity l) : Kept capacity l.pop := by
  have hcontent := congrArg List.length (Queue.content_pop l.intake.sink)
  have hbounded := h.bounded
  rw [List.length_append] at hcontent
  refine ⟨(Queue.capacity_pop _).trans h.capacity_eq, ?_, h.sequence, h.tells, ?_, ?_⟩
  · rw [Line.pop]
    simp only
    omega
  · rw [delivered_pop]
    exact h.order
  · rw [delivered_pop]
    exact h.increasing

theorem Kept.step (h : Kept capacity l) (action : Action) : Kept capacity (l.step action) := by
  cases action with
  | process payload time => exact h.passes (l.process_passes payload time)
  | warmUp =>
      obtain ⟨pool, ticker, hframe⟩ := l.intake.warmUp_frame
      rw [Line.step, hframe]
      exact ⟨h.capacity_eq, h.bounded, h.sequence, h.tells, h.order, h.increasing⟩
  | reset => exact ⟨h.capacity_eq, h.bounded, h.sequence, h.tells, h.order, h.increasing⟩
  | pop => exact h.pop

theorem Kept.perform (h : Kept capacity l) (actions : List Action) :
    Kept capacity (l.perform actions) := by
  induction actions generalizing l with
  | nil => exact h
  | cons action actions ih => exact ih (h.step action)

theorem kept_start {s : Intake κ} (hsequence : s.sequence = 0)
    (hempty : Queue.content s.sink = []) : Kept (Queue.capacity s.sink) { intake := s } := by
  have hdelivered : ({ intake := s } : Line κ).delivered = [] := by
    rw [delivered, hempty]
    rfl
  refine ⟨rfl, ?_, ?_, ?_, ?_, ?_⟩
  · rw [hempty]
    exact Nat.zero_le _
  · rw [hsequence]
    rfl
  · intro entry hentry
    cases hentry
  · rw [hdelivered]
    rfl
  · rw [hdelivered]
    exact fun _ => ⟨.nil, by simp⟩

/-- What was delivered is the quote that the entry of some published packet shows. -/
theorem Kept.exists_conveys (h : Kept capacity l) {quote : Quote} (hquote : quote ∈ l.delivered) :
    ∃ payload time number, quote.Conveys payload time number := by
  have hshown : some quote ∈ l.delivered.map some := List.mem_map_of_mem hquote
  rw [h.order] at hshown
  obtain ⟨e, he, heq⟩ := List.mem_map.mp hshown
  obtain ⟨hmem, houtcome⟩ := List.mem_filter.mp he
  obtain ⟨number, hlt, hnumber⟩ := List.mem_iff_getElem.mp hmem
  have htells : Tells capacity number e := by
    apply h.tells (e, number)
    rw [List.mk_mem_zipIdx_iff_getElem?, ← hnumber]
    exact List.getElem?_eq_getElem hlt
  have hle : 28 ≤ e.arrival.payload.length := by
    apply Nat.le_of_not_lt
    intro hshort
    simp [htells.rejected.mpr hshort] at houtcome
  obtain ⟨other, hother, hconveys⟩ := htells.shown hle
  rw [heq] at hother
  cases hother
  exact ⟨_, _, _, hconveys⟩

/-! ## Counting what was delivered -/

/-- The intake counts, and has counted the quotes that the queue took. -/
structure Counted (l : Line κ) : Prop where
  counting : l.intake.config.counting = true
  processed : l.intake.tally.processed.toNat = l.delivered.length % 2 ^ 64

theorem Counted.passes (h : Counted l) {arrival : Arrival} (hpasses : Passes l arrival m) :
    Counted m := by
  cases hpasses with
  | rejected shown _ =>
      refine ⟨h.counting, ?_⟩
      rw [enter, reject, tallyAfter, if_pos h.counting]
      exact h.processed
  | dropped quote _ _ _ hcontent htally =>
      refine ⟨h.counting, ?_⟩
      rw [delivered, enter, hcontent, htally, tallyAfter, if_pos h.counting]
      exact h.processed
  | published quote _ _ _ hcontent htally =>
      refine ⟨h.counting, ?_⟩
      rw [delivered, enter, hcontent, htally, tallyAfter, if_pos h.counting, ← List.append_assoc,
        List.length_append]
      exact toNat_add_one_eq_mod h.processed

theorem Counted.step (h : Counted l) {action : Action} (hreset : action ≠ .reset) :
    Counted (l.step action) := by
  cases action with
  | process payload time => exact h.passes (l.process_passes payload time)
  | warmUp =>
      obtain ⟨pool, ticker, hframe⟩ := l.intake.warmUp_frame
      rw [Line.step, hframe]
      exact ⟨h.counting, h.processed⟩
  | reset => exact absurd rfl hreset
  | pop =>
      refine ⟨h.counting, ?_⟩
      rw [Line.step, delivered_pop]
      exact h.processed

theorem Counted.perform (h : Counted l) {actions : List Action} (hreset : .reset ∉ actions) :
    Counted (l.perform actions) := by
  induction actions generalizing l with
  | nil => exact h
  | cons action actions ih =>
      have hfirst : action ≠ .reset := by
        rintro rfl
        exact hreset List.mem_cons_self
      exact ih (h.step hfirst) fun hrest => hreset (List.mem_cons_of_mem _ hrest)

theorem perform_arrivals (l : Line κ) (actions : List Action) :
    (l.perform actions).entries.map Entry.arrival =
      l.entries.map Entry.arrival ++ actions.filterMap Action.arrival? := by
  induction actions generalizing l with
  | nil => simp [perform]
  | cons action actions ih =>
      have hrest : l.perform (action :: actions) = (l.step action).perform actions := rfl
      rw [hrest, ih]
      cases action with
      | process payload time => simp [step, process, Action.arrival?]
      | warmUp => rfl
      | reset => rfl
      | pop => rfl

end Line

/-! ## What a consumer gets -/

/-- What a line comes to whose queue has `capacity` places and was empty. -/
structure ConsumingSpec {κ : Type} [Queue κ] (capacity : Nat) (counting : Bool)
    (actions : List Action) (l : Line κ) : Prop where
  /-- There is one entry for each packet, in order. -/
  arrivals : l.entries.map Entry.arrival = actions.filterMap Action.arrival?
  /-- What was taken from the queue and what it holds are the published quotes, each once and in
  order, as the pool held them at the time. -/
  order : (l.popped ++ Queue.content l.intake.sink).map some =
    (l.entries.filter fun e => e.outcome = .published).map Entry.shown
  bounded : (Queue.content l.intake.sink).length ≤ capacity
  /-- A packet is rejected if it is too short, and dropped if it finds the queue full; else its slot
  shows what its payload conveys. -/
  tells : ∀ entry ∈ l.entries.zipIdx, Line.Tells capacity entry.2 entry.1
  live : ∀ quote ∈ l.popped, quote.isSynthetic = false
  processed : counting = true → .reset ∉ actions → l.intake.tally.processed.toNat =
    (l.popped.length + (Queue.content l.intake.sink).length) % 2 ^ 64
  increasing : l.entries.length ≤ 2 ^ 32 →
    l.popped.Pairwise fun p q => p.sequence.toNat < q.sequence.toNat

theorem perform_consumingSpec {κ : Type} [Queue κ] {memory : Nat} {config : Config}
    {origin : ClockOrigin} {ticker : Ticker} {sink : κ} {s : Intake κ}
    (h : build memory config origin ticker sink = .ok s) (hempty : Queue.content sink = [])
    (actions : List Action) :
    ConsumingSpec (Queue.capacity sink) config.counting actions
      (Line.perform { intake := s } actions) := by
  obtain ⟨_, pool, clock, left, _, rfl⟩ := build_eq_ok h
  let start : Line κ := { intake := { config, pool, clock, ticker := left, sink } }
  have hstart : Line.Kept (Queue.capacity sink) start :=
    Line.kept_start (s := start.intake) rfl hempty
  have hend := hstart.perform actions
  refine ⟨start.perform_arrivals actions, hend.order, hend.bounded, hend.tells, ?_, ?_, ?_⟩
  · intro quote hquote
    obtain ⟨_, _, _, hconveys⟩ := hend.exists_conveys (List.mem_append_left _ hquote)
    exact hconveys.isSynthetic_eq_false
  · intro hcounting hreset
    have hcounted : Line.Counted start := by
      refine ⟨hcounting, ?_⟩
      rw [Line.delivered, hempty]
      rfl
    rw [← List.length_append]
    exact (hcounted.perform hreset).processed
  · intro hlength
    exact (List.pairwise_append.mp (hend.increasing hlength).1).1

/-- A queue of two places between an intake and a consumer who comes twice. -/
theorem perform_consumingSpec_small :
    let sink : BoundedQueue := { capacity := 2 }
    let actions : List Action := [.warmUp, .process [] 1, .process (.replicate 28 7) 2, .pop,
      .process (.replicate 44 7) 3, .warmUp, .process (.replicate 28 8) 4,
      .process (.replicate 28 9) 5, .pop, .process (.replicate 28 9) 6]
    let l := Line.perform { intake := small sink } actions
    build 4096 .small (.known (small sink).clock) (small sink).ticker sink = .ok (small sink) ∧
      Queue.content sink = [] ∧
      l.entries.map Entry.outcome =
        [.rejected, .published, .published, .published, .dropped, .published] ∧
      l.popped.map Quote.sequence = [1, 2] ∧
      ConsumingSpec 2 true actions l := by
  intro sink actions l
  exact ⟨build_small sink, rfl, by decide +kernel, by decide +kernel,
    perform_consumingSpec (build_small sink) rfl actions⟩

end Intake

end QuoteFeed
