import QuoteFeed.Intake.Run
import QuoteFeed.Proofs.Wire.Decoding

/-! # What one packet, one warm-up and one poll do

Everything that a packet changes is said in two equations, one for payloads that are too short and
one for all others. A warm-up changes the pool and reads the counter, and does nothing else. A poll
of a run takes what it is handed over as if it were one burst. -/

namespace QuoteFeed.Intake

variable {σ : Type}

/-! ## Packets -/

def Outcome.ofTaken (taken : Bool) : Outcome :=
  if taken then .published else .dropped

@[simp] theorem Outcome.ofTaken_ne_rejected (taken : Bool) : Outcome.ofTaken taken ≠ .rejected := by
  cases taken <;> decide

/-- The intake after a packet that could not be decoded. -/
def reject (s : Intake σ) : Intake σ :=
  { s with tally := s.tallyAfter .rejected, sequence := s.sequence + 1 }

/-- The intake after the sink was offered a quote. -/
def settle [Sink σ] (s : Intake σ) (quote : Quote) : Intake σ :=
  let response := Sink.offer s.sink quote
  { s with
    pool := (s.pool.push quote).2
    sink := response.sink
    tally := s.tallyAfter (.ofTaken response.taken)
    stopped := s.stopped || response.stops
    sequence := s.sequence + 1 }

section Packets

variable [Sink σ]

theorem process_of_lt (s : Intake σ) {payload : Payload} (h : payload.length < 28)
    (time : UInt64) : s.process payload time = (.rejected, s.reject) := by
  rw [process, s.pool.decode_of_lt h]
  rfl

theorem process_of_view (s : Intake σ) {payload : Payload} {view : Wire.View}
    (h : Wire.View.of? payload = some view) (time : UInt64) :
    s.process payload time =
      (.ofTaken (Sink.offer s.sink (view.quote time s.sequence)).taken,
        s.settle (view.quote time s.sequence)) := by
  rw [process, s.pool.decode_of_view h]
  rfl

/-- A packet is either too short or offered to the sink as the quote that its payload conveys. -/
theorem process_cases (s : Intake σ) (payload : Payload) (time : UInt64) :
    (payload.length < 28 ∧ s.process payload time = (.rejected, s.reject)) ∨
      (28 ≤ payload.length ∧ ∃ quote : Quote,
        (∀ number, s.sequence.toNat = number % 2 ^ 32 → quote.Conveys payload time number) ∧
        s.process payload time =
          (.ofTaken (Sink.offer s.sink quote).taken, s.settle quote)) := by
  by_cases h : payload.length < 28
  · exact .inl ⟨h, s.process_of_lt h time⟩
  · obtain ⟨view, hview, rfl⟩ := Wire.View.exists_of?_eq_some (Nat.le_of_not_lt h)
    refine .inr ⟨Nat.le_of_not_lt h, view.quote time s.sequence, ?_, s.process_of_view hview time⟩
    intro number hnumber
    exact view.quote_conveys time hnumber

theorem process_tally (s : Intake σ) (payload : Payload) (time : UInt64) :
    (s.process payload time).2.tally = s.tallyAfter (s.process payload time).1 := by
  rcases s.process_cases payload time with ⟨_, h⟩ | ⟨_, quote, _, h⟩ <;> rw [h] <;> rfl

theorem process_frame (s : Intake σ) (payload : Payload) (time : UInt64) :
    ∃ pool sink tally stopped sequence,
      (s.process payload time).2 = { s with pool, sink, tally, stopped, sequence } := by
  rcases s.process_cases payload time with ⟨_, h⟩ | ⟨_, quote, _, h⟩
  · rw [h]
    exact ⟨_, _, _, _, _, rfl⟩
  · rw [h]
    exact ⟨_, _, _, _, _, rfl⟩

/-- A change of intakes that the two endings of a packet do not notice, no packet notices. -/
theorem process_map {τ : Type} [Sink τ] (change : Intake σ → Intake τ)
    (hsequence : ∀ s, (change s).sequence = s.sequence)
    (htaken : ∀ s quote,
      (Sink.offer (change s).sink quote).taken = (Sink.offer s.sink quote).taken)
    (hreject : ∀ s, (change s).reject = change s.reject)
    (hsettle : ∀ s quote, (change s).settle quote = change (s.settle quote))
    (s : Intake σ) (payload : Payload) (time : UInt64) :
    (change s).process payload time =
      ((s.process payload time).1, change (s.process payload time).2) := by
  by_cases h : payload.length < 28
  · rw [process_of_lt _ h, process_of_lt _ h, hreject]
  · obtain ⟨view, hview, rfl⟩ := Wire.View.exists_of?_eq_some (Nat.le_of_not_lt h)
    rw [process_of_view _ hview, process_of_view _ hview, hsequence, htaken, hsettle]

/-! A request to stop is remembered and changes nothing else. -/

def stopIf (s : Intake σ) (asked : Bool) : Intake σ :=
  { s with stopped := s.stopped || asked }

omit [Sink σ] in
@[simp] theorem stopIf_false (s : Intake σ) : s.stopIf false = s := by
  simp [stopIf]

omit [Sink σ] in
@[simp] theorem stopIf_stopIf (s : Intake σ) (first second : Bool) :
    (s.stopIf first).stopIf second = s.stopIf (first || second) := by
  simp [stopIf, Bool.or_assoc]

theorem process_stopIf (s : Intake σ) (asked : Bool) (payload : Payload) (time : UInt64) :
    (s.stopIf asked).process payload time =
      ((s.process payload time).1, (s.process payload time).2.stopIf asked) := by
  apply process_map (stopIf · asked)
  · intro s
    rfl
  · intro s quote
    rfl
  · intro s
    rfl
  · intro s quote
    simp only [stopIf, settle, Bool.or_right_comm _ asked]
    rfl

theorem receive_stopIf (s : Intake σ) (asked : Bool) (payload : Payload) :
    (s.stopIf asked).receive payload =
      ((s.receive payload).1, (s.receive payload).2.stopIf asked) :=
  s.readTime.2.process_stopIf asked payload s.readTime.1

theorem receiveAll_stopIf (s : Intake σ) (asked : Bool) (burst : List Payload) :
    (s.stopIf asked).receiveAll burst = (s.receiveAll burst).stopIf asked := by
  induction burst generalizing s with
  | nil => rfl
  | cons payload burst ih =>
      rw [receiveAll, List.foldl_cons, receive_stopIf]
      exact ih (s.receive payload).2

/-! ## Bursts and polls -/

/-- What becomes of the packets of a burst, in order. -/
def outcomes : Intake σ → List Payload → List Outcome
  | _, [] => []
  | s, payload :: burst => (s.receive payload).1 :: outcomes (s.receive payload).2 burst

theorem outcomes_append (s : Intake σ) (first second : List Payload) :
    s.outcomes (first ++ second) = s.outcomes first ++ (s.receiveAll first).outcomes second := by
  induction first generalizing s with
  | nil => rfl
  | cons payload first ih => exact congrArg ((s.receive payload).1 :: ·) (ih _)

theorem outcomes_stopIf (s : Intake σ) (asked : Bool) (burst : List Payload) :
    (s.stopIf asked).outcomes burst = s.outcomes burst := by
  induction burst generalizing s with
  | nil => rfl
  | cons payload burst ih => rw [outcomes, outcomes, receive_stopIf, ih]

theorem receiveAll_append (s : Intake σ) (first second : List Payload) :
    s.receiveAll (first ++ second) = (s.receiveAll first).receiveAll second :=
  List.foldl_append

theorem foldl_receiveAll (s : Intake σ) (bursts : List (List Payload)) :
    bursts.foldl receiveAll s = s.receiveAll bursts.flatten :=
  List.foldl_flatten.symm

theorem Run.turn_eq {τ : Type} [Source τ] (r : Run σ τ) :
    r.turn =
      { intake := (r.intake.receiveAll (Source.poll r.source).bursts.flatten).stopIf
          (Source.poll r.source).stops
        source := (Source.poll r.source).source
        packets := r.packets + UInt64.ofNat (Source.poll r.source).count } := by
  rw [turn, foldl_receiveAll]
  rfl

end Packets

/-! ## Warm-ups -/

/-- The packet of a warm-up, which is long enough to be decoded. -/
def warmUpView : Wire.View :=
  ⟨warmUpPacket.encode, by rw [Wire.Packet.length_encode]; decide⟩

theorem warmUpOnce_eq (n : Nat) (s : Intake σ) :
    warmUpOnce (n, s) =
      (n + 1, { s with
        pool := (s.pool.push (warmUpView.quote s.readTime.1 0)).2.modify s.pool.head
          fun quote => quote.setFlag Flag.synthetic
        ticker := s.ticker.read.2 }) := by
  have hview : Wire.View.of? warmUpPacket.encode = some warmUpView :=
    Wire.View.of?_eq_some_iff.mpr rfl
  rw [warmUpOnce, Pool.decode_of_view _ hview]
  rfl

theorem repeat_warmUpOnce (n : Nat) (s : Intake σ) :
    Nat.repeat warmUpOnce n (0, s) = (n, (Nat.repeat warmUpOnce n (0, s)).2) := by
  induction n with
  | zero => rfl
  | succ n ih => rw [Nat.repeat, ih, warmUpOnce_eq]

/-- A warm-up changes nothing but the pool and the counter's readings. -/
theorem warmUp_frame (s : Intake σ) : ∃ pool ticker, s.warmUp.2 = { s with pool, ticker } := by
  rw [warmUp]
  induction s.config.warmUpPackets with
  | zero => exact ⟨_, _, rfl⟩
  | succ n ih =>
      obtain ⟨pool, ticker, h⟩ := ih
      rw [Nat.repeat, warmUpOnce_eq, h]
      exact ⟨_, _, rfl⟩

end QuoteFeed.Intake
