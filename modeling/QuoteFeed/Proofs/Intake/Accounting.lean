import QuoteFeed.Proofs.Intake.Making
import QuoteFeed.Proofs.Intake.Offers
import QuoteFeed.Proofs.Intake.Worker
import QuoteFeed.Proofs.Pool.Rotation

/-! # Who took which slot

Packets and warm-ups take slots from one ring, in any order. The cursor counts the slots that both
took, and what a slot holds was left there by the one that took it last. -/

namespace QuoteFeed

namespace Intake

variable {σ : Type}

/-! ## Tenants -/

/-- What a slot is taken for: a packet, with its number among all packets, or a step of a
warm-up. -/
inductive Tenant
  | packet (arrival : Arrival) (number : Nat)
  | warmUp

/-- The quote of a warm-up at some moment. -/
structure IsWarmUp (quote : Quote) : Prop where
  symbol : quote.symbol.toList = Utf8.encode "WARMUP  "
  bid : quote.bid = Price.ofRaw 1500000
  bidShares : quote.bidShares = 100
  ask : quote.ask = Price.ofRaw 1500000
  askShares : quote.askShares = 100
  spread : quote.spread = Price.ofRaw 1000
  sequence : quote.sequence = 0
  valid : quote.valid = 1
  flags : quote.flags = Flag.extendedTiming ||| Flag.synthetic
  padding : quote.padding.toList = List.replicate 10 0

def Tenant.Left : Tenant → Quote → Prop
  | .packet arrival number, quote => quote.Conveys arrival.payload arrival.time number
  | .warmUp, quote => IsWarmUp quote

/-- What a slot holds if it was taken last by this tenant, or by nobody. -/
def Holds : Option Tenant → Quote → Prop
  | some tenant, quote => tenant.Left quote
  | none, quote => quote = .blank

/-- Of all tenants in order, the last whose turn fell on the slot. -/
def lastTenant? (capacity slot : Nat) (tenants : List Tenant) : Option Tenant :=
  ((tenants.zipIdx.filter fun tenant => tenant.2 % capacity = slot).map Prod.fst).getLast?

theorem lastTenant?_append_singleton (capacity slot : Nat) (tenants : List Tenant)
    (tenant : Tenant) :
    lastTenant? capacity slot (tenants ++ [tenant]) =
      if tenants.length % capacity = slot then some tenant
      else lastTenant? capacity slot tenants := by
  by_cases h : tenants.length % capacity = slot
  · simp [lastTenant?, List.zipIdx_append, h]
  · simp [lastTenant?, List.zipIdx_append, h]

theorem IsWarmUp.isSynthetic {quote : Quote} (h : IsWarmUp quote) : quote.isSynthetic = true := by
  rw [Quote.isSynthetic, Quote.hasFlag, h.flags]
  rfl

/-- A quote tells whether a warm-up left it. -/
theorem Holds.isSynthetic_iff {tenant? : Option Tenant} {quote : Quote} (h : Holds tenant? quote) :
    quote.isSynthetic = true ↔ tenant? = some .warmUp := by
  match tenant?, h with
  | some (.packet arrival number), h => simp [Quote.Conveys.isSynthetic_eq_false h]
  | some .warmUp, h => simp [IsWarmUp.isSynthetic h]
  | none, h =>
      obtain rfl := h
      simp [Quote.isSynthetic, Quote.hasFlag, Quote.blank]

/-! ## Pools with tenants -/

/-- The slot was handed out to the tenant, and nothing but what it holds has changed. -/
structure Tenant.Takes (tenant : Tenant) (slot : Nat) (before after : Pool) : Prop where
  capacity : after.capacity = before.capacity
  cursor : after.cursor = before.cursor + 1
  left : ∃ quote, after.get? slot = some quote ∧ tenant.Left quote
  frame : ∀ other, other ≠ slot → after.get? other = before.get? other

theorem Tenant.Left.takes {tenant : Tenant} {quote : Quote} (h : tenant.Left quote) (pool : Pool) :
    tenant.Takes pool.head pool (pool.push quote).2 := by
  constructor
  case capacity => exact SlotRing.capacity_modify ..
  case cursor => rfl
  case left => exact ⟨quote, pool.get?_push_head quote, h⟩
  case frame =>
    intro other hne
    exact (SlotRing.get?_modify ..).trans (if_neg hne.symm)

/-- What a pool of blank quotes has become when its slots were handed out to the tenants in
order. -/
structure Leased (capacity : Nat) (tenants : List Tenant) (pool : Pool) : Prop where
  capacity_eq : pool.capacity = capacity
  cursor : pool.cursor.toNat = tenants.length % 2 ^ 64
  held : ∀ slot < capacity, ∃ quote, pool.get? slot = some quote ∧
    Holds (lastTenant? capacity slot tenants) quote

namespace Leased

variable {capacity : Nat} {tenants : List Tenant} {pool after : Pool}

theorem head_eq (h : Leased capacity tenants pool) : pool.head = tenants.length % capacity := by
  rw [SlotRing.head_eq_of_cursor h.cursor, h.capacity_eq]

theorem take (h : Leased capacity tenants pool) {tenant : Tenant}
    (htakes : tenant.Takes pool.head pool after) : Leased capacity (tenants ++ [tenant]) after := by
  constructor
  case capacity_eq => rw [htakes.capacity, h.capacity_eq]
  case cursor =>
    rw [htakes.cursor, List.length_append]
    exact SlotRing.toNat_cursor_acquire h.cursor
  case held =>
    intro slot hslot
    rw [lastTenant?_append_singleton, ← h.head_eq]
    by_cases hturn : pool.head = slot
    · rw [if_pos hturn, ← hturn]
      exact htakes.left
    · rw [if_neg hturn, htakes.frame slot (Ne.symm hturn)]
      exact h.held slot hslot

end Leased

theorem leased_of_rotated {capacity : Nat} {pool : Pool}
    (h : SlotRing.Rotated capacity .blank [] pool) : Leased capacity [] pool where
  capacity_eq := h.capacity_eq
  cursor := h.cursor
  held slot hslot := ⟨.blank, h.held slot hslot, rfl⟩

/-! ## What comes to a worker -/

inductive Visit
  | packet (arrival : Arrival)
  | warmUp

def Visit.isPacket : Visit → Bool
  | .packet _ => true
  | .warmUp => false

def Visit.isDecoded : Visit → Bool
  | .packet arrival => 28 ≤ arrival.payload.length
  | .warmUp => false

def Visit.isWarmUp : Visit → Bool
  | .packet _ => false
  | .warmUp => true

/-- The tenants that visits bring, from the packet with the given number on. -/
def tenants (warmUpPackets : Nat) : Nat → List Visit → List Tenant
  | _, [] => []
  | number, .packet arrival :: visits =>
      (if 28 ≤ arrival.payload.length then [.packet arrival number] else []) ++
        tenants warmUpPackets (number + 1) visits
  | number, .warmUp :: visits =>
      List.replicate warmUpPackets .warmUp ++ tenants warmUpPackets number visits

theorem length_tenants (warmUpPackets number : Nat) (visits : List Visit) :
    (tenants warmUpPackets number visits).length =
      warmUpPackets * visits.countP Visit.isWarmUp + visits.countP Visit.isDecoded := by
  induction visits generalizing number with
  | nil => rfl
  | cons visit visits ih =>
      cases visit with
      | packet arrival =>
          by_cases h : 28 ≤ arrival.payload.length
          · simp [tenants, ih, Visit.isWarmUp, Visit.isDecoded, h]
            omega
          · simp [tenants, ih, Visit.isWarmUp, Visit.isDecoded, h]
      | warmUp =>
          simp only [tenants, List.length_append, List.length_replicate, ih, Visit.isWarmUp,
            Visit.isDecoded, List.countP_cons, if_true, Bool.false_eq_true, if_false,
            Nat.mul_add_one]
          omega

theorem tenants_append (warmUpPackets number : Nat) (first later : List Visit) :
    tenants warmUpPackets number (first ++ later) =
      tenants warmUpPackets number first ++
        tenants warmUpPackets (number + first.countP Visit.isPacket) later := by
  induction first generalizing number with
  | nil => rfl
  | cons visit first ih =>
      cases visit with
      | packet arrival =>
          have hnumber : number + (Visit.packet arrival :: first).countP Visit.isPacket =
              number + 1 + first.countP Visit.isPacket := by
            rw [List.countP_cons_of_pos rfl]
            omega
          rw [hnumber, List.cons_append, tenants, tenants, ih, List.append_assoc]
      | warmUp =>
          have hnumber : (Visit.warmUp :: first).countP Visit.isPacket =
              first.countP Visit.isPacket := List.countP_cons_of_neg Bool.false_ne_true
          rw [hnumber, List.cons_append, tenants, tenants, ih, List.append_assoc]

/-- What a call brings at once. A burst or a run brings its packets later, one at a time. -/
def Call.visit? (s : Intake σ) : Call → Option Visit
  | .process payload time => some (.packet ⟨payload, time⟩)
  | .receive payload => some (.packet ⟨payload, s.readTime.1⟩)
  | .warmUp => some .warmUp
  | .receiveAll _ | @Call.run _ _ _ => none

def Task.visit? (s : Intake σ) : Task → Option Visit
  | .burst (payload :: _) | @Task.run _ _ _ (payload :: _) =>
      some (.packet ⟨payload, s.readTime.1⟩)
  | .idle | .burst [] | @Task.run _ _ _ [] => none

namespace Worker

def visit? (w : Worker σ) : Move → Option Visit
  | .advance => w.task.visit? w.intake
  | .reset => none
  | .call call =>
      match w.task with
      | .idle => call.visit? w.intake
      | _ => none

/-- What comes to a worker in the course of the moves. -/
def visits [Sink σ] (w : Worker σ) : List Move → List Visit
  | [] => []
  | move :: moves => (w.visit? move).toList ++ (w.step move).visits moves

end Worker

/-- What a visit, or none, makes of an intake. -/
inductive Visited [Sink σ] (s : Intake σ) : Option Visit → Intake σ → Prop
  | packet (ticker : Ticker) (payload : Payload) (time : UInt64) :
      Visited s (some (.packet ⟨payload, time⟩))
        (({ s with ticker } : Intake σ).process payload time).2
  | warmUp : Visited s (some .warmUp) s.warmUp.2
  | none {t : Intake σ} (config : t.config = s.config) (pool : t.pool = s.pool)
      (sequence : t.sequence = s.sequence) : Visited s none t

section Steps

variable [Sink σ]

theorem Visited.receive (s : Intake σ) (payload : Payload) :
    Visited s (some (.packet ⟨payload, s.readTime.1⟩)) (s.receive payload).2 :=
  .packet s.ticker.read.2 payload s.readTime.1

theorem Worker.start_visited (w : Worker σ) (call : Call) :
    Visited w.intake (call.visit? w.intake) (w.start call).intake := by
  cases call with
  | process payload time => exact .packet w.intake.ticker payload time
  | receive payload => exact .receive w.intake payload
  | receiveAll burst => exact .none rfl rfl rfl
  | run source => exact .none rfl rfl rfl
  | warmUp => exact .warmUp

theorem Worker.advance_visited (w : Worker σ) :
    Visited w.intake (w.task.visit? w.intake) w.advance.intake := by
  obtain ⟨s, task, history⟩ := w
  match task with
  | .idle => exact .none rfl rfl rfl
  | .burst [] => exact .none rfl rfl rfl
  | .burst (payload :: pending) => exact .receive s payload
  | @Task.run _ _ source (payload :: pending) => exact .receive s payload
  | @Task.run _ _ source [] =>
      let r : Run σ _ := { intake := s, source }
      by_cases h : r.isOver = true
      · rw [congrArg Worker.intake (advance_run_of_isOver h history)]
        exact .none rfl rfl rfl
      · rw [congrArg Worker.intake (advance_run_of_not_isOver h history)]
        exact .none rfl rfl rfl

theorem Worker.step_visited (w : Worker σ) (move : Move) :
    Visited w.intake (w.visit? move) (w.step move).intake := by
  cases move with
  | advance => exact w.advance_visited
  | reset => exact .none rfl rfl rfl
  | call call =>
      obtain ⟨s, task, history⟩ := w
      cases task with
      | idle => exact start_visited ⟨s, .idle, history⟩ call
      | burst pending => exact .none rfl rfl rfl
      | run source pending => exact .none rfl rfl rfl

end Steps

/-! ## What visits take -/

theorem isWarmUp_setFlag (time : UInt64) :
    IsWarmUp ((warmUpView.quote time 0).setFlag Flag.synthetic) := by
  constructor <;> rfl

theorem warmUpOnce_takes (progress : Nat) (s : Intake σ) :
    Tenant.warmUp.Takes s.pool.head s.pool (warmUpOnce (progress, s)).2.pool := by
  have hleft : Tenant.warmUp.Left ((warmUpView.quote s.readTime.1 0).setFlag Flag.synthetic) :=
    isWarmUp_setFlag s.readTime.1
  have htakes := hleft.takes s.pool
  rw [warmUpOnce_eq]
  -- The flag is set in a second write to the slot, as if the first had set it.
  exact (SlotRing.modify_modify ..) ▸ htakes

section Packets

variable [Sink σ]

theorem process_takes (s : Intake σ) {payload : Payload} (h : 28 ≤ payload.length) (time : UInt64)
    {number : Nat} (hnumber : s.sequence.toNat = number % 2 ^ 32) :
    (Tenant.packet ⟨payload, time⟩ number).Takes s.pool.head s.pool
      (s.process payload time).2.pool := by
  rcases s.process_cases payload time with ⟨hlt, _⟩ | ⟨_, quote, hconveys, hprocess⟩
  · exact absurd h (Nat.not_le_of_lt hlt)
  · have hleft : (Tenant.packet ⟨payload, time⟩ number).Left quote := hconveys number hnumber
    rw [hprocess]
    exact hleft.takes s.pool

theorem process_pool_of_lt (s : Intake σ) {payload : Payload} (h : payload.length < 28)
    (time : UInt64) : (s.process payload time).2.pool = s.pool := by
  rw [s.process_of_lt h]
  rfl

end Packets

/-! ## Accounts -/

/-- The slots were taken by the tenants, while so many packets came. -/
structure Accounted (config : Config) (earlier : List Tenant) (number : Nat) (s : Intake σ) :
    Prop where
  config_eq : s.config = config
  sequence : s.sequence.toNat = number % 2 ^ 32
  pool : Leased config.poolCapacity.toNat earlier s.pool

namespace Accounted

variable {config : Config} {earlier : List Tenant} {number : Nat} {s t : Intake σ}

theorem warmUpOnce (h : Accounted config earlier number s) (progress : Nat) :
    Accounted config (earlier ++ [.warmUp]) number (warmUpOnce (progress, s)).2 := by
  have hpool := h.pool.take (warmUpOnce_takes progress s)
  rw [warmUpOnce_eq] at hpool ⊢
  exact ⟨h.config_eq, h.sequence, hpool⟩

theorem warmUp (h : Accounted config earlier number s) :
    Accounted config (earlier ++ .replicate config.warmUpPackets .warmUp) number s.warmUp.2 := by
  rw [Intake.warmUp, h.config_eq]
  induction config.warmUpPackets with
  | zero =>
      rw [List.replicate_zero, List.append_nil]
      exact ⟨h.config_eq, h.sequence, h.pool⟩
  | succ n ih =>
      rw [List.replicate_succ', ← List.append_assoc, Nat.repeat, repeat_warmUpOnce]
      exact ih.warmUpOnce n

variable [Sink σ]

theorem process (h : Accounted config earlier number s) (payload : Payload) (time : UInt64) :
    Accounted config
      (earlier ++ if 28 ≤ payload.length then [.packet ⟨payload, time⟩ number] else [])
      (number + 1) (s.process payload time).2 := by
  constructor
  case config_eq =>
    obtain ⟨pool, sink, tally, stopped, sequence, hframe⟩ := s.process_frame payload time
    rw [hframe, h.config_eq]
  case sequence =>
    rw [process_sequence]
    exact toNat_sequence_add_one h.sequence
  case pool =>
    split
    · next hle => exact h.pool.take (s.process_takes hle time h.sequence)
    · next hlt =>
        rw [s.process_pool_of_lt (Nat.lt_of_not_le hlt), List.append_nil]
        exact h.pool

theorem visited {visit? : Option Visit} (h : Accounted config earlier number s)
    (hvisited : Visited s visit? t) :
    Accounted config (earlier ++ tenants config.warmUpPackets number visit?.toList)
      (number + visit?.toList.countP Visit.isPacket) t := by
  cases hvisited with
  | packet ticker payload time =>
      -- The counter may have been read before the packet, which no account shows.
      have hticker : Accounted config earlier number ({ s with ticker } : Intake σ) :=
        ⟨h.config_eq, h.sequence, h.pool⟩
      simpa [tenants, Visit.isPacket] using hticker.process payload time
  | warmUp => simpa [tenants, Visit.isPacket] using h.warmUp
  | none hconfig hpool hsequence =>
      rw [Option.toList_none, tenants, List.append_nil]
      exact ⟨hconfig.trans h.config_eq, hsequence ▸ h.sequence, hpool ▸ h.pool⟩

theorem perform {w : Worker σ} (h : Accounted config earlier number w.intake)
    (moves : List Move) :
    Accounted config (earlier ++ tenants config.warmUpPackets number (w.visits moves))
      (number + (w.visits moves).countP Visit.isPacket) (w.perform moves).intake := by
  -- The account so far is carried along: the moves that are left start from it.
  induction moves generalizing w earlier number with
  | nil =>
      rw [Worker.visits, tenants, List.append_nil]
      exact h
  | cons move moves ih =>
      rw [Worker.visits, Worker.perform_cons, tenants_append, List.countP_append,
        ← List.append_assoc, ← Nat.add_assoc]
      exact ih (h.visited (w.step_visited move))

/-- The packets of a burst come one after the other, also where no worker takes it. -/
theorem receiveAll (h : Accounted config earlier number s) (burst : List Payload) :
    ∃ arrivals : List Arrival, arrivals.map Arrival.payload = burst ∧
      Accounted config (earlier ++ tenants config.warmUpPackets number (arrivals.map .packet))
        (number + burst.length) (s.receiveAll burst) := by
  induction burst generalizing s earlier number with
  | nil =>
      refine ⟨[], rfl, ?_⟩
      rw [List.map_nil, tenants, List.append_nil]
      exact h
  | cons payload burst ih =>
      let arrival : Arrival := ⟨payload, s.readTime.1⟩
      have hone : [Visit.packet arrival].countP Visit.isPacket = 1 := rfl
      have hlength : number + (payload :: burst).length = number + 1 + burst.length := by
        rw [List.length_cons]
        omega
      obtain ⟨arrivals, hpayloads, hrest⟩ := ih (h.visited (.receive s payload))
      refine ⟨arrival :: arrivals, congrArg (payload :: ·) hpayloads, ?_⟩
      rw [List.map_cons, ← List.singleton_append, tenants_append, ← List.append_assoc, hone, hlength]
      exact hrest

end Accounted

theorem build_accounted {memory : Nat} {config : Config} {origin : ClockOrigin} {ticker : Ticker}
    {sink : σ} {s : Intake σ} (h : build memory config origin ticker sink = .ok s) :
    Accounted config [] 0 s := by
  obtain ⟨_, pool, clock, left, hpool, rfl⟩ := build_eq_ok h
  exact ⟨rfl, rfl, leased_of_rotated (Pool.create_rotated hpool)⟩

/-! ## The accounts of a new intake -/

variable [Sink σ]

/-- What the pool of an intake has come to when these visits were all that there were. -/
structure AccountSpec (config : Config) (visits : List Visit) (s : Intake σ) : Prop where
  cursor : s.pool.cursor.toNat =
    (config.warmUpPackets * visits.countP Visit.isWarmUp + visits.countP Visit.isDecoded) % 2 ^ 64
  poolHead : ∀ hugePages, (s.report hugePages).poolHead =
    (config.warmUpPackets * visits.countP Visit.isWarmUp + visits.countP Visit.isDecoded) %
      config.poolCapacity.toNat
  /-- The next packet that can be decoded takes the slot that the report shows. -/
  packet : ∀ payload time, 28 ≤ payload.length →
    (Tenant.packet ⟨payload, time⟩ (visits.countP Visit.isPacket)).Takes s.report.poolHead s.pool
      (s.process payload time).2.pool
  rejected : ∀ payload time, payload.length < 28 → (s.process payload time).2.pool = s.pool
  /-- The next step of a warm-up takes it too. -/
  warmUpStep : ∀ progress,
    Tenant.warmUp.Takes s.report.poolHead s.pool (warmUpOnce (progress, s)).2.pool
  warmUp : s.warmUp.1 = config.warmUpPackets ∧ s.warmUp.2.sink = s.sink ∧
    s.warmUp.2.tally = s.tally ∧ s.warmUp.2.sequence = s.sequence
  /-- A burst that is taken in one go takes slots packet by packet. -/
  receiveAll : ∀ burst, ∃ arrivals : List Arrival, arrivals.map Arrival.payload = burst ∧
    Leased config.poolCapacity.toNat
      (tenants config.warmUpPackets 0 (visits ++ arrivals.map .packet)) (s.receiveAll burst).pool
  /-- So does a run that comes to its end, for what its polls handed over. -/
  run : ∀ {τ : Type} [Source τ] (source : τ) polls (done : Run σ τ),
    s.run? polls source = some done →
    ∃ n ≤ polls, ∃ arrivals : List Arrival,
      arrivals.map Arrival.payload = Source.handed source n ∧
      Leased config.poolCapacity.toNat
        (tenants config.warmUpPackets 0 (visits ++ arrivals.map .packet)) done.intake.pool
  held : ∀ slot < config.poolCapacity.toNat, ∃ quote, s.pool.get? slot = some quote ∧
    Holds (lastTenant? config.poolCapacity.toNat slot (tenants config.warmUpPackets 0 visits))
      quote
  synthetic : ∀ slot < config.poolCapacity.toNat, ∀ quote, s.pool.get? slot = some quote →
    (quote.isSynthetic = true ↔
      lastTenant? config.poolCapacity.toNat slot (tenants config.warmUpPackets 0 visits) =
        some .warmUp)

theorem Accounted.spec {config : Config} {visits : List Visit} {s : Intake σ}
    (h : Accounted config (tenants config.warmUpPackets 0 visits)
      (visits.countP Visit.isPacket) s) : AccountSpec config visits s := by
  have hburst : ∀ burst, ∃ arrivals : List Arrival, arrivals.map Arrival.payload = burst ∧
      Leased config.poolCapacity.toNat
        (tenants config.warmUpPackets 0 (visits ++ arrivals.map .packet))
        (s.receiveAll burst).pool := by
    intro burst
    obtain ⟨arrivals, hpayloads, hafter⟩ := h.receiveAll burst
    refine ⟨arrivals, hpayloads, ?_⟩
    rw [tenants_append, Nat.zero_add]
    exact hafter.pool
  constructor
  case cursor => rw [h.pool.cursor, length_tenants]
  case poolHead =>
    intro hugePages
    rw [← length_tenants]
    exact h.pool.head_eq
  case packet =>
    intro payload time hle
    exact s.process_takes hle time h.sequence
  case rejected =>
    intro payload time hlt
    exact s.process_pool_of_lt hlt time
  case warmUpStep =>
    intro progress
    exact warmUpOnce_takes progress s
  case warmUp =>
    have hdecoded : s.warmUp.1 = s.config.warmUpPackets := by
      rw [Intake.warmUp]
      exact congrArg Prod.fst (repeat_warmUpOnce ..)
    obtain ⟨pool, ticker, hframe⟩ := s.warmUp_frame
    rw [hdecoded, h.config_eq, hframe]
    exact ⟨rfl, rfl, rfl, rfl⟩
  case receiveAll => exact hburst
  case run =>
    intro τ _ source polls done hrun
    obtain ⟨n, hle, ⟨asked, hintake⟩, _⟩ := Worker.perform_run hrun
    obtain ⟨arrivals, hpayloads, hpool⟩ := hburst (Source.handed source n)
    rw [hintake]
    exact ⟨n, hle, arrivals, hpayloads, hpool⟩
  case held => exact h.pool.held
  case synthetic =>
    intro slot hslot quote hquote
    obtain ⟨held, hheld, hholds⟩ := h.pool.held slot hslot
    obtain rfl := Option.some.inj (hheld.symm.trans hquote)
    exact hholds.isSynthetic_iff

/-- Whatever a new intake is called to do and whatever its sink answers, between any two packets the
cursor counts the slots that packets and warm-ups took, and every slot tells who took it last. -/
theorem work_accountSpec {memory : Nat} {config : Config} {origin : ClockOrigin} {ticker : Ticker}
    {sink : σ} {s : Intake σ} (h : build memory config origin ticker sink = .ok s)
    (moves : List Move) :
    AccountSpec config (Worker.visits { intake := s } moves) (s.work moves).intake := by
  have hworked := (build_accounted h).perform (w := { intake := s }) moves
  rw [List.nil_append, Nat.zero_add] at hworked
  exact hworked.spec

/-- Warm-ups fill a pool of 64 but for its first slot, which a packet took, and its last. A burst
then takes the last slot and the first again, and another warm-up goes on from there. -/
theorem work_accountSpec_small :
    let sink : BoundedQueue := { capacity := 1 }
    let moves : List Move := [.call (.process (.replicate 44 7) 5)] ++
      .replicate 31 (.call .warmUp) ++
      [.call (.receiveAll [[], .replicate 28 7, .replicate 44 7])] ++ .replicate 4 .advance ++
      [.call .warmUp]
    let s := ((small sink).work moves).intake
    build 4096 .small (.known (small sink).clock) (small sink).ticker sink = .ok (small sink) ∧
      s.report.poolHead = 3 ∧
      ([0, 1, 2, 3, 63].map fun slot => (s.pool.get? slot).map Quote.isSynthetic) =
        [some false, some true, some true, some true, some false] ∧
      AccountSpec .small (Worker.visits { intake := small sink } moves) s := by
  intro sink moves s
  exact ⟨build_small sink, by decide +kernel, by decide +kernel,
    work_accountSpec (build_small sink) moves⟩

end Intake

end QuoteFeed
