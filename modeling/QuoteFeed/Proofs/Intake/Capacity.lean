import QuoteFeed.Proofs.Intake.Making

/-! # Capacities

The settings are checked before a pool is made of them. The check and the constructors agree on
every capacity whose bytes can be counted in a word. Of the larger ones the constructors refuse
every one as invalid, and the check still passes the powers of two. -/

namespace QuoteFeed

namespace Pool

variable {memory : Nat} {capacity : UInt64}

theorem isCapacity_iff :
    isCapacity capacity = true ↔ 64 ≤ capacity.toNat ∧ capacity.toNat.isPowerOfTwo := by
  simp only [isCapacity, Bool.and_eq_true, decide_eq_true_eq, UInt64.le_iff_toNat_le]
  rfl

theorem checkCapacity_eq_ok_iff : checkCapacity capacity = .ok () ↔ isCapacity capacity = true := by
  rw [checkCapacity]
  split <;> simp [*]

theorem checkCapacity_eq_error_iff {e : Error} :
    checkCapacity capacity = .error e ↔
      e = .invalidCapacity capacity ∧ ¬ isCapacity capacity = true := by
  rw [checkCapacity]
  split <;> simp [*, eq_comm]

/-! ## What becomes of a capacity -/

theorem create_of_not_isCapacity (h : ¬ isCapacity capacity = true) :
    create memory capacity = .error (.invalidCapacity capacity) := by
  rw [create, dif_neg h]

/-- A word does not hold the number of bytes of so many quotes. -/
theorem create_of_le (h : 2 ^ 58 ≤ capacity.toNat) :
    create memory capacity = .error (.invalidCapacity capacity) := by
  by_cases hcapacity : isCapacity capacity = true
  · have hbytes : 2 ^ 64 ≤ bytesFor capacity.toNat := by
      simp only [bytesFor, cacheLineSize]
      omega
    rw [create, dif_pos hcapacity]
    exact if_pos hbytes
  · exact create_of_not_isCapacity hcapacity

theorem create_of_lt (hcapacity : isCapacity capacity = true) (h : capacity.toNat < 2 ^ 58) :
    create memory capacity =
      if memory < 64 * capacity.toNat then
        .error (.allocationFailed (UInt64.ofNat (64 * capacity.toNat)))
      else
        .ok (.replicate capacity.toNat .blank (isCapacity_iff.mp hcapacity).2 capacity.toNat_lt) := by
  have hbytes : ¬ 2 ^ 64 ≤ bytesFor capacity.toNat := by
    simp only [bytesFor, cacheLineSize]
    omega
  rw [create, dif_pos hcapacity]
  exact if_neg hbytes

/-- How a capacity is judged before a pool is made of it, and by those who make one. -/
structure CapacitySpec (memory : Nat) (capacity : UInt64) : Prop where
  checked : ∀ e, checkCapacity capacity = .error e ↔
    e = .invalidCapacity capacity ∧ ¬ (64 ≤ capacity.toNat ∧ ∃ k, capacity.toNat = 2 ^ k)
  config : ∀ config : Intake.Config, config.poolCapacity = capacity → ∀ e,
    config.check = .error e ↔ ∃ cause, checkCapacity capacity = .error cause ∧ e = .pool cause
  agree : capacity.toNat < 2 ^ 58 → ∀ refused,
    checkCapacity capacity = .error (.invalidCapacity refused) ↔
      create memory capacity = .error (.invalidCapacity refused)
  /-- The bytes of `2 ^ 58` quotes do not fit a word, and no pool is made of so many, whether or
  not the check passes. -/
  uncountable : 2 ^ 58 ≤ capacity.toNat →
    create memory capacity = .error (.invalidCapacity capacity)
  intake : ∀ config : Intake.Config, config.poolCapacity = capacity →
    ∀ (σ : Type) (sink : σ) (clock : Clock) (ticker : Ticker) (refused : UInt64),
      Intake.create memory config clock ticker sink = .error (.pool (.invalidCapacity refused)) ↔
        create memory capacity = .error (.invalidCapacity refused)
  accepted : checkCapacity capacity = .ok () → capacity.toNat < 2 ^ 58 →
    (∃ pool, create memory capacity = .ok pool ∧ pool.capacity = capacity.toNat ∧
      pool.bytes = 64 * capacity.toNat ∧ pool.bytes < 2 ^ 64) ∨
    ∃ bytes : UInt64, bytes.toNat = 64 * capacity.toNat ∧
      create memory capacity = .error (.allocationFailed bytes)

end Pool

namespace Intake

variable {σ : Type} {memory : Nat} {config : Config} {clock : Clock} {ticker : Ticker} {sink : σ}

theorem check_eq_error_iff {e : Error} :
    config.check = .error e ↔
      ∃ cause, Pool.checkCapacity config.poolCapacity = .error cause ∧ e = .pool cause := by
  rw [Config.check]
  cases Pool.checkCapacity config.poolCapacity with
  | ok _ => simp [mapError_ok]
  | error cause => simp [mapError_error, eq_comm]

/-- A pool is refused for the same cause with the settings as without them. -/
theorem create_eq_error_iff {cause : Pool.Error} :
    create memory config clock ticker sink = .error (.pool cause) ↔
      Pool.create memory config.poolCapacity = .error cause := by
  rw [create]
  cases hcheck : config.check with
  | error e =>
      obtain ⟨first, hfirst, rfl⟩ := check_eq_error_iff.mp hcheck
      obtain ⟨rfl, hcapacity⟩ := Pool.checkCapacity_eq_error_iff.mp hfirst
      simp [bind, Except.bind, Pool.create_of_not_isCapacity hcapacity]
  | ok _ =>
      cases Pool.create memory config.poolCapacity with
      | error other => simp [bind, Except.bind, mapError_error]
      | ok pool => simp [bind, Except.bind, mapError_ok, pure, Except.pure]

end Intake

namespace Pool

theorem create_capacitySpec (memory : Nat) (capacity : UInt64) : CapacitySpec memory capacity where
  checked e := by
    rw [checkCapacity_eq_error_iff, isCapacity_iff]
    rfl
  config := by
    rintro config rfl e
    exact Intake.check_eq_error_iff
  agree hlt refused := by
    rw [checkCapacity_eq_error_iff]
    by_cases hcapacity : isCapacity capacity = true
    · rw [create_of_lt hcapacity hlt]
      split <;> simp [hcapacity]
    · simp [create_of_not_isCapacity hcapacity, hcapacity, eq_comm]
  uncountable := create_of_le
  intake := by
    rintro config rfl σ sink clock ticker refused
    exact Intake.create_eq_error_iff
  accepted hok hlt := by
    have hbytes : 64 * capacity.toNat < 2 ^ 64 := by omega
    rw [create_of_lt (checkCapacity_eq_ok_iff.mp hok) hlt]
    split
    · refine .inr ⟨_, ?_, rfl⟩
      rw [UInt64.toNat_ofNat', Nat.mod_eq_of_lt hbytes]
    · refine .inl ⟨_, rfl, SlotRing.capacity_replicate .., ?_⟩
      rw [bytes, SlotRing.capacity_replicate, bytesFor, cacheLineSize]
      exact ⟨rfl, hbytes⟩

/-- The check passes a capacity of `2 ^ 58`, and every constructor calls it invalid, whatever
memory there is. -/
theorem create_two_pow_58 :
    checkCapacity 0x400000000000000 = .ok () ∧
    Intake.Config.check { poolCapacity := 0x400000000000000 } = .ok () ∧
    ∀ memory, create memory 0x400000000000000 = .error (.invalidCapacity 0x400000000000000) ∧
      ∀ (σ : Type) (sink : σ) (clock : Clock) (ticker : Ticker),
        Intake.create memory { poolCapacity := 0x400000000000000 } clock ticker sink =
          .error (.pool (.invalidCapacity 0x400000000000000)) := by
  have hpower : checkCapacity 0x400000000000000 = .ok () :=
    checkCapacity_eq_ok_iff.mpr (isCapacity_iff.mpr ⟨by decide, 58, by decide⟩)
  have hcreate : ∀ memory,
      create memory 0x400000000000000 = .error (.invalidCapacity 0x400000000000000) :=
    fun memory => create_of_le (by decide)
  refine ⟨hpower, ?_, ?_⟩
  · rw [Intake.Config.check, hpower]
    rfl
  · intro memory
    refine ⟨hcreate memory, ?_⟩
    intro σ sink clock ticker
    exact Intake.create_eq_error_iff.mpr (hcreate memory)

end Pool

end QuoteFeed
