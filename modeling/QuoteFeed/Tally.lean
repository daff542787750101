/-! # Tallies

A tally counts packets by what became of them, in words that wrap. The growth from one tally to a
later one stops at zero, so a tally that was cleared in between shows too little and never too much.
-/

namespace QuoteFeed

structure Tally where
  received : UInt64 := 0
  /-- Packets that the sink took. -/
  processed : UInt64 := 0
  /-- Packets that the sink did not take. -/
  dropped : UInt64 := 0
  /-- Packets that could not be decoded. -/
  rejected : UInt64 := 0
deriving DecidableEq

namespace Tally

inductive Counter
  | received
  | processed
  | dropped
  | rejected
deriving DecidableEq

def get (t : Tally) : Counter → UInt64
  | .received => t.received
  | .processed => t.processed
  | .dropped => t.dropped
  | .rejected => t.rejected

/-- The tally with one more event of a kind. -/
def bump (t : Tally) : Counter → Tally
  | .received => { t with received := t.received + 1 }
  | .processed => { t with processed := t.processed + 1 }
  | .dropped => { t with dropped := t.dropped + 1 }
  | .rejected => { t with rejected := t.rejected + 1 }

/-- The growth of one counter, nothing if it went back. -/
def growth (now earlier : UInt64) : UInt64 :=
  UInt64.ofNat (now.toNat - earlier.toNat)

/-- The growth of every counter since an earlier tally. -/
def since (now earlier : Tally) : Tally where
  received := growth now.received earlier.received
  processed := growth now.processed earlier.processed
  dropped := growth now.dropped earlier.dropped
  rejected := growth now.rejected earlier.rejected

/-- The tally in words, one counter to a line. -/
def text (t : Tally) : String :=
  "=== Pipeline Statistics ===\n" ++
    "  Packets received:  " ++ toString t.received.toNat ++ "\n" ++
    "  Packets processed: " ++ toString t.processed.toNat ++ "\n" ++
    "  Parse errors:      " ++ toString t.rejected.toNat ++ "\n" ++
    "  Sink full:         " ++ toString t.dropped.toNat

theorem get_bump (t : Tally) (c d : Counter) :
    (t.bump c).get d = if c = d then t.get d + 1 else t.get d := by
  cases c <;> cases d <;> simp [bump, get]

theorem get_since (now earlier : Tally) (c : Counter) :
    (now.since earlier).get c = growth (now.get c) (earlier.get c) := by
  cases c <;> rfl

@[simp] theorem toNat_growth (now earlier : UInt64) :
    (growth now earlier).toNat = now.toNat - earlier.toNat := by
  have h := now.toNat_lt
  simp only [growth, UInt64.toNat_ofNat']
  omega

end Tally

end QuoteFeed
