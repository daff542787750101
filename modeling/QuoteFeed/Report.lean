import QuoteFeed.Decimal
import QuoteFeed.Tally

/-! # Reports

A report is a tally together with what is needed to read it: the counter's rate and the state of the
pool.
-/

namespace QuoteFeed

/-- A tally with the facts about the run it was taken from. -/
structure Report where
  tally : Tally
  /-- The rate of the cycle counter. -/
  gigahertz : Binary64
  /-- The slot that is handed out next. -/
  poolHead : Nat
  poolCapacity : Nat
  /-- Whether the pool lies in huge pages. -/
  hugePages : Bool
deriving DecidableEq

namespace Report

def text (r : Report) : String :=
  r.tally.text ++ "\n" ++
    "  TSC frequency:     " ++ r.gigahertz.fixedText 3 ++ " GHz\n" ++
    "  Pool head:         " ++ toString r.poolHead ++ " / " ++ toString r.poolCapacity ++ "\n" ++
    "  Huge pages:        " ++ if r.hugePages then "yes" else "no"

/-- Equality of reports, in which rates are compared by value. -/
def agrees (r s : Report) : Bool :=
  r.tally == s.tally && r.gigahertz.sameValue s.gigahertz && r.poolHead == s.poolHead &&
    r.poolCapacity == s.poolCapacity && r.hugePages == s.hugePages

end Report

end QuoteFeed
