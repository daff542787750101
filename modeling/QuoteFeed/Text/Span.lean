import QuoteFeed.Arithmetic

/-! # Lengths of time as text

A length of time in nanoseconds is written in the largest unit of which it holds a whole one, and
its fraction without zeros at the end.
-/

namespace QuoteFeed

structure Span where
  nanos : Nat
deriving DecidableEq

namespace Span

/-- The length of a number of seconds and nanoseconds. -/
def ofSeconds (seconds nanos : Nat) : Span :=
  ⟨seconds * 10 ^ 9 + nanos⟩

/-- A fraction of a unit of `10 ^ places` nanoseconds, after a point; nothing if it is zero. -/
def fractionText (places part : Nat) : String :=
  if part = 0 then ""
  else
    let digits := (toString part).toList
    let filled := List.replicate (places - digits.length) '0' ++ digits
    "." ++ String.ofList (filled.reverse.dropWhile (· = '0')).reverse

/-- The length in units of `10 ^ places` nanoseconds. -/
def inUnits (s : Span) (places : Nat) (unit : String) : String :=
  toString (s.nanos / 10 ^ places) ++ fractionText places (s.nanos % 10 ^ places) ++ unit

/-- The length in the largest unit that it reaches. -/
def text (s : Span) : String :=
  if 10 ^ 9 ≤ s.nanos then s.inUnits 9 "s"
  else if 10 ^ 6 ≤ s.nanos then s.inUnits 6 "ms"
  else if 10 ^ 3 ≤ s.nanos then s.inUnits 3 "µs"
  else s.inUnits 0 "ns"

end Span

end QuoteFeed
