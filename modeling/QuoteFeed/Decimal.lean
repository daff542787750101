import QuoteFeed.Binary64.Round

/-! # Decimal numbers and their text

A decimal number is a whole number of units of a power of ten. Its text is positional whatever the
power is: zeros fill the places up to the point, and no exponent is written. A number in binary is
written as the shortest decimal that reads back as it, or with a fixed count of places.
-/

namespace QuoteFeed

/-- The number `digits * 10 ^ exponent`. -/
structure Decimal where
  digits : Nat
  exponent : Int
deriving DecidableEq

namespace Decimal

/-- The numerator of the number as a fraction of whole numbers. -/
def numerator (d : Decimal) : Nat :=
  d.digits * 10 ^ d.exponent.toNat

/-- The denominator of the number as a fraction of whole numbers. -/
def denominator (d : Decimal) : Nat :=
  10 ^ (-d.exponent).toNat

/-- The text of `n / 10 ^ places` with exactly that many places after the point. -/
def pointed (places n : Nat) : String :=
  if places = 0 then toString n
  else
    let fraction := toString (n % 10 ^ places)
    toString (n / 10 ^ places) ++ "." ++
      String.ofList (List.replicate (places - fraction.length) '0') ++ fraction

/-- The number without an exponent: a point where the exponent is negative, zeros at the end where
it is positive. -/
def text (d : Decimal) : String :=
  pointed (-d.exponent).toNat d.numerator

/-! ## The shortest decimal of a number

A decimal reads back as a number if the number is the one nearest to it. The grids of the powers of
ten are tried from coarse to fine: the first one with a point that reads back gives the fewest
digits. Of the two points beside the value the nearer one is taken, and the upper one of a tie. -/

open Binary64

/-- Whether the magnitude is the one nearest to the decimal. -/
def readsBack (magnitude : Nat) (d : Decimal) : Bool :=
  nearest (d.numerator * stepsInOne) d.denominator == magnitude

/-- Of the two neighbours of a value on the grid of `10 ^ exponent`, the one that reads back as it,
or the nearer one if both do. -/
def onGrid? (magnitude : Nat) (exponent : Int) : Option Decimal :=
  let scaled := stepsOf magnitude * 10 ^ (-exponent).toNat
  let grid := 10 ^ exponent.toNat * stepsInOne
  let low : Decimal := ⟨scaled / grid, exponent⟩
  let high : Decimal := ⟨scaled / grid + 1, exponent⟩
  if readsBack magnitude low then
    if readsBack magnitude high && grid ≤ 2 * (scaled % grid) then some high else some low
  else if readsBack magnitude high then some high
  else none

/-- The first hit on the grids from `10 ^ exponent` down, at most `finer` powers further, where the
last grid gives its lower neighbour if nothing reads back. -/
def searchGrids (magnitude : Nat) : Nat → Int → Decimal
  | 0, exponent => ⟨stepsOf magnitude * 10 ^ (-exponent).toNat /
      (10 ^ exponent.toNat * stepsInOne), exponent⟩
  | finer + 1, exponent =>
      match onGrid? magnitude exponent with
      | some d => d
      | none => searchGrids magnitude finer (exponent - 1)

/-- The shortest decimal that reads back as a finite magnitude. All values lie below `10 ^ 309`, and
they are at least `10 ^ -324` apart. -/
def shortest (magnitude : Nat) : Decimal :=
  if magnitude = 0 then ⟨0, 0⟩ else searchGrids magnitude 634 309

end Decimal

/-! ## Numbers in binary as text -/

namespace Binary64

/-- A text for the absolute value under the sign, or the name of a value that is not finite. A minus
stands before a negative zero, and none before what is no number. -/
def signedText (x : Binary64) (absolute : String) : String :=
  if x.isNaN then "NaN"
  else (if x.isNegative then "-" else "") ++ if x.isInfinite then "inf" else absolute

/-- The number with the fewest digits that read back. -/
def shortestText (x : Binary64) : String :=
  x.signedText (Decimal.shortest x.magnitude).text

/-- The number with `places` digits after the point. The exact value is rounded to the last of them,
a half going to the even digit. -/
def fixedText (places : Nat) (x : Binary64) : String :=
  x.signedText (Decimal.pointed places (roundHalfEven (x.steps * 10 ^ places) stepsInOne))

end Binary64

end QuoteFeed
