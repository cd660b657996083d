/-
The shortest decimal that reads back as a given double.

A finite double is a whole multiple `mantissa` of a power of two. All real numbers between the
midpoints to its two neighbours read back as it, the midpoints themselves just if the mantissa
is even. `Decimal.shortest` walks the decimal grids from coarse to fine and stops at the first
that has a point in this window, so no decimal with fewer digits reads back; where two points
of that grid do, it takes the nearer one.

Design notes. All tests are exact comparisons of natural numbers. How an exact tie between the
two points is settled is the caller's choice (`Tie`), since formats differ in it.
-/
import LineCharts.Decimal.Basic

namespace LineCharts

/-- The size of a finite double: `mantissa · 2 ^ exponent`. -/
structure Dyad where
  mantissa : Nat
  exponent : Int
  /-- The neighbour below is half as far away as the one above. -/
  narrow : Bool
deriving DecidableEq

namespace Dyad

/-- Reads exponent and fraction of the bits of a finite double; the sign is left out. -/
def ofBits (bits : UInt64) : Dyad :=
  let power := ((bits >>> 52) &&& 0x7ff).toNat
  let fraction := (bits &&& 0xfffffffffffff).toNat
  if power = 0 then ⟨fraction, -1074, false⟩
  else ⟨0x10000000000000 + fraction, power - 1075, fraction = 0 && 1 < power⟩

/-- `x` as a quotient of natural numbers, in units of `10 ^ (-places)`. -/
def scaled (x : Dyad) (places : Nat) : Nat × Nat :=
  match x.exponent with
  | .ofNat n => (x.mantissa * Nat.pow 2 n * Nat.pow 10 places, 1)
  | .negSucc n => (x.mantissa * Nat.pow 10 places, Nat.pow 2 (n + 1))

end Dyad

namespace Decimal

/-- Which of two equally near decimals is taken. -/
inductive Tie where
  | up
  | toEven
deriving DecidableEq

/-- The natural part of an integer power: `base ^ n` for `n ≥ 0`, else 1. -/
def powPos (base : Nat) (n : Int) : Nat := Nat.pow base n.toNat

/-- The coefficient of the point of the grid `10 ^ p` that reads back as
`x`, if there is one. -/
def onGrid? (tie : Tie) (x : Dyad) (p : Int) : Option Nat :=
  -- a quarter of the unit of `x` is `2 ^ q`, in which the window ends at whole numbers
  let q := x.exponent - 2
  let num := powPos 2 q * powPos 10 (-p)
  let den := powPos 2 (-q) * powPos 10 p
  let value := 4 * x.mantissa * num
  let low := (4 * x.mantissa - if x.narrow then 1 else 2) * num
  let high := (4 * x.mantissa + 2) * num
  let closed := x.mantissa % 2 = 0
  let below := value / den
  let above := below + 1
  let belowIn := low < below * den || (closed && low == below * den)
  let aboveIn := above * den < high || (closed && above * den == high)
  if belowIn && aboveIn then
    if 2 * value < (below + above) * den then some below
    else if (below + above) * den < 2 * value then some above
    else match tie with
      | .up => some above
      | .toEven => some (if below % 2 = 0 then below else above)
  else if belowIn then some below
  else if aboveIn then some above
  else none

/-- The first hit on the grids `10 ^ p`, `10 ^ (p - 1)`, …; the last grid answers with
the point just below. -/
def search (tie : Tie) (x : Dyad) : Nat → Int → Nat × Int
  | 0, p => ((4 * x.mantissa * powPos 2 (x.exponent - 2) * powPos 10 (-p)) /
      (powPos 2 (2 - x.exponent) * powPos 10 p), p)
  | fuel + 1, p =>
    match onGrid? tie x p with
    | some coefficient => (coefficient, p)
    | none => search tie x fuel (p - 1)

/-- A power of ten above `x`, by at most two orders. -/
def ceilingPower (x : Dyad) : Int :=
  ((Nat.log2 x.mantissa + 1 + x.exponent) * 30103) / 100000 + 1

/-- The shortest decimal that reads back as the double with these bits, and the nearest to it
of those. Seventeen digits always suffice, so twenty-one grids do. -/
def shortest (tie : Tie) (bits : UInt64) : Decimal :=
  let negative := bits >>> 63 == 1
  let x := Dyad.ofBits bits
  if x.mantissa = 0 then ⟨negative, 0, 0⟩
  else
    let (coefficient, exponent) := search tie x 21 (ceilingPower x)
    ⟨negative, coefficient, exponent⟩

/-- The double with these bits, to so many places; a half goes to the even digit. -/
def rounded (count : Nat) (bits : UInt64) : Decimal :=
  let (num, den) := (Dyad.ofBits bits).scaled count
  ⟨bits >>> 63 == 1, divEven num den, -count⟩

end Decimal

end LineCharts
