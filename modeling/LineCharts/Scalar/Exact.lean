/-
Rational numbers as the numbers of a chart: the same definitions, without rounding.

* `Exact.round` is the nearest whole number, a half away from zero.
* `Exact.text` writes a rational whose denominator divides a power of ten in full; all others
  to twenty places.
-/
import LineCharts.Scalar
import LineCharts.Decimal.Basic

namespace LineCharts.Exact

/-- The nearest whole number; a half goes away from zero. -/
def round (x : Rat) : Int := if x < 0 then (x - 0.5).ceil else (x + 0.5).floor

/-- The whole part in the signed range of 64 bits. -/
def toInt (x : Rat) : Int := Scalar.saturate (if x < 0 then x.ceil else x.floor)

/-- `x` to so many places; a half goes to the even digit. -/
def rounded (count : Nat) (x : Rat) : Decimal :=
  ⟨x < 0, Decimal.divEven (x.num.natAbs * Nat.pow 10 count) x.den, -count⟩

/-- The least number of places in which `x` can be written in full, if there is one. -/
def fullPlaces? (x : Rat) : Option Nat :=
  (List.range (Nat.log2 x.den + 1)).find? fun n => Nat.pow 10 n % x.den == 0

/-- The plain decimal: in full if it ends, else to twenty places. -/
def text (x : Rat) : String := (rounded ((fullPlaces? x).getD 20) x).plain

/-- The plain decimal with `count` places. -/
def places (count : Nat) (x : Rat) : String := (rounded count x).plain

end LineCharts.Exact

namespace LineCharts

instance instScalarRat : Scalar Rat where
  toMin := Rat.instMin
  toMax := Rat.instMax
  decLt := inferInstance
  decLe := inferInstance
  ofInt n := n
  toInt := Exact.toInt
  floor x := x.floor
  ceil x := x.ceil
  round x := Exact.round x
  isFinite _ := true
  text := Exact.text
  places := Exact.places

end LineCharts
