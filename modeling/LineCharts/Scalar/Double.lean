/-
Doubles as the numbers of a chart.

* `Double.text`, `Double.places` write a double in plain decimal form.
* `Double.floor`, `Double.ceil`, `Double.round` give whole doubles, computed on the bits.
* `instScalarFloat` collects them.

Design notes. A minimum or maximum with one operand that is no number is the other operand.
Whole parts are held within the signed range of 64 bits, and no number counts as 0.
-/
import LineCharts.Scalar
import LineCharts.Decimal.Shortest

namespace LineCharts.Double

/-- Writes a finite double by `form`, and the others by name. -/
@[inline] def written (form : Float → String) (x : Float) : String :=
  if x.isNaN then "NaN"
  else if x.isInf then (if x < 0.0 then "-inf" else "inf")
  else form x

/-- The shortest plain decimal that reads back: `1`, `0.1`, `-0`. -/
def text : Float → String := written fun x => (Decimal.shortest .up x.toBits).plain

/-- The plain decimal with `count` places. -/
def places (count : Nat) : Float → String :=
  written fun x => (Decimal.rounded count x.toBits).plain

/-! ### Whole numbers -/

/-- Drops the fraction. The bits below the unit are cleared, so the sign
stays, also on zero. -/
def truncate (x : Float) : Float :=
  let bits := x.toBits
  let power := (bits >>> 52) &&& 0x7ff
  if power < 1023 then Float.ofBits (bits &&& 0x8000000000000000)
  else if power ≥ 1075 then x
  else Float.ofBits (bits &&& (0xffffffffffffffff <<< (1075 - power)))

/-- The greatest whole double that is not above. -/
def floor (x : Float) : Float :=
  let whole := truncate x
  if x < whole then whole - 1.0 else whole

/-- The least whole double that is not below. -/
def ceil (x : Float) : Float :=
  let whole := truncate x
  if whole < x then whole + 1.0 else whole

/-- The nearest whole double; a half goes away from zero. -/
def round (x : Float) : Float :=
  let whole := truncate x
  let rest := x - whole
  if 0.5 ≤ rest then whole + 1.0 else if rest ≤ -0.5 then whole - 1.0 else whole

/-- The double nearest to a natural number. -/
def ofNat (n : Nat) : Float :=
  if n < UInt64.size then (UInt64.ofNat n).toFloat else Float.ofScientific n false 0

/-- The double nearest to an integer. -/
def ofInt : Int → Float
  | .ofNat n => ofNat n
  | .negSucc n => -ofNat (n + 1)

/-- The whole part in the signed range of 64 bits. -/
def toInt (x : Float) : Int :=
  if x < 0.0 then Scalar.saturate (-(-x).toUInt64.toNat) else Scalar.saturate x.toUInt64.toNat

/-- The smaller of two doubles, or the one that is a number. -/
def min (x y : Float) : Float := if x.isNaN then y else if y < x then y else x

/-- The greater of two doubles, or the one that is a number. -/
def max (x y : Float) : Float := if x.isNaN then y else if x < y then y else x

end LineCharts.Double

namespace LineCharts

instance instScalarFloat : Scalar Float where
  min := Double.min
  max := Double.max
  decLt := inferInstance
  decLe := inferInstance
  ofInt := Double.ofInt
  toInt := Double.toInt
  floor := Double.floor
  ceil := Double.ceil
  round := Double.round
  isFinite := Float.isFinite
  text := Double.text
  places := Double.places

end LineCharts
