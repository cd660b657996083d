/-
The numbers that charts are drawn with.

Every axis, path and layout of this library is written once, over a type `α` with
`Scalar α`. Two types have it:

* `Float`, in which charts are drawn (`LineCharts.Scalar.Double`);
* `Rat`, in which the same definitions are exact (`LineCharts.Scalar.Exact`).

Design notes. The class holds operations only, no laws: doubles keep few laws, and the
rationals have theirs already. Order and equality are the ones of the type, so that a
definition read at `Rat` is about the usual `<`, `≤`, `min` and `max`. Constants are
written with a point (`0.5`, `2.0`) and mean the nearest number of the type.
-/

namespace LineCharts

/-- Numbers that geometry is computed with. -/
class Scalar (α : Type) extends Add α, Sub α, Mul α, Div α, Neg α, LT α, LE α, BEq α,
    Min α, Max α, OfScientific α where
  /-- `<` can be tested. -/
  decLt : DecidableLT α
  /-- `≤` can be tested. -/
  decLe : DecidableLE α
  /-- The number nearest to an integer. -/
  ofInt : Int → α
  /-- The whole part, without the fraction, held within the range of 64 bits; 0 where there is
  no number. -/
  toInt : α → Int
  /-- The greatest whole number that is not above. -/
  floor : α → α
  /-- The least whole number that is not below. -/
  ceil : α → α
  /-- The nearest whole number; a half goes away from zero. -/
  round : α → α
  /-- Neither infinite nor without a value. -/
  isFinite : α → Bool
  /-- The shortest decimal text that denotes the number, without an exponent. -/
  text : α → String
  /-- The decimal text with a fixed number of places. -/
  places : Nat → α → String

attribute [reducible, instance] Scalar.decLt Scalar.decLe

namespace Scalar

/-- Least number of a signed word of 64 bits. -/
def minInt64 : Int := -9223372036854775808

/-- Greatest number of a signed word of 64 bits. -/
def maxInt64 : Int := 9223372036854775807

/-- Whether an integer fits into a signed word of 64 bits. -/
def fitsInt64 (n : Int) : Bool := minInt64 ≤ n && n ≤ maxInt64

theorem fitsInt64_iff {n : Int} : fitsInt64 n = true ↔ minInt64 ≤ n ∧ n ≤ maxInt64 := by
  rw [fitsInt64, Bool.and_eq_true, decide_eq_true_eq, decide_eq_true_eq]

/-- The nearest integer that fits into a signed word of 64 bits. -/
def saturate (n : Int) : Int := max minInt64 (min maxInt64 n)

variable {α : Type} [Scalar α]

/-- The number nearest to a natural number. -/
@[specialize] def ofNat (n : Nat) : α := ofInt n

/-- The distance from zero. -/
@[specialize] def abs (x : α) : α := if x < 0.0 then -x else x

/-- `x` brought into `lo … hi`. -/
@[specialize] def clamp (lo hi x : α) : α :=
  let raised := if x < lo then lo else x
  if hi < raised then hi else raised

/-- Whether `x` lies in `lo … hi`, the ends included. -/
@[specialize] def within (lo hi x : α) : Bool := lo ≤ x && x ≤ hi

/-- `acc · base ^ n`, by squaring. -/
def power (acc base : α) (n : Nat) : α :=
  if n = 0 then acc
  else power (if n % 2 = 1 then acc * base else acc) (base * base) (n / 2)
termination_by n

/-- `10 ^ digits`, and its reciprocal for negative `digits`. -/
def tenPow : Int → α
  | .ofNat n => power 1.0 10.0 n
  | .negSucc n => 1.0 / power 1.0 10.0 (n + 1)

end Scalar

end LineCharts
