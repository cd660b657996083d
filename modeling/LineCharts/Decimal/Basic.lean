/-
Finite decimal numbers and how they are written.

* `Decimal` is a sign, a natural coefficient and a power of ten.
* `Decimal.plain` writes one out in positional form, never with an exponent; the digits
  behind the point are as many as the exponent asks for.
* `Decimal.scientific` writes one with a mark for the exponent.
* `Decimal.divEven` rounds a quotient to the nearest natural number, a half to the even one.

Design notes. The sign stands apart from the coefficient, so that zero has two forms.
-/

namespace LineCharts

/-- The number `± coefficient · 10 ^ exponent`. -/
structure Decimal where
  negative : Bool
  coefficient : Nat
  exponent : Int
deriving DecidableEq

namespace Decimal

/-- `n` in at least `width` digits, with zeros in front. -/
def padded (width n : Nat) : List Char :=
  let digits := Nat.toDigits 10 n
  List.replicate (width - digits.length) '0' ++ digits

/-- The positional form without a sign. -/
def magnitude (d : Decimal) : List Char :=
  match d.exponent with
  | .ofNat zeros => Nat.toDigits 10 (d.coefficient * Nat.pow 10 zeros)
  | .negSucc p =>
    let unit := Nat.pow 10 (p + 1)
    Nat.toDigits 10 (d.coefficient / unit) ++ '.' :: padded (p + 1) (d.coefficient % unit)

/-- Puts the sign in front of a form without one. -/
def signed (d : Decimal) (form : List Char) : String :=
  String.ofList (if d.negative then '-' :: form else form)

/-- The positional form: `120`, `0.5`, `-0`. -/
def plain (d : Decimal) : String := d.signed d.magnitude

/-- The power of ten of the first digit. -/
def leading (d : Decimal) : Int :=
  (Nat.toDigits 10 d.coefficient).length - 1 + d.exponent

/-- One digit, a point if more follow, and the power of ten with its
sign: `1e+16`, `1.5e-6`. -/
def scientific (d : Decimal) : String :=
  let digits := Nat.toDigits 10 d.coefficient
  let mantissa := match digits with
    | first :: second :: rest => first :: '.' :: second :: rest
    | short => short
  let power := d.leading
  let sign := if power < 0 then '-' else '+'
  d.signed (mantissa ++ 'e' :: sign :: Nat.toDigits 10 power.natAbs)

/-- The natural number nearest to `num / den`; a half goes to the even neighbour. -/
def divEven (num den : Nat) : Nat :=
  let below := num / den
  let twice := 2 * (num % den)
  if twice < den then below
  else if den < twice then below + 1
  else if below % 2 = 0 then below else below + 1

end Decimal

end LineCharts
