/-
Exact numbers whose division by zero is left open, and paths in them.

* `Exact.Division` is a division of rationals that says nothing new where the divisor is not
  zero, and `Exact.Division.scalar` the rationals with it; what is the same for all divisions
  does not depend on a quotient by zero;
* `Scalar.tenPow_by` — the unit of a path is the same for all of them;
* `Path.Agree` — two paths are the same and have a unit to divide by; `Path.Agree.moveTo`,
  `Path.Agree.lineTo`, `Path.Agree.close` — whatever is appended, whichever division is used.

Design notes.  Here and in the other modules on divisions, `f_by` says that `f` gives the same
with any division, and `agree_f` that it takes paths that agree to paths that agree.  Only
functions that divide, or call one that does, need such a lemma: all others are the same by
definition.  Steps along a list are put together by `List.foldl_rel`.
-/
import LineCharts.Proofs.Geometry.Rounding

namespace LineCharts

/-! ### Divisions -/

namespace Exact

/-- A division of rationals.  What a quotient by zero is stays open. -/
structure Division where
  quotient : Rat → Rat → Rat
  quotient_eq : ∀ x y, y ≠ 0 → quotient x y = x / y

namespace Division

/-- The rationals with this division. -/
@[reducible] def scalar (d : Division) : Scalar Rat :=
  { instScalarRat with toDiv := ⟨d.quotient⟩ }

/-- A quotient in these numbers. -/
theorem div_by (d : Division) (x : Rat) {y : Rat} (hy : y ≠ 0) :
    @HDiv.hDiv Rat Rat Rat (@instHDiv Rat d.scalar.toDiv) x y = x / y :=
  d.quotient_eq x y hy

theorem quotient_two (d : Division) (x : Rat) : d.quotient x (2.0 : Rat) = x / 2.0 :=
  d.quotient_eq x _ (by norm_num)

/-- The division with `f x` for the quotient of `x` by zero. -/
def byZero (f : Rat → Rat) : Division where
  quotient x y := if y = 0 then f x else x / y
  quotient_eq _ _ hy := if_neg hy

end Division

end Exact

open Exact (Division)

variable (d : Division)

/-! ### Powers of ten -/

namespace Scalar

theorem power_by (acc base : Rat) (n : Nat) :
    @power Rat d.scalar acc base n = power acc base n := by
  induction n using Nat.strong_induction_on generalizing acc base with
  | _ n ih =>
    -- `power` halves its exponent
    rw [@power.eq_1 Rat d.scalar, @power.eq_1 Rat instScalarRat]
    split
    case isTrue => rfl
    case isFalse h =>
      exact ih (n / 2) (Nat.div_lt_self (Nat.pos_of_ne_zero h) (by decide)) _ _

theorem tenPow_by (digits : Int) : @tenPow Rat d.scalar digits = tenPow digits := by
  cases digits with
  | ofNat n => exact power_by d 1.0 10.0 n
  | negSucc n =>
    have hpower : power (1.0 : Rat) 10.0 (n + 1) ≠ 0 := by
      rw [power_eq]
      positivity
    show d.quotient 1.0 (@power Rat d.scalar (1.0 : Rat) (10.0 : Rat) (n + 1)) = _
    rw [power_by, d.quotient_eq _ _ hpower]
    rfl

end Scalar

/-! ### Paths -/

namespace Path

theorem roundTo_by {unit : Rat} (hu : unit ≠ 0) (x : Rat) :
    @roundTo Rat d.scalar unit x = roundTo unit x :=
  congrArg (· + (0.0 : Rat)) (d.quotient_eq _ _ hu)

/-- The same path, with a unit to divide by. -/
structure Agree (p q : Path Rat) : Prop where
  eq : p = q
  unit : q.unit ≠ 0

theorem agree_withPrecision (digits : Int) :
    (@withPrecision Rat d.scalar digits).Agree (withPrecision digits) := by
  refine ⟨?_, (Scalar.tenPow_pos digits).ne'⟩
  unfold withPrecision
  rw [Scalar.tenPow_by]

theorem agree_empty : (@empty Rat d.scalar).Agree empty :=
  agree_withPrecision d defaultPrecision

variable {d} {p q : Path Rat}

namespace Agree

theorem moveTo (h : p.Agree q) (x y : Rat) :
    (@moveTo Rat d.scalar p x y).Agree (q.moveTo x y) := by
  obtain ⟨rfl, hu⟩ := h
  refine ⟨?_, hu⟩
  unfold Path.moveTo Path.round
  rw [roundTo_by d hu, roundTo_by d hu]

theorem lineTo (h : p.Agree q) (x y : Rat) :
    (@lineTo Rat d.scalar p x y).Agree (q.lineTo x y) := by
  obtain ⟨rfl, hu⟩ := h
  constructor
  · unfold Path.lineTo Path.round
    rw [roundTo_by d hu, roundTo_by d hu]
  · rw [Path.lineTo]
    split
    · exact hu
    · exact hu

theorem close (h : p.Agree q) : p.close.Agree q.close :=
  ⟨congrArg Path.close h.eq, h.unit⟩

end Agree

end Path

end LineCharts
