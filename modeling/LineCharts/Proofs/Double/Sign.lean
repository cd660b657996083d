/-
Zeros and signs of doubles.

* `parts_zero`, `parts_negZero` — the two zeros, taken apart;
* `plus_of_pos`, `plus_of_not_lt` — what is above a zero, or is not below a positive number,
  has the positive sign;
* `sub_zero_of_plus`, `abs_of_plus` — such a number less zero, and its distance
  from zero, are the number;
* `zero_div_of_amount`, `zero_mul_of_amount` — zero divided and multiplied by a number that
  is not negative is zero.
-/
import LineCharts.Proofs.Double.Rounding

namespace LineCharts.Double

open Float.Model (UnpackedFloat Format)
open Float.Model.UnpackedFloat

variable {x y : Float} {a b : ℚ}

/-! ### Zeros -/

theorem zero_eq : (0.0 : Float) = ofParts (.zero .positive) := by decide

theorem negZero_eq : (-0.0 : Float) = ofParts (.zero .negative) := by decide

theorem parts_zero : parts 0.0 = .zero .positive := by
  have hzero : Regular (.zero .positive) := trivial
  rw [zero_eq, parts_ofParts hzero]
  rfl

theorem eq_zero_of_parts (hx : parts x = .zero .positive) : x = 0.0 :=
  parts_inj.1 (hx.trans parts_zero.symm)

theorem parts_negZero : parts (-0.0) = .zero .negative := by
  have hzero : Regular (.zero .negative) := trivial
  rw [negZero_eq, parts_ofParts hzero]
  rfl

theorem plus_zero : Plus (parts 0.0) := by
  rw [parts_zero]
  rfl

theorem zero_le_amount (u : UnpackedFloat) : 0 ≤ amount u := by
  cases u with
  | notANumber => exact le_refl _
  | infinity s => exact le_top
  | zero s => exact le_refl _
  | finite s m e h => exact (amount_finite_pos h).le

theorem not_lt_zero (hx : Plus (parts x)) : ¬ x < 0.0 := by
  rw [lt_iff_amount hx plus_zero, parts_zero]
  exact not_lt.2 (zero_le_amount _)

theorem zero_le (hx : Plus (parts x)) : (0.0 : Float) ≤ x := by
  rw [le_iff_amount plus_zero hx, parts_zero]
  exact zero_le_amount _

theorem beq_iff_compare : (x == y) = true ↔ (parts x).compare (parts y) = some .eq := by
  have h : (x == y) = (UnpackedFloat.compare (parts x) (parts y) == some .eq) := rfl
  rw [h, beq_iff_eq]

/-- What equals zero has no amount. -/
theorem amount_of_beq_zero (hx : (x == 0.0) = true) : amount (parts x) = 0 := by
  rw [beq_iff_compare, parts_zero] at hx
  generalize parts x = u at *
  cases u with
  | notANumber => rfl
  | infinity s => cases s <;> exact absurd hx (by simp [UnpackedFloat.compare])
  | zero s => rfl
  | finite s m e h => cases s <;> exact absurd hx (by simp [UnpackedFloat.compare])

/-! ### Signs -/

theorem lt_iff_compare : x < y ↔ (parts x).compare (parts y) = some .lt := by
  have h : x < y ↔ (UnpackedFloat.compare (parts x) (parts y) == some .lt) = true :=
    decide_eq_true_iff
  rw [h, beq_iff_eq]

/-- What is above zero has the positive sign. -/
theorem plus_of_pos (hx : 0.0 < x) : Plus (parts x) := by
  rw [lt_iff_compare, parts_zero] at hx
  generalize parts x = u at *
  cases u with
  | notANumber => exact absurd hx (by simp [UnpackedFloat.compare])
  | infinity s =>
    cases s with
    | positive => rfl
    | negative => exact absurd hx (by simp [UnpackedFloat.compare])
  | zero s => exact absurd hx (by simp [UnpackedFloat.compare])
  | finite s m e h =>
    cases s with
    | positive => rfl
    | negative => exact absurd hx (by simp [UnpackedFloat.compare])

/-- What is not below a positive number is none or has the positive sign. -/
theorem plus_of_not_lt {m : Nat} {e : Int} {h : 0 < m}
    (hy : parts y = .finite .positive m e h) (hnan : x.isNaN = false) (hx : ¬ x < y) :
    Plus (parts x) := by
  have hnumber : (parts x).isNaN = false := hnan
  rw [lt_iff_compare, hy] at hx
  generalize parts x = u at *
  cases u with
  | notANumber => exact absurd hnumber (by simp [UnpackedFloat.isNaN])
  | infinity s =>
    cases s with
    | positive => rfl
    | negative => exact absurd rfl hx
  | zero s => exact absurd rfl hx
  | finite s m e h =>
    cases s with
    | positive => rfl
    | negative => exact absurd rfl hx

/-- The greater of a double and a positive number is not below the number. -/
theorem le_max {m : Nat} {e : Int} {h : 0 < m} (hy : parts y = .finite .positive m e h)
    (x : Float) :
    Plus (parts (max x y)) ∧ amount (parts y) ≤ amount (parts (max x y)) := by
  have hplus : Plus (parts y) := by
    rw [hy]
    rfl
  rw [max]
  by_cases hnan : x.isNaN = true
  · rw [if_pos hnan]
    exact ⟨hplus, le_refl _⟩
  · rw [if_neg hnan]
    by_cases hlt : x < y
    · rw [if_pos hlt]
      exact ⟨hplus, le_refl _⟩
    · rw [if_neg hlt]
      have hx : Plus (parts x) := plus_of_not_lt hy (Bool.eq_false_iff.2 hnan) hlt
      rw [lt_iff_amount hx hplus, not_lt] at hlt
      exact ⟨hx, hlt⟩

theorem sub_zero_of_plus (hx : Plus (parts x)) : x - 0.0 = x := by
  have hsub : UnpackedFloat.sub .binary64 (parts x) (.zero .positive) = parts x := by
    generalize parts x = u at *
    cases u with
    | notANumber => exact hx.elim
    | infinity s => rfl
    | zero s =>
      obtain rfl : s = .positive := hx
      rfl
    | finite s m e h => rfl
  rw [sub_eq, parts_zero, hsub, ofParts_parts]

theorem abs_of_plus (hx : Plus (parts x)) : Scalar.abs x = x := if_neg (not_lt_zero hx)

/-- A number that is neither negative nor infinite has an amount. -/
theorem amount_of_isFinite (hx : Plus (parts x)) (hfinite : x.isFinite = true) :
    ∃ a : ℚ, 0 ≤ a ∧ amount (parts x) = a := by
  have hnumber : (parts x).isFinite = true := hfinite
  generalize parts x = u at *
  cases u with
  | notANumber => exact hx.elim
  | infinity s => exact absurd hnumber (by simp [UnpackedFloat.isFinite])
  | zero s => exact ⟨0, le_refl 0, rfl⟩
  | finite s m e h => exact ⟨m * 2 ^ e, by positivity, rfl⟩

/-- The number without an amount is infinity. -/
theorem parts_of_top (hx : Plus (parts x)) (ha : amount (parts x) = ⊤) :
    parts x = .infinity .positive := by
  generalize parts x = u at *
  cases u with
  | notANumber => exact hx.elim
  | infinity s =>
    obtain rfl : s = .positive := hx
    rfl
  | zero s => exact absurd ha WithTop.coe_ne_top
  | finite s m e h => exact absurd ha WithTop.coe_ne_top

theorem isFinite_of_amount (hx : Plus (parts x)) (ha : amount (parts x) = a) :
    x.isFinite = true := by
  show (parts x).isFinite = true
  rcases plus_cases hx ha with ⟨h, _⟩ | ⟨m, e, _, h, _⟩
  · rw [h]
    rfl
  · rw [h]
    rfl

/-! ### Zero divided and multiplied -/

theorem zero_div_of_amount (hx : Plus (parts x)) (ha : amount (parts x) = a) (hpos : 0 < a) :
    0.0 / x = 0.0 := by
  rcases plus_cases hx ha with ⟨_, rfl⟩ | ⟨m, e, h, hxu, rfl⟩
  · exact absurd hpos (lt_irrefl 0)
  · rw [div_eq, parts_zero, hxu, zero_eq]
    rfl

theorem zero_mul_of_amount (hx : Plus (parts x)) (ha : amount (parts x) = a) :
    0.0 * x = 0.0 := by
  rw [mul_eq, parts_zero, zero_eq]
  rcases plus_cases hx ha with ⟨hxu, _⟩ | ⟨m, e, h, hxu, _⟩
  · rw [hxu]
    rfl
  · rw [hxu]
    rfl

end LineCharts.Double
