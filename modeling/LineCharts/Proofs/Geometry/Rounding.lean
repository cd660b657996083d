/-
Rounded coordinates, in exact arithmetic.

* `Exact.zero_lit`, `Exact.one_lit` — the constants `0.0` and `1.0`;
* `Exact.round_mono`, `Exact.round_intCast`, `Exact.abs_round_sub_le` — the nearest whole
  number keeps the order, keeps whole numbers, and is at most a half away;
* `Exact.sub_one_le_abs_round_sub` — so two numbers come closer by one at most;
* `Exact.halves` — the whole numbers and the middles between them;
* `Scalar.tenPow_eq` — the unit of a path is the power of ten that its precision asks for;
* `Path.roundTo_mono` — so coordinates keep their order, whatever the unit of the path;
* `Path.abs_roundTo_sub_le` — and move by half a place at most;
* `Path.roundTo_div` — whole multiples of the unit stay; `Path.roundTo_intCast` — so do whole
  numbers in every path of decimal places; `Path.roundTo_of_mem_halves` — and the middles
  between them, with one place at least.
-/
import LineCharts.Geometry.Path
import LineCharts.Scalar.Exact
import Mathlib.Tactic

namespace LineCharts

namespace Exact

@[simp] theorem zero_lit : (0.0 : Rat) = 0 := by norm_num

@[simp] theorem one_lit : (1.0 : Rat) = 1 := by norm_num

theorem round_of_nonneg {x : Rat} (h : 0 ≤ x) : round x = (x + 1 / 2).floor := by
  rw [round, if_neg (not_lt.mpr h)]
  norm_num

theorem round_of_neg {x : Rat} (h : x < 0) : round x = -(-x + 1 / 2).floor := by
  rw [round, if_pos h, Rat.ceil_eq_neg_floor_neg]
  congr 2
  norm_num
  ring

theorem round_neg (x : Rat) : round (-x) = -round x := by
  rcases lt_trichotomy x 0 with h | rfl | h
  · rw [round_of_neg h, round_of_nonneg (by linarith), neg_neg]
  · decide +kernel
  · rw [round_of_neg (by linarith), round_of_nonneg h.le, neg_neg]

theorem round_nonneg {x : Rat} (h : 0 ≤ x) : 0 ≤ round x := by
  rw [round_of_nonneg h, Rat.le_floor_iff]
  push_cast
  linarith

theorem round_mono {x y : Rat} (h : x ≤ y) : round x ≤ round y := by
  rcases le_or_gt 0 x with hx | hx
  · rw [round_of_nonneg hx, round_of_nonneg (hx.trans h)]
    exact Rat.floor_monotone (by linarith)
  · rcases le_or_gt 0 y with hy | hy
    · have hneg := round_nonneg (x := -x) (by linarith)
      have hpos := round_nonneg hy
      rw [round_neg] at hneg
      omega
    · rw [round_of_neg hx, round_of_neg hy]
      exact neg_le_neg (Rat.floor_monotone (by linarith))

theorem abs_round_sub_le (x : Rat) : |(round x : Rat) - x| ≤ 1 / 2 := by
  have hpos : ∀ y : Rat, 0 ≤ y → |(round y : Rat) - y| ≤ 1 / 2 := by
    intro y hy
    have hlow := Rat.floor_le (y + 1 / 2)
    have hhigh := Rat.lt_floor_add_one (y + 1 / 2)
    push_cast at hhigh
    rw [round_of_nonneg hy, abs_le]
    constructor <;> linarith
  rcases le_or_gt 0 x with h | h
  · exact hpos x h
  · have hneg := hpos (-x) (by linarith)
    rw [round_neg, Int.cast_neg, ← abs_neg] at hneg
    convert hneg using 2
    ring

theorem round_intCast (n : Int) : round (n : Rat) = n := by
  have hnear := abs_le.mp (abs_round_sub_le n)
  have hlow : (-1 : Rat) < (round (n : Rat) : Rat) - n := by linarith [hnear.1]
  have hhigh : (round (n : Rat) : Rat) - n < 1 := by linarith [hnear.2]
  norm_cast at hlow hhigh
  omega

theorem sub_one_le_abs_round_sub (x y : Rat) : |x - y| - 1 ≤ |(round x : Rat) - round y| := by
  have hsplit :
    x - y = (x - round x) + ((round x : Rat) - round y) + ((round y : Rat) - y) := by ring
  have htriangle :=
    abs_add_three (x - round x) ((round x : Rat) - round y) ((round y : Rat) - y)
  have hx := abs_round_sub_le x
  have hy := abs_round_sub_le y
  rw [← hsplit, abs_sub_comm x (round x : Rat)] at htriangle
  linarith

/-! ### Halves -/

/-- The whole numbers and the middles between them. -/
def halves : AddSubgroup Rat := .zmultiples (1 / 2)

theorem mem_halves {x : Rat} : x ∈ halves ↔ ∃ n : Int, x = n / 2 := by
  rw [halves, AddSubgroup.mem_zmultiples_iff]
  refine exists_congr fun n => ?_
  rw [zsmul_eq_mul, mul_one_div, eq_comm]

theorem intCast_mem_halves (n : Int) : (n : Rat) ∈ halves := by
  refine mem_halves.mpr ⟨2 * n, ?_⟩
  push_cast
  ring

theorem intCast_half_mem_halves (n : Int) : 0.5 * (n : Rat) ∈ halves := by
  refine mem_halves.mpr ⟨n, ?_⟩
  ring

end Exact

namespace Scalar

theorem power_eq (acc base : Rat) (n : Nat) : power acc base n = acc * base ^ n := by
  induction n using Nat.strong_induction_on generalizing acc base with
  | _ n ih =>
    rw [power]
    split
    case isTrue h => rw [h, pow_zero, mul_one]
    case isFalse h =>
      have hhalf : base ^ n = base ^ (n % 2) * (base * base) ^ (n / 2) := by
        rw [← pow_two, ← pow_mul, ← pow_add, Nat.mod_add_div]
      rw [ih (n / 2) (by omega), hhalf]
      rcases Nat.mod_two_eq_zero_or_one n with h0 | h1
      · rw [h0, if_neg (by decide), pow_zero, one_mul]
      · rw [h1, if_pos rfl, pow_one, mul_assoc]

theorem tenPow_eq (digits : Int) : (tenPow digits : Rat) = 10 ^ digits := by
  have hten : (10.0 : Rat) = 10 := by norm_num
  cases digits with
  | ofNat n =>
    show power (1.0 : Rat) 10.0 n = _
    rw [power_eq, hten, Exact.one_lit, one_mul]
    exact (zpow_natCast _ n).symm
  | negSucc n =>
    show (1.0 : Rat) / power 1.0 10.0 (n + 1) = _
    rw [power_eq, hten, Exact.one_lit, one_mul, one_div, zpow_negSucc]

theorem abs_eq (x : Rat) : abs x = |x| := by
  show (if x < 0.0 then -x else x) = |x|
  rw [Exact.zero_lit]
  split
  case isTrue h => exact (abs_of_neg h).symm
  case isFalse h => exact (abs_of_nonneg (not_lt.mp h)).symm

theorem tenPow_pos (digits : Int) : (0 : Rat) < tenPow digits := by
  rw [tenPow_eq]
  positivity

end Scalar

namespace Path

theorem roundTo_eq (unit x : Rat) : roundTo unit x = Exact.round (x * unit) / unit := by
  show (Exact.round (x * unit) : Rat) / unit + (0.0 : Rat) = _
  norm_num

theorem roundTo_mono (unit : Rat) {x y : Rat} (h : x ≤ y) :
    roundTo unit x ≤ roundTo unit y := by
  rw [roundTo_eq, roundTo_eq]
  rcases le_or_gt 0 unit with hu | hu
  · exact div_le_div_of_nonneg_right
      (Int.cast_le.mpr (Exact.round_mono (mul_le_mul_of_nonneg_right h hu))) hu
  · exact div_le_div_of_nonpos_of_le hu.le
      (Int.cast_le.mpr (Exact.round_mono (mul_le_mul_of_nonpos_right h hu.le)))

theorem roundTo_div {unit : Rat} (hu : unit ≠ 0) (n : Int) :
    roundTo unit (n / unit) = n / unit := by
  rw [roundTo_eq, div_mul_cancel₀ _ hu, Exact.round_intCast]

/-- Whole numbers stay, whatever the number of decimal places. -/
theorem roundTo_intCast (digits : Nat) (n : Int) : roundTo (10 ^ digits) (n : Rat) = n := by
  have hunit : (10 : Rat) ^ digits ≠ 0 := by positivity
  have hgrid : (n : Rat) = (n * 10 ^ digits : Int) / 10 ^ digits := by
    push_cast
    exact (mul_div_cancel_right₀ _ hunit).symm
  rw [hgrid, roundTo_div hunit]

theorem roundTo_natCast (digits n : Nat) : roundTo (10 ^ digits) (n : Rat) = n := by
  exact_mod_cast roundTo_intCast digits n

/-- A coordinate moves by half a place of the path at most. -/
theorem abs_roundTo_sub_le {unit : Rat} (hu : 0 < unit) (x : Rat) :
    |roundTo unit x - x| ≤ 1 / 2 / unit := by
  have hdiff : roundTo unit x - x = ((Exact.round (x * unit) : Rat) - x * unit) / unit := by
    rw [roundTo_eq, sub_div, mul_div_cancel_right₀ _ hu.ne']
  rw [hdiff, abs_div, abs_of_pos hu]
  exact div_le_div_of_nonneg_right (Exact.abs_round_sub_le _) hu.le

/-- Whole pixels and their middles stay, with a decimal place at least. -/
theorem roundTo_of_mem_halves (digits : Nat) {x : Rat} (hx : x ∈ Exact.halves) :
    roundTo (10 ^ (digits + 1)) x = x := by
  obtain ⟨n, rfl⟩ := Exact.mem_halves.mp hx
  have hunit : (10 : Rat) ^ (digits + 1) ≠ 0 := by positivity
  have hgrid : (n : Rat) / 2 = (n * 5 * 10 ^ digits : Int) / 10 ^ (digits + 1) := by
    rw [div_eq_div_iff two_ne_zero hunit]
    push_cast
    ring
  rw [hgrid, roundTo_div hunit]

end Path

end LineCharts
