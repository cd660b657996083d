/-
Vertical axes have a positive span, in exact arithmetic.

* `LimitRule.Wide` — a rule whose window is wider than the least span with its margins;
* `LimitRule.resolve_rises` — its range rises, whatever the data;
* `bitsRange_rises` — the range for bit loading rises from zero.
-/
import LineCharts.Proofs.Axis.Limits

namespace LineCharts

/-- The top is above the bottom. -/
def AxisRange.Rises (r : AxisRange Rat) : Prop := r.bottom < r.top

theorem AxisRange.Rises.span_pos {r : AxisRange Rat} (h : r.Rises) : 0 < r.span :=
  sub_pos.mpr h

/-! ### Rules -/

/-- The fixed range rises, and the window is wider than the least span with its margins. -/
structure LimitRule.Wide (rule : LimitRule Rat) : Prop where
  fixed : rule.fixed.Rises
  minRange : 0 < rule.minRange
  window : 1.2 * rule.minRange < rule.validMax - rule.validMin

theorem LimitRule.resolve_rises {rule : LimitRule Rat} (h : rule.Wide) (dynamic : Bool)
    (series : List (List (Option Rat))) : (rule.resolve dynamic series).Rises := by
  rw [resolve]
  split
  case isFalse => exact h.fixed
  case isTrue =>
    cases hlimits :
      dataLimits rule.validMin rule.validMax rule.minRange rule.ignoreZero series with
    | none => exact h.fixed
    | some r =>
      obtain ⟨_, _, _, hspan⟩ := holds_of_dataLimits h.minRange h.window.le hlimits
      exact sub_pos.mp (h.minRange.trans_le hspan)

/-! ### Bit loading -/

/-- The range for bit loading starts at zero and rises. -/
theorem bitsRange_rises {fixedTop minRange : Rat} (hfixed : 0 < fixedTop)
    (hmin : 0 < minRange) (dynamic : Bool) (series : List (List (Option Rat))) :
    (bitsRange fixedTop minRange dynamic series).bottom = 0 ∧
      (bitsRange fixedTop minRange dynamic series).Rises := by
  have hadd : (0 : Rat) < 0.75 := by norm_num
  have htop : 0 < (bitsRange fixedTop minRange dynamic series).top := by
    rw [bitsRange]
    dsimp only
    split
    case isFalse => exact hfixed
    case isTrue =>
      cases hbits : (bitsTop minRange series).filter fun top => top < fixedTop with
      | none => exact hfixed
      | some top =>
        obtain ⟨⟨low, high⟩, _, rfl⟩ :=
          Option.map_eq_some_iff.mp (Option.filter_eq_some_iff.mp hbits).1
        exact add_pos (lt_of_lt_of_le hmin (le_max_right _ _)) hadd
  have hbottom : (bitsRange fixedTop minRange dynamic series).bottom = 0 := Exact.zero_lit
  refine ⟨hbottom, ?_⟩
  rw [AxisRange.Rises, hbottom]
  exact htop

end LineCharts
