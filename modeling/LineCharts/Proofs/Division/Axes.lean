/-
Axes divide by no zero, in exact arithmetic.

* `chooseStep_by` — the step is the same with any division, whatever the candidates: only
  positive ones are divided by;
* `AxisPlan.ticks_by`, `AxisPlan.fraction_by` — so are the ticks, and where a value lies;
* `LimitRule.resolve_by` — so is the range that follows the data;
* `LabelFormat.text_by` — so are the texts of ticks.
-/
import LineCharts.Axis.Plan
import LineCharts.Proofs.Axis.Step
import LineCharts.Proofs.Division.Paths

namespace LineCharts

open Exact (Division)

variable (d : Division)

/-! ### Steps -/

theorem labelBudget_by (pixels spacing : Rat) :
    @labelBudget Rat d.scalar pixels spacing = labelBudget pixels spacing := by
  by_cases h : (0.0 : Rat) < spacing
  · have hdiv := d.quotient_eq pixels spacing (Exact.zero_lit ▸ h).ne'
    unfold labelBudget
    show (if (decide ((0.0 : Rat) < spacing) && true) = true then
      max ((d.quotient pixels spacing).floor : Rat) 1.0 else 1.0) = _
    rw [hdiv]
    rfl
  · unfold labelBudget
    show (if (decide ((0.0 : Rat) < spacing) && true) = true then _ else (1.0 : Rat)) =
      if (decide ((0.0 : Rat) < spacing) && true) = true then _ else (1.0 : Rat)
    rw [decide_eq_false h, Bool.false_and]
    rfl

theorem stepFits_by (range budget : Rat) {step : Int} (h : 0 < step) :
    @stepFits Rat d.scalar range budget step = stepFits range budget step := by
  have hstep : (step : Rat) ≠ 0 := Int.cast_ne_zero.mpr h.ne'
  show decide (d.quotient range (step : Rat) ≤ budget) = _
  rw [d.quotient_eq _ _ hstep]
  rfl

/-- Doubling tests positive steps only. -/
theorem doubleUntil_congr {fits fits' : Int → Bool}
    (h : ∀ step, 0 < step → fits step = fits' step) (fuel : Nat) {step : Int}
    (hpos : 0 < step) :
    doubleUntil fits fuel step = doubleUntil fits' fuel step := by
  induction fuel generalizing step with
  | zero => rfl
  | succ fuel ih =>
    have htwice := saturate_double_pos hpos
    rw [doubleUntil, doubleUntil, h _ htwice, ih htwice]

/-- **The chosen step is the same with any division.** -/
theorem chooseStep_by (steps : List Int) (range pixels spacing : Rat) :
    @chooseStep Rat d.scalar steps range pixels spacing =
      chooseStep steps range pixels spacing := by
  have hfits : ∀ step, 0 < step →
      @stepFits Rat d.scalar (@Scalar.abs Rat d.scalar range)
        (@labelBudget Rat d.scalar pixels spacing) step =
      stepFits (Scalar.abs range) (labelBudget pixels spacing) step := by
    intro step hstep
    rw [labelBudget_by, stepFits_by d _ _ hstep]
    rfl
  unfold chooseStep
  dsimp only
  generalize @stepFits Rat d.scalar _ _ = fits at hfits ⊢
  have hfind : (fun step : Int => decide (0 < step) && fits step) = fun step =>
      decide (0 < step) && stepFits (Scalar.abs range) (labelBudget pixels spacing) step := by
    funext step
    by_cases hstep : 0 < step
    · rw [hfits step hstep]
    · rw [decide_eq_false hstep, Bool.false_and, Bool.false_and]
  have hgreatest : 0 < greatestStep steps := greatestStep_pos steps
  rw [hfind, doubleUntil_congr hfits 64 hgreatest]
  rfl

/-! ### Ticks -/

theorem firstTick_by (start step : Rat) :
    @firstTick Rat d.scalar start step = firstTick start step := by
  show (if (0.0 : Rat) < step then ((d.quotient start step).ceil : Rat) * step + 0.0
    else if step < (0.0 : Rat) then ((d.quotient start (-step)).floor : Rat) * (-step) + 0.0
    else start) = if (0.0 : Rat) < step then ((start / step).ceil : Rat) * step + 0.0
    else if step < (0.0 : Rat) then ((start / -step).floor : Rat) * (-step) + 0.0 else start
  rw [Exact.zero_lit]
  split
  case isTrue h => rw [d.quotient_eq _ _ h.ne']
  case isFalse =>
    split
    case isTrue h => rw [d.quotient_eq _ _ (neg_ne_zero.mpr h.ne)]
    case isFalse => rfl

namespace AxisPlan

theorem ticks_by (axis : AxisPlan Rat) (step : Int) :
    @ticks Rat d.scalar axis step = axis.ticks step := by
  have hfirst : ∀ step, @firstTick Rat d.scalar axis step = axis.firstTick step :=
    fun step => congrArg Exact.toInt (firstTick_by d axis.labelStart step)
  unfold ticks
  dsimp only
  rw [hfirst]

theorem fraction_by (axis : AxisPlan Rat) (value : Rat) :
    @fraction Rat d.scalar axis value = axis.fraction value := by
  show (if ((axis.range.span == (0.0 : Rat)) || false) = true then (0.0 : Rat)
    else d.quotient (value - axis.range.bottom) axis.range.span) =
    if ((axis.range.span == (0.0 : Rat)) || false) = true then (0.0 : Rat)
    else (value - axis.range.bottom) / axis.range.span
  split
  case isTrue => rfl
  case isFalse h =>
    rw [Bool.or_false, beq_iff_eq, Exact.zero_lit] at h
    exact d.quotient_eq _ _ h

/-- An axis of the same range. -/
theorem ofRange_by {range range' : AxisRange Rat} (h : range = range') (steps : List Int)
    (digits : Rat) (format : LabelFormat) :
    @ofRange Rat d.scalar range steps digits format = ofRange range' steps digits format := by
  rw [h]
  rfl

end AxisPlan

/-! ### Ranges -/

theorem AxisRange.span_by (range : AxisRange Rat) :
    @AxisRange.span Rat d.scalar range = range.span := rfl

theorem limitsAround_by (validMin validMax minRange low high : Rat) :
    @limitsAround Rat d.scalar validMin validMax minRange low high =
      limitsAround validMin validMax minRange low high := by
  have hwidened : ∀ bottom top missing below above : Rat,
      (if (0.0 : Rat) < missing then
        if (0.0 : Rat) < below + above then
          (⟨bottom - missing * d.quotient below (below + above),
            top + missing * d.quotient above (below + above)⟩ : AxisRange Rat)
        else ⟨bottom - d.quotient missing 2.0, top + d.quotient missing 2.0⟩
      else ⟨bottom, top⟩) =
      if (0.0 : Rat) < missing then
        if (0.0 : Rat) < below + above then
          ⟨bottom - missing * (below / (below + above)),
            top + missing * (above / (below + above))⟩
        else ⟨bottom - missing / 2.0, top + missing / 2.0⟩
      else ⟨bottom, top⟩ := by
    intro bottom top missing below above
    -- a room is divided by only if there is one
    by_cases hroom : (0.0 : Rat) < below + above
    · rw [d.quotient_eq _ _ (Exact.zero_lit ▸ hroom).ne',
        d.quotient_eq _ _ (Exact.zero_lit ▸ hroom).ne', d.quotient_two]
    · rw [if_neg hroom, if_neg hroom, d.quotient_two]
  exact congrArg (fun r : AxisRange Rat =>
    (⟨max r.bottom validMin, min r.top validMax⟩ : AxisRange Rat))
      (hwidened (low - max (high - low) minRange * (0.1 : Rat))
      (high + max (high - low) minRange * (0.1 : Rat)) (minRange - (high - low)) _ _)

theorem LimitRule.resolve_by (rule : LimitRule Rat) (dynamic : Bool)
    (series : List (List (Option Rat))) :
    @resolve Rat d.scalar rule dynamic series = rule.resolve dynamic series := by
  have hlimits : ∀ validMin validMax minRange ignoreZero,
      @dataLimits Rat d.scalar validMin validMax minRange ignoreZero series =
        dataLimits validMin validMax minRange ignoreZero series := by
    intro validMin validMax minRange ignoreZero
    unfold dataLimits
    simp only [limitsAround_by]
    rfl
  unfold resolve
  rw [hlimits]

/-! ### Texts -/

namespace LabelFormat

theorem quotient_by (places : Nat) (n : Int) {m : Int} (hm : m ≠ 0) :
    @quotient Rat d.scalar places n m = quotient Rat places n m := by
  have hm' : (m : Rat) ≠ 0 := Int.cast_ne_zero.mpr hm
  exact congrArg (Exact.places places) (d.quotient_eq _ _ hm')

theorem frequencyText_by (khz : Int) :
    @frequencyText Rat d.scalar khz = frequencyText Rat khz := by
  unfold frequencyText
  rw [quotient_by d _ _ (by decide), quotient_by d _ _ (by decide)]

theorem durationText_by (minutes step : Int) :
    @durationText Rat d.scalar minutes step = durationText Rat minutes step := by
  unfold durationText
  rw [quotient_by d _ _ (by decide), quotient_by d _ _ (by decide)]

theorem scaledText_by (value : Int) {scale : Int} (h : scale ≠ 0) (unit : String) :
    @scaledText Rat d.scalar value scale unit = scaledText Rat value scale unit := by
  unfold scaledText
  rw [quotient_by d _ _ h, quotient_by d _ _ h]

/-- **The texts of ticks are the same with any division.** -/
theorem text_by (format : LabelFormat) (value step last : Int) :
    @text Rat d.scalar format value step last = text Rat format value step last := by
  cases format with
  | integer => rfl
  | frequency => exact frequencyText_by d value
  | duration => exact durationText_by d value step
  | count =>
    show @countText Rat d.scalar value last = countText Rat value last
    unfold countText
    rw [scaledText_by d _ (by decide), scaledText_by d _ (by decide)]

end LabelFormat

end LineCharts
