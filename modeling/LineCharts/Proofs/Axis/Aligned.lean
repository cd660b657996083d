/-
Axes with a tick at each multiple of the step, in exact arithmetic and in doubles.

* `AxisPlan.Aligned` — the ticks are the multiples of the step, large words fit as steps, and
  quotients of the ticks are written to less than a unit of the last place;
* `AxisPlan.aligned_exact` — so they are on an axis of rationals within `2 ^ 62`;
* `AxisPlan.FromZero.aligned`, `AxisPlan.aligned_downward` — and on an axis of doubles that
  leads from zero, or down to it, and is not longer than `3 * 2 ^ 52`;
* `aligned_frequencyAxis`, `ErrorReport.aligned_timeAxis`, `ErrorReport.aligned_countAxis` —
  the axes of frequencies, times and counts are like this in exact arithmetic, and in doubles
  by the lemmas that end in `_double`.

Design notes.  In doubles the first tick of such an axis is zero, and the others are counted
from there in integers, so no tick is rounded.
-/
import LineCharts.Chart.ErrorReport
import LineCharts.Proofs.Axis.Labels
import LineCharts.Proofs.Axis.LeastStep
import LineCharts.Proofs.Axis.Ticks
import LineCharts.Proofs.Double.Negation

namespace LineCharts

/-- The ticks are the multiples of the step among the values that may have one.  There are
candidates for the step, which leave room for doublings, and large words always fit.
Quotients of the ticks are written closely. -/
structure AxisPlan.Aligned {α : Type} [Scalar α] (axis : AxisPlan α) : Prop where
  steps : axis.steps ≠ [] ∧ ∀ s ∈ axis.steps, 0 < s ∧ s < 2 ^ 62
  mem_ticks : ∀ {step v : Int}, 0 < step → step ≤ Scalar.maxInt64 →
    (v ∈ axis.ticks step ↔ step ∣ v ∧ axis.labelStart ≤ v ∧ v ≤ axis.labelEnd)
  large : ∀ (pixels spacing : α) (s : Int), 2 ^ 62 ≤ s → s ≤ Scalar.maxInt64 →
    stepFits (Scalar.abs axis.range.span) (labelBudget pixels spacing) s = true
  near : ∀ v, 2 ∣ v → axis.labelStart ≤ v → v ≤ axis.labelEnd → LabelFormat.Near α v

/-! ### Exact axes -/

theorem AxisPlan.aligned_exact {range : AxisRange Rat} (hlow : |range.low| ≤ 2 ^ 62)
    (hspan : |range.span| ≤ 2 ^ 62) {steps : List Int}
    (hsteps : steps ≠ [] ∧ ∀ s ∈ steps, 0 < s ∧ s < 2 ^ 62) (digits : Rat)
    (format : LabelFormat) :
    (ofRange range steps digits format).Aligned where
  steps := hsteps
  mem_ticks := mem_ticks_iff (labelStart_ofRange hlow steps digits format ▸ abs_ceil_le hlow)
  large pixels spacing s hs _ := by
    rw [Scalar.abs_eq]
    exact Exact.stepFits_of_large hspan pixels spacing hs
  near v _ _ _ := LabelFormat.near_exact v

/-! ### Axes of doubles -/

namespace Double

open Float.Model (UnpackedFloat Format)
open Float.Model.UnpackedFloat

variable {x : Float} {a : ℚ}

/-- The distance of a number from zero, taken from the other end. -/
theorem abs_zero_sub (hx : Plus (parts x)) (ha : amount (parts x) = a) :
    Scalar.abs (0.0 - x) = x := by
  rcases plus_cases hx ha with ⟨hxu, _⟩ | ⟨m, e, h, hxu, _⟩
  · obtain rfl : x = 0.0 := eq_zero_of_parts hxu
    decide
  · have hdiff : 0.0 - x = -x := by
      rw [sub_eq, parts_zero, hxu]
      show ofParts (.finite .negative m e h) = ofParts (parts x).neg
      rw [hxu]
      rfl
    rw [hdiff, Scalar.abs, if_pos (neg_lt_zero hxu)]
    exact neg_neg x

/-- A number up to a whole one has an amount up to there. -/
theorem exists_amount_le {n : Nat} (hx : Plus (parts x)) (hn : n ≤ 2 ^ 53)
    (hle : x ≤ ofNat n) :
    ∃ a : ℚ, amount (parts x) = a ∧ a ≤ n := by
  rw [le_iff_amount hx (rounds_ofNat n).plus, amount_ofNat hn] at hle
  obtain ⟨a, ha⟩ := WithTop.ne_top_iff_exists.1 (ne_top_of_le_ne_top WithTop.coe_ne_top hle)
  rw [← ha] at hle
  exact ⟨a, ha.symm, WithTop.coe_le_coe.1 hle⟩

end Double

open Double

namespace AxisPlan

variable {axis : AxisPlan Float} {T : ℚ}

theorem aligned_double (hsteps : axis.steps ≠ [] ∧ ∀ s ∈ axis.steps, 0 < s ∧ s < 2 ^ 62)
    (hstart : axis.labelStart = 0) (hend : axis.labelEnd ≤ 3 * 2 ^ 52)
    (hspan : Plus (parts (Scalar.abs axis.range.span)))
    (hT : amount (parts (Scalar.abs axis.range.span)) = T) (hle : T ≤ 2 ^ 62) :
    axis.Aligned where
  steps := hsteps
  mem_ticks hpos hword := by
    refine mem_ticks_of_firstTick hpos ?_
    rw [firstTick_of_labelStart hstart hpos hword, hstart]
    exact ⟨dvd_zero _, le_rfl, by omega⟩
  large pixels spacing s hs hword := stepFits_of_large hspan hT hle pixels spacing hs hword
  near v heven hlow hhigh := LabelFormat.near_double (hstart ▸ hlow) heven (hhigh.trans hend)

theorem FromZero.aligned (h : axis.FromZero) (hne : axis.steps ≠ [])
    (hT : amount (parts axis.range.top) = T) (hle : T ≤ 3 * 2 ^ 52) : axis.Aligned := by
  have hend : axis.labelEnd ≤ 3 * 2 ^ 52 := by
    rw [h.labelEnd_eq hT]
    refine (min_le_left _ _).trans (Int.floor_le_iff.mpr ?_)
    push_cast
    linarith
  have hsteps : ∀ s ∈ axis.steps, 0 < s ∧ s < 2 ^ 62 := by
    intro s hs
    have hbounds := h.steps s hs
    omega
  exact aligned_double ⟨hne, hsteps⟩ h.labelStart hend (h.span_eq ▸ h.top)
    (h.span_eq ▸ hT) (by linarith)

/-- An axis that leads down to zero. -/
theorem aligned_downward {top : Float} (htop : Plus (parts top)) (hT : amount (parts top) = T)
    (hle : T ≤ 3 * 2 ^ 52) {steps : List Int}
    (hsteps : steps ≠ [] ∧ ∀ s ∈ steps, 0 < s ∧ s < 2 ^ 62) (digits : Float)
    (format : LabelFormat) : (ofRange ⟨top, 0.0⟩ steps digits format).Aligned := by
  have hspan : Scalar.abs (ofRange ⟨top, 0.0⟩ steps digits format).range.span = top :=
    abs_zero_sub htop hT
  have hlabels : (ofRange ⟨top, 0.0⟩ steps digits format).labelStart = 0 ∧
      (ofRange ⟨top, 0.0⟩ steps digits format).labelEnd =
        Double.toInt (Double.floor top) := by
    have hceil : Double.toInt (Double.ceil 0.0) = 0 := by decide
    rw [ofRange]
    dsimp only
    split
    case isTrue hzero =>
      -- then the axis is one point
      have htop0 : top = 0.0 := by
        rw [le_iff_amount htop plus_zero] at hzero
        exact eq_of_amount htop plus_zero (le_antisymm hzero (parts_zero ▸ zero_le_amount _))
      rw [htop0]
      exact ⟨hceil, rfl⟩
    case isFalse => exact ⟨hceil, rfl⟩
  refine aligned_double hsteps hlabels.1 ?_ (by rwa [hspan]) (by rwa [hspan])
    (by linarith : T ≤ 2 ^ 62)
  rw [hlabels.2, toInt_floor htop hT]
  refine (min_le_left _ _).trans (Int.floor_le_iff.mpr ?_)
  push_cast
  linarith

end AxisPlan

/-! ### Axes of charts -/

theorem aligned_frequencyAxis {n : Nat} {spacing : Rat} (h : |n * spacing| ≤ 2 ^ 53) :
    (frequencyAxis n spacing).Aligned := by
  have htop : ((n : Int) : Rat) * spacing = n * spacing := by rw [Int.cast_natCast]
  obtain ⟨hlow, hhigh⟩ := abs_le.mp h
  refine AxisPlan.aligned_exact ?_ ?_ (by decide) _ _
  · show |min (0.0 : Rat) ((n : Int) * spacing)| ≤ 2 ^ 62
    rw [htop, Exact.zero_lit, abs_le]
    exact ⟨le_min (by norm_num) (by linarith), (min_le_left _ _).trans (by norm_num)⟩
  · show |((n : Int) : Rat) * spacing - 0.0| ≤ 2 ^ 62
    rw [htop, Exact.zero_lit, sub_zero]
    exact h.trans (by norm_num)

theorem aligned_frequencyAxis_double {n : Nat} (hn : n < 2 ^ 64) {spacing : Float}
    (hfinite : spacing.isFinite = true) (hpos : 0.0 < spacing)
    (hle : Scalar.ofNat n * spacing ≤ Scalar.ofNat (2 ^ 53)) :
    (frequencyAxis n spacing).Aligned := by
  have h := fromZero_frequencyAxis hn hfinite hpos
  obtain ⟨T, hT, hT'⟩ := exists_amount_le h.top (le_refl (2 ^ 53)) hle
  push_cast at hT'
  exact h.aligned (List.cons_ne_nil _ _) hT (by linarith)

namespace ErrorLog

/-- The periods cover a word of seconds. -/
theorem totalSeconds_bounds (log : ErrorLog) :
    1 ≤ log.totalSeconds ∧ log.totalSeconds ≤ Scalar.maxInt64 := by
  rw [totalSeconds]
  split
  case isTrue h =>
    simp only [Bool.and_eq_true, decide_eq_true_eq, Scalar.fitsInt64_iff] at h
    exact ⟨h.2, h.1.2.2⟩
  case isFalse => decide

theorem plus_totalMinutes (log : ErrorLog) : Plus (parts (log.totalMinutes : Float)) := by
  obtain ⟨hpos, hword⟩ := log.totalSeconds_bounds
  obtain ⟨s, hseconds, hs, _⟩ := amount_ofInt_step hpos hword
  have hsixty : (60.0 : Float) = Double.ofNat 60 := by decide
  have hrounds :=
    rounds_div hseconds.plus (rounds_ofNat 60).plus hs
      (amount_ofNat (by norm_num)) (by norm_num)
  rw [← hsixty] at hrounds
  exact hrounds.plus

end ErrorLog

namespace ErrorReport

theorem aligned_timeAxis {log : Option ErrorLog}
    (h : ∀ l ∈ log, (l.totalMinutes : Rat) ≤ 2 ^ 53) :
    (timeAxis log : AxisPlan Rat).Aligned := by
  obtain ⟨minutes, haxis, hnonneg, hle⟩ : ∃ minutes : Rat,
      timeAxis log = .ofRange ⟨minutes, 0.0⟩ timeSteps 5.5 .duration ∧ 0 ≤ minutes ∧
        minutes ≤ 2 ^ 53 := by
    cases log with
    | none => exact ⟨dayMinutes, rfl, by norm_num [dayMinutes], by norm_num [dayMinutes]⟩
    | some l =>
      refine ⟨l.totalMinutes, rfl, ?_, h l rfl⟩
      have hpos : (0 : Rat) ≤ l.totalSeconds :=
        Int.cast_nonneg (by have := l.totalSeconds_bounds; omega)
      show 0 ≤ (l.totalSeconds : Rat) / 60.0
      exact div_nonneg hpos (by norm_num)
  rw [haxis]
  refine AxisPlan.aligned_exact ?_ ?_ (by decide) _ _
  · show |Min.min minutes (0.0 : Rat)| ≤ 2 ^ 62
    rw [Exact.zero_lit, min_eq_right hnonneg]
    norm_num
  · show |0.0 - minutes| ≤ 2 ^ 62
    rw [Exact.zero_lit, zero_sub, abs_neg, abs_of_nonneg hnonneg]
    exact hle.trans (by norm_num)

theorem aligned_timeAxis_double {log : Option ErrorLog}
    (h : ∀ l ∈ log, (l.totalMinutes : Float) ≤ Scalar.ofNat (2 ^ 53)) :
    (timeAxis log : AxisPlan Float).Aligned := by
  obtain ⟨minutes, haxis, hplus, hle⟩ : ∃ minutes : Float,
      timeAxis log = .ofRange ⟨minutes, 0.0⟩ timeSteps 5.5 .duration ∧ Plus (parts minutes) ∧
        minutes ≤ Scalar.ofNat (2 ^ 53) := by
    cases log with
    | none =>
      have hday : (dayMinutes : Float) = Double.ofNat 1440 := by decide
      exact ⟨dayMinutes, rfl, hday ▸ (rounds_ofNat 1440).plus, by decide +kernel⟩
    | some l => exact ⟨l.totalMinutes, rfl, l.plus_totalMinutes, h l rfl⟩
  obtain ⟨T, hT, hT'⟩ := exists_amount_le hplus (le_refl (2 ^ 53)) hle
  push_cast at hT'
  rw [haxis]
  exact AxisPlan.aligned_downward hplus hT (by linarith) (by decide) _ _

theorem greatest_le {n : Nat} (h : n ≤ 2 ^ 53) : Max.max n minCount ≤ 2 ^ 53 :=
  Nat.max_le.mpr ⟨h, by decide⟩

theorem aligned_countAxis (report : ErrorReport Rat) {log : Option ErrorLog}
    (h : report.greatestCount log ≤ 2 ^ 53) :
    (report.countAxis log).Aligned ∧ (report.countAxis log).labelStart = 0 := by
  obtain ⟨top, haxis, hnonneg, hle⟩ : ∃ top : Rat,
      report.countAxis log = .ofRange ⟨0.0, top⟩ countSteps 5.0 .count ∧ 0 ≤ top ∧
        top ≤ 2 ^ 62 := by
    have hgreatest :
        ((Max.max (report.greatestCount log) minCount : Nat) : Rat) ≤ 2 ^ 53 := by
      exact_mod_cast greatest_le h
    have hroom : (headroom : Rat) ≤ 2 := by norm_num [headroom]
    have hpos : (0 : Rat) ≤ headroom := by norm_num [headroom]
    refine ⟨_, rfl, mul_nonneg hpos (Nat.cast_nonneg _), ?_⟩
    calc (headroom : Rat) * ((Max.max (report.greatestCount log) minCount : Nat) : Rat)
        ≤ 2 * 2 ^ 53 := by gcongr
      _ ≤ 2 ^ 62 := by norm_num
  have hlow : (⟨0.0, top⟩ : AxisRange Rat).low = 0 := by
    rw [AxisRange.low, Exact.zero_lit, min_eq_left hnonneg]
  have hlow' : |(⟨0.0, top⟩ : AxisRange Rat).low| ≤ 2 ^ 62 := by
    rw [hlow]
    norm_num
  rw [haxis]
  refine ⟨AxisPlan.aligned_exact hlow' ?_ (by decide) _ _, ?_⟩
  · show |top - 0.0| ≤ 2 ^ 62
    rwa [Exact.zero_lit, sub_zero, abs_of_nonneg hnonneg]
  · rw [AxisPlan.labelStart_ofRange hlow', hlow, Int.ceil_zero]

/-- The room above the greatest count, as the nearest double. -/
theorem parts_headroom :
    ∃ h, parts headroom = .finite .positive 4728779608739021 (-52) h := by
  have hroom : (headroom : Float) =
      ofParts (.finite .positive 4728779608739021 (-52) (by decide)) := by
    decide
  have hregular : Regular (.finite .positive 4728779608739021 (-52) (by decide)) :=
    ⟨by norm_num, by norm_num, .inl (by norm_num)⟩
  refine ⟨by decide, ?_⟩
  rw [hroom, parts_ofParts hregular]
  rfl

theorem aligned_countAxis_double (report : ErrorReport Float) {log : Option ErrorLog}
    (h : report.greatestCount log ≤ 2 ^ 53) :
    (report.countAxis log).Aligned ∧ (report.countAxis log).labelStart = 0 := by
  obtain ⟨hpos, hroom⟩ := parts_headroom
  have hplus : Plus (parts headroom) := by
    rw [hroom]
    rfl
  have hamount : amount (parts headroom) =
      ((4728779608739021 * 2 ^ (-52 : Int) : ℚ) : WithTop ℚ) := by
    rw [hroom]
    norm_num [amount]
  have hgreatest := greatest_le h
  have htop := rounds_mul hplus (rounds_ofNat _).plus hamount (amount_ofNat hgreatest)
  have hheld : Representable ((3 * 2 ^ 52 : Nat) : ℚ) :=
    representable_mul_pow (by norm_num) (by norm_num)
  have hgreatest' : ((Max.max (report.greatestCount log) minCount : Nat) : ℚ) ≤ 2 ^ 53 := by
    exact_mod_cast hgreatest
  obtain ⟨T, hT, hle⟩ := htop.exists_amount hheld (by
    calc (4728779608739021 * 2 ^ (-52 : Int) : ℚ) *
          (Max.max (report.greatestCount log) minCount : Nat)
        ≤ 4728779608739021 * 2 ^ (-52 : Int) * 2 ^ 53 := by gcongr
      _ ≤ ((3 * 2 ^ 52 : Nat) : ℚ) := by norm_num)
  have haxis : (report.countAxis log).FromZero := fromZero_ofRange htop.plus (by decide) _ _
  exact ⟨haxis.aligned (List.cons_ne_nil _ _) hT (hle.trans (by norm_num)), haxis.labelStart⟩

end ErrorReport

end LineCharts
