/-
What the ranges of the charts along the carriers hold, and what is drawn in
them, in exact arithmetic.

* `dataLimits_holds` — a range that follows the data holds all samples that count, and the
  least span; the windows of the charts are wide enough for this;
* `Trace.FillScale.Shows` — a sample stands in a run of an area; `Trace.FillScale.shows_iff` —
  it does if it is drawn;
* `Carriers.commands_areaPath` — what is drawn of both directions are the
  outlines of these runs;
* `SignalToNoise.Sinks`, `SignalToNoise.bottom_neg_iff` — around which data a
  range starts below zero;
* `SignalToNoise.bottom_rangeOf_neg_iff` — so it does only if it follows such data;
* `SignalToNoise.shown_measured_iff` — so all that the areas show was measured, unless the
  range sinks below a zero.

Design notes.  An area has a filter of its own: the window of the rule, and the bottom
of the range.  In the fixed range, which starts at zero, this leaves out the zeros
that the rule ignores.
-/
import LineCharts.Chart.Characteristic
import LineCharts.Chart.LineNoise
import LineCharts.Chart.SignalToNoise
import LineCharts.Proofs.Chart.Valid
import LineCharts.Proofs.Trace.Fill

namespace LineCharts

open Trace (sampleAt segments IsMaximal)

/-! ### Ranges hold their data -/

section

variable {validMin validMax minRange : Rat}

/-- **A range that follows the data holds it.**  There is one exactly if a sample counts, and
then it lies in the window, holds all samples that count, and has the least span.  The windows
of the charts are wide enough. -/
theorem dataLimits_holds (hmin : 0 < minRange) (hwide : 1.2 * minRange ≤ validMax - validMin)
    (ignoreZero : Bool) (series : List (List (Option Rat))) :
    let counted := countedSamples validMin validMax ignoreZero series
    (dataLimits validMin validMax minRange ignoreZero series = none ↔ counted = ∅) ∧
    (counted.Nonempty → ∃ r, dataLimits validMin validMax minRange ignoreZero series =
      some r ∧ validMin ≤ r.bottom ∧ (∀ v ∈ counted, r.bottom ≤ v ∧ v ≤ r.top) ∧
      r.top ≤ validMax ∧
      minRange ≤ r.span) ∧
    ∀ rule ∈ [SignalToNoise.limits, LineNoise.limits, Characteristic.limits],
      (0 : Rat) < rule.minRange ∧ 1.2 * rule.minRange ≤ rule.validMax - rule.validMin := by
  intro counted
  refine ⟨dataLimits_eq_none_iff, fun hsome => ?_, ?_⟩
  · cases hr : dataLimits validMin validMax minRange ignoreZero series with
    | none => exact absurd (dataLimits_eq_none_iff.mp hr) hsome.ne_empty
    | some r => exact ⟨r, rfl, holds_of_dataLimits hmin hwide hr⟩
  · have hwindow {rule : LimitRule Rat} (h : rule.Wide) :
        0 < rule.minRange ∧ 1.2 * rule.minRange ≤ rule.validMax - rule.validMin :=
      ⟨h.minRange, h.window.le⟩
    simp only [List.forall_mem_cons, List.not_mem_nil, IsEmpty.forall_iff,
      implies_true, and_true]
    exact ⟨hwindow SignalToNoise.wide_limits, hwindow LineNoise.wide_limits,
      hwindow Characteristic.wide_limits⟩

/-- One sample at the edge of a window, beside a zero and a sample outside. -/
theorem dataLimits_holds_edge :
    let series : List (List (Option Rat)) := [[some 94, some 0, none], [some 200]]
    (0 : Rat) < 20 ∧ 1.2 * 20 ≤ (95 : Rat) - -32 ∧ 94 ∈ countedSamples (-32) 95 true series ∧
      ∃ r, dataLimits (-32) 95 20 true series = some r ∧ -32 ≤ r.bottom ∧
        (r.bottom ≤ 94 ∧ 94 ≤ r.top) ∧ r.top ≤ 95 ∧ 20 ≤ r.span := by
  intro series
  have hmin : (0 : Rat) < 20 := by norm_num
  have hwide : 1.2 * 20 ≤ (95 : Rat) - -32 := by norm_num
  have hmem : 94 ∈ countedSamples (-32) 95 true series :=
    mem_countedSamples.mpr (by decide +kernel)
  obtain ⟨r, hr, hbottom, hsamples, htop, hspan⟩ :=
    (dataLimits_holds hmin hwide true series).2.1 ⟨94, hmem⟩
  exact ⟨hmin, hwide, hmem, r, hr, hbottom, hsamples 94 hmem, htop, hspan⟩

end

/-! ### What an area shows -/

namespace Trace.FillScale

variable {scale : FillScale Rat} {samples : List (Option Rat)} {v : Rat}

variable (scale samples v) in
/-- A run of the area holds the sample. -/
def Shows : Prop :=
  ∃ a b i, IsMaximal (scale.drawsAt (sampleAt samples)) (fun _ => false) samples.length a b ∧
    a ≤ i ∧ i < b ∧ sampleAt samples i = some v

/-- **A sample is shown if it is drawn.** -/
theorem shows_iff : scale.Shows samples v ↔ some v ∈ samples ∧ scale.draws v = true := by
  constructor
  · rintro ⟨a, b, i, hmax, hai, hib, hi⟩
    have hdraws := hmax.all i hai hib
    rw [(scale.drawsAt_of_eq hi).1] at hdraws
    exact ⟨exists_sampleAt_iff.mp ⟨i, hi⟩, hdraws⟩
  · rintro ⟨hmem, hdraws⟩
    obtain ⟨i, hi⟩ := exists_sampleAt_iff.mpr hmem
    obtain ⟨a, b, hrun, hai, hib⟩ :=
      @Trace.exists_mem_segments _ (fun _ => false) _ _ (lt_of_sampleAt hi)
        ((scale.drawsAt_of_eq hi).1.trans hdraws)
    exact ⟨a, b, i, Trace.mem_segments.mp hrun, hai, hib, hi⟩

end Trace.FillScale

namespace Carriers

open Trace (area corners polygon)

/-- The outlines of the runs of one direction. -/
def outlines (unit : Rat) (series : CarrierSeries Rat) (scale : Trace.FillScale Rat) :
    List (PathCommand Rat) :=
  (segments (scale.drawsAt (sampleAt series.samples)) (fun _ => false)
    series.samples.length).flatMap fun run =>
    polygon (corners unit (area (sampleAt series.samples)
      (max series.groupSize 1 : Nat) (scale.heightAt (sampleAt series.samples)) run.1 run.2))

theorem commands_fill_outlines (path : Path Rat) (series : CarrierSeries Rat)
    (scale : Trace.FillScale Rat) : (Trace.fill path series scale).commands.toList =
      path.commands.toList ++ outlines path.unit series scale := by
  rw [Trace.fill_eq_areas]
  exact Trace.commands_areas _ _ _ path _

/-- **What is drawn of both directions** are the outlines of their runs. -/
theorem commands_areaPath (series : PerDirection (CarrierSeries Rat))
    (scale : Trace.FillScale Rat) :
    (areaPath series scale).commands.toList =
      outlines 10 series.down scale ++ outlines 10 series.up scale := by
  have hunit : (Path.withPrecision precision : Path Rat).unit = 10 := by
    show (Scalar.tenPow 1 : Rat) = 10
    rw [Scalar.tenPow_eq, zpow_one]
  rw [areaPath, commands_fill_outlines, commands_fill_outlines, Trace.unit_fill, hunit]
  rfl

/-- A sample that is drawn lies in the window, so the rule ignores it only if it equals
zero, in any numbers. -/
theorem countsFor_of_draws {α : Type} [Scalar α] (rule : LimitRule α) (plot : Rect α)
    (range : AxisRange α) {v : α} (h : (areaScale rule plot range).draws v = true) :
    countsFor rule.validMin rule.validMax rule.ignoreZero v =
      !(rule.ignoreZero && v == 0.0) := by
  have hwindow : Scalar.within rule.validMin rule.validMax v = true :=
    (Bool.and_eq_true_iff.mp h).2
  rw [countsFor, hwindow, Bool.true_and]

end Carriers

/-! ### Signal-to-noise ratio -/

namespace SignalToNoise

/-- The range around data between these ends starts below zero. -/
def Sinks (low high : Rat) : Prop :=
  if high - low < 20 then 71 * low + 32 * high < 846 else 11 * low < high

/-- **A range starts below zero** if the data does so, or lies close enough to zero for its
margin and its share of the span that is missing. -/
theorem bottom_neg_iff (low high : Rat) :
    (limitsAround (-32) 95 20 low high).bottom < 0 ↔ Sinks low high := by
  rw [limitsAround_eq]
  show max _ (-32 : Rat) < 0 ↔ _
  rw [max_lt_iff, and_iff_left (by norm_num)]
  unfold widened Sinks
  extract_lets margin missing below above
  by_cases h : high - low < 20
  · have hmargin : margin = 20 / 10 := congrArg (· / 10) (max_eq_right h.le)
    have hmissing : missing = 20 - (high - low) := rfl
    have hbelow : below = low - margin - -32 := rfl
    have habove : above = 95 - (high + margin) := rfl
    have hroom : below + above = 123 - (high - low) := by linarith
    have hpos : 0 < below + above := by linarith
    rw [if_pos (sub_pos.mpr h), if_pos h]
    show low - margin - share missing below (below + above) < 0 ↔ _
    rw [share, if_pos hpos, sub_neg, ← mul_div_assoc, lt_div_iff₀ hpos, hroom, hbelow,
      hmissing, hmargin]
    constructor <;> intro hlt <;> linarith
  · have hmargin : margin = (high - low) / 10 := congrArg (· / 10) (max_eq_left (not_lt.mp h))
    have hnone : ¬ 0 < missing := not_lt.mpr (sub_nonpos.mpr (not_lt.mp h))
    rw [if_neg hnone, if_neg h]
    show low - margin < 0 ↔ _
    rw [hmargin]
    constructor <;> intro hlt <;> linarith

theorem validMin_eq : (limits : LimitRule Rat).validMin = -32 := by
  norm_num [limits, Trace.snrValidMin]

theorem validMax_eq : (limits : LimitRule Rat).validMax = 95 := by
  norm_num [limits, Trace.snrValidMax]

theorem minRange_eq : (limits : LimitRule Rat).minRange = 20 := by
  norm_num [limits]

theorem bottom_fixed : (limits : LimitRule Rat).fixed.bottom = 0 := Exact.zero_lit

/-- The rule counts the sample. -/
def Measured (v : Rat) : Prop :=
  countsFor (limits : LimitRule Rat).validMin (limits : LimitRule Rat).validMax
    (limits : LimitRule Rat).ignoreZero v = true

theorem measured_iff {v : Rat} : Measured v ↔ (-32 ≤ v ∧ v ≤ 95) ∧ v ≠ 0 := by
  rw [Measured, countsFor_iff, validMin_eq, validMax_eq]
  exact and_congr_right' ⟨fun h => h rfl, fun h _ => h⟩

section

variable (bins : Bins Rat) (history : Option (History Rat)) (dynamic : Bool) (plot : Rect Rat)

/-- The range of the vertical axis. -/
def rangeOf : AxisRange Rat := limits.resolve dynamic (Data.samples ⟨some bins, history⟩)

/-- The heights of the areas on a plot. -/
def scaleOf : Trace.FillScale Rat :=
  Carriers.areaScale limits plot (rangeOf bins history dynamic)

/-- A run of one of both areas holds the sample. -/
def Shown (v : Rat) : Prop :=
  (scaleOf bins history dynamic plot).Shows bins.snr.down.samples v ∨
    (scaleOf bins history dynamic plot).Shows bins.snr.up.samples v

/-- The samples that count for the range. -/
def counted : Set Rat := countedSamples (-32) 95 true (Data.samples ⟨some bins, history⟩)

/-- Some direction has a zero, the range follows the data, and starts below zero. -/
def SinksBelowZero : Prop :=
  (some 0 ∈ bins.snr.down.samples ∨ some 0 ∈ bins.snr.up.samples) ∧ dynamic = true ∧
    ∃ low high, IsLeast (counted bins history) low ∧ IsGreatest (counted bins history) high ∧
      Sinks low high

/-- **The range starts below zero** only if it follows such data. -/
theorem bottom_rangeOf_neg_iff : (rangeOf bins history dynamic).bottom < 0 ↔ dynamic = true ∧
    ∃ low high, IsLeast (counted bins history) low ∧ IsGreatest (counted bins history) high ∧
      Sinks low high := by
  rw [rangeOf, LimitRule.resolve, validMin_eq, validMax_eq, minRange_eq]
  cases dynamic with
  | false => simp [bottom_fixed]
  | true =>
    rw [if_pos rfl, eq_self_iff_true, true_and]
    cases hr : dataLimits (-32 : Rat) 95 20 (limits : LimitRule Rat).ignoreZero
        (Data.samples ⟨some bins, history⟩) with
    | none =>
      have hnone : counted bins history = ∅ := dataLimits_eq_none_iff.mp hr
      rw [Option.getD_none, bottom_fixed, hnone]
      constructor
      · exact fun h => absurd h (lt_irrefl 0)
      · rintro ⟨low, high, hlow, _, _⟩
        exact absurd hlow.1 (Set.notMem_empty low)
    | some r =>
      obtain ⟨low, high, hlow, hhigh, rfl⟩ := exists_of_dataLimits hr
      rw [Option.getD_some, bottom_neg_iff]
      constructor
      · exact fun h => ⟨low, high, hlow, hhigh, h⟩
      · rintro ⟨low', high', hlow', hhigh', h⟩
        rwa [hlow.unique hlow', hhigh.unique hhigh']

/-- What is shown lies above the bottom of the range, in the window. -/
theorem shown_iff {v : Rat} : Shown bins history dynamic plot v ↔
    (some v ∈ bins.snr.down.samples ∨ some v ∈ bins.snr.up.samples) ∧
      (rangeOf bins history dynamic).bottom < v ∧ -32 ≤ v ∧ v ≤ 95 := by
  rw [Shown, Trace.FillScale.shows_iff, Trace.FillScale.shows_iff, Trace.FillScale.draws_iff,
    ← or_and_right, ← validMin_eq, ← validMax_eq]
  rfl

/-- **All that the areas show was measured, unless the range sinks below a zero.**  What is
drawn are the outlines of the runs of both directions.  No sample outside the window is shown.
A zero, which was not measured, is shown if the range follows the data and starts below zero;
in the fixed range it never is.  Nor do doubles draw anything else that the rule ignores. -/
theorem shown_measured_iff :
    (Carriers.areaPath bins.snr (scaleOf bins history dynamic plot)).commands.toList =
      Carriers.outlines 10 bins.snr.down (scaleOf bins history dynamic plot) ++
        Carriers.outlines 10 bins.snr.up (scaleOf bins history dynamic plot) ∧
    (∀ v, Shown bins history dynamic plot v → -32 ≤ v ∧ v ≤ 95) ∧
    ((∀ v, Shown bins history dynamic plot v → Measured v) ↔
      ¬ SinksBelowZero bins history dynamic) ∧
    ∀ (plot : Rect Float) (range : AxisRange Float) (v : Float),
      (Carriers.areaScale limits plot range).draws v = true →
        countsFor (limits : LimitRule Float).validMin (limits : LimitRule Float).validMax true
          v = !(v == 0.0) := by
  refine ⟨Carriers.commands_areaPath bins.snr _, ?_, ?_, ?_⟩
  · intro v hv
    exact ((shown_iff bins history dynamic plot).mp hv).2.2
  · have hzero : SinksBelowZero bins history dynamic ↔ Shown bins history dynamic plot 0 := by
      rw [SinksBelowZero, ← bottom_rangeOf_neg_iff, shown_iff]
      norm_num
    rw [hzero]
    constructor
    · intro h hshown
      exact (measured_iff.mp (h 0 hshown)).2 rfl
    · intro h v hv
      exact measured_iff.mpr ⟨((shown_iff bins history dynamic plot).mp hv).2.2,
        fun hv0 => h (hv0 ▸ hv)⟩
  · intro plot range v hv
    exact Carriers.countsFor_of_draws limits plot range hv

end

/-- **A zero between two small samples is drawn** as soon as the range follows the data. -/
theorem not_measured_sinking :
    let bins : Bins Rat :=
      { Bins.empty with binCount := 3, snr := ⟨⟨1, [some 5, some 0, some 5]⟩, .empty⟩ }
    (rangeOf bins none true).bottom = -331 / 123 ∧ Shown bins none true ⟨0, 0, 3, 24⟩ 0 ∧
      ¬ ∀ v, Shown bins none true ⟨0, 0, 3, 24⟩ v → Measured v := by
  intro bins
  have hbottom : (rangeOf bins none true).bottom = -331 / 123 := by decide +kernel
  have hshown : Shown bins none true ⟨0, 0, 3, 24⟩ 0 := by
    refine (shown_iff bins none true _).mpr ⟨.inl (by simp [bins]), ?_,
      by norm_num, by norm_num⟩
    rw [hbottom]
    norm_num
  exact ⟨hbottom, hshown, fun h => (measured_iff.mp (h 0 hshown)).2 rfl⟩

end SignalToNoise

end LineCharts
