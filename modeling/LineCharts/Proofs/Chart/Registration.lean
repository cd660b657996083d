/-
Axes and data of a chart agree on where a value is, in exact arithmetic.

* `ChartKind.layout` — the layout of a new chart; `Chart.frame_new` —
  its frame is drawn on it;
* `Layout.dataX` — where the data of a chart has its first coordinate;
* `ChartKind.RegisteredX` — ticks of the horizontal axis are where the data has the coordinate
  of their value, and data is painted at no other coordinates;
* `ChartKind.RegisteredY` — a sample that is drawn and equal to the value of a tick is
  drawn as high as the tick;
* `ChartKind.registeredX_of` — a horizontal axis is registered, by what is to the
  left of ticks and data;
* `BitLoading.registeredX`, `ChartKind.Ruled.registeredX`, `SignalToNoise.registeredX`,
  `ErrorReport.registeredX` — the horizontal axes;
* `BitLoading.registeredY`, `Carriers.registeredY_area` — steps and areas;
* `Chart.registered_kinds` — all kinds.

Design notes.  Ticks are brought to whole pixels and moved by half a line; areas are rounded
to a tenth.  Nothing else is between both ways to compute a place.
-/
import LineCharts.Proofs.Chart.Valid
import LineCharts.Proofs.Frame.Drawings
import LineCharts.Proofs.Layout.Ticks
import LineCharts.Proofs.Trace.Fill
import LineCharts.Proofs.Trace.Steps

namespace LineCharts

open Layout (tickX tickY)
open Trace (sampleAt TopsAt)

variable {δ : Type}

/-! ### Layouts of new charts -/

section

variable {α : Type} [Scalar α]

/-- The layout of a new chart. -/
def ChartKind.layout (kind : ChartKind α δ) (params : Params α) (data : δ)
    (measure : TextMeasure α) :
    Layout α :=
  .compute params.normalize (kind.xAxis data) (kind.yAxis data params.dynamic)
    (if params.legend then some (kind.legend data) else none) measure

/-- **The frame of a new chart is drawn on its layout.** -/
theorem Chart.frame_new (kind : ChartKind α δ) {params : Params α}
    (h : params.viewport.isValid = true) (data : δ) (measure : TextMeasure α) :
    ((Chart.new kind params data).frame measure).2 =
      (kind.layout params data measure).drawn (kind.paint data)
        (kind.yAxis data params.dynamic).range := by
  -- both axes are the ones that a new sheet starts with
  have hnew : Chart.new kind params data =
      ⟨{ Sheet.new params (kind.xAxis data) (kind.yAxis data params.dynamic)
        (kind.legend data) with
          shape := some ⟨(kind.extent data).1, (kind.extent data).2, params.dynamic⟩ },
            data⟩ := by
    show
      (⟨(({ Sheet.new params (kind.xAxis data) (kind.yAxis data params.dynamic)
      (kind.legend data) with
      shape := some _ } : Sheet α).setXAxis (kind.xAxis data)).setYAxis
        (kind.yAxis data params.dynamic), data⟩ : Chart kind) = _
    rw [Sheet.setXAxis]
    split <;> rw [Sheet.setYAxis] <;> split <;> rfl
  rw [hnew, frame_eq h]
  rfl

end

/-! ### Horizontal axes -/

/-- Where the data of a layout has its first coordinate, for so many carriers or periods. -/
def Layout.dataX (layout : Layout Rat) (count : Nat) (x : Rat) : Rat :=
  layout.plot.x + layout.scaleX count * x

theorem Layout.scaleX_eq (layout : Layout Rat) {count : Nat} (hcount : 1 ≤ count) :
    layout.scaleX count = layout.plot.width / count := by
  rw [scaleX, max_eq_left hcount]
  rfl

/-- What is behind the data, or has the coordinates of the data. -/
def Layout.Painted (layout : Layout Rat) (count : Nat) (behind : Frame Rat)
    (d : Drawing Rat) : Prop :=
  d ∈ behind.drawings.toList ∨ d.PlacesX (layout.dataX count)

/-- On every plot with an area, the tick of a value is drawn where the data has the
coordinate of the value, up to half a line and half a pixel.  All that is painted, but what
is painted behind the data, has its coordinates there.  The layout is the one that the frame
of a new chart is drawn on. -/
def ChartKind.RegisteredX (kind : ChartKind Rat δ) (data : δ) (count : Nat)
    (coordinate : Int → Rat) (behind : Layout Rat → Frame Rat → Frame Rat) : Prop :=
  ∀ (params : Params Rat) (measure : TextMeasure Rat),
    let layout := kind.layout params data measure
    layout.plot.isDegenerate = false →
      (params.viewport.isValid = true → ((Chart.new kind params data).frame measure).2 =
        layout.drawn (kind.paint data) (kind.yAxis data params.dynamic).range) ∧
      layout.Marked (kind.xAxis data) (kind.yAxis data params.dynamic) ∧
      (∀ value, |tickX layout.metrics layout.plot (kind.xAxis data) value -
        layout.dataX count (coordinate value)| ≤ layout.metrics.stroke / 2 + 1 / 2) ∧
      ∀ (range : AxisRange Rat) (frame : Frame Rat),
        (kind.paint data layout range frame).All (layout.Painted count (behind layout frame))

theorem Layout.Metrics.stroke_nonneg (params : Params Rat) :
    0 ≤ (Metrics.of params).stroke := by
  rw [Metrics.of]
  split <;> exact (stroke_pos _).le

/-- A tick is where the data has its value, if both have the same part of the
plot to their left. -/
theorem Layout.abs_tickX_sub_le {layout : Layout Rat} (hstroke : 0 ≤ layout.metrics.stroke)
    {axis : AxisPlan Rat} {count : Nat} {value : Int} {x : Rat}
    (h : layout.plot.width * axis.fraction value = layout.scaleX count * x) :
    |tickX layout.metrics layout.plot axis value - layout.dataX count x| ≤
      layout.metrics.stroke / 2 + 1 / 2 := by
  have hround := abs_le.mp (Exact.abs_round_sub_le (layout.plot.width * axis.fraction value))
  have htick : tickX layout.metrics layout.plot axis value - layout.dataX count x =
      (Exact.round (layout.plot.width * axis.fraction value) -
        layout.plot.width * axis.fraction value : Rat) - layout.metrics.stroke / 2 := by
    rw [tickX, dataX, ← h, Metrics.half]
    show layout.plot.x - 0.5 * layout.metrics.stroke +
      (Exact.round (layout.plot.width * axis.fraction value) : Rat) - _ = _
    ring
  rw [htick, abs_le]
  constructor <;> linarith [hround.1, hround.2]

namespace ChartKind

/-- **A horizontal axis is registered** if ticks and data have the same parts of the plot to
their left, and data is painted at its coordinates. -/
theorem registeredX_of {kind : ChartKind Rat δ} {data : δ} {count : Nat}
    {coordinate : Int → Rat} {behind : Layout Rat → Frame Rat → Frame Rat}
    (hfraction : ∀ (layout : Layout Rat) (value : Int),
      layout.plot.width * (kind.xAxis data).fraction value =
      layout.scaleX count * coordinate value)
    (hpaint : ∀ (layout : Layout Rat) (range : AxisRange Rat) (frame : Frame Rat),
      (kind.paint data layout range frame).All (layout.Painted count (behind layout frame))) :
    kind.RegisteredX data count coordinate behind := by
  intro params measure layout _
  refine ⟨fun h => Chart.frame_new kind h data measure,
    Layout.marked_compute params.normalize _ measure (kind.xAxis data) _, ?_, hpaint layout⟩
  have hstroke : 0 ≤ layout.metrics.stroke :=
    Layout.Metrics.stroke_nonneg params.normalize.normalize
  exact fun value => Layout.abs_tickX_sub_le hstroke (hfraction layout value)

end ChartKind

namespace Layout

variable {layout : Layout Rat} {count : Nat}

theorem painted_behind (layout : Layout Rat) (count : Nat) (behind : Frame Rat) :
    behind.All (layout.Painted count behind) :=
  fun _ hd => .inl hd

/-- The maps of charts place coordinates as the data of a layout. -/
theorem placesX_upright (layout : Layout Rat) (count : Nat) (y sy u v : Rat) :
    ((Transform.upright layout.plot.x y (layout.scaleX count) sy).apply u v).x =
      layout.dataX count u := by
  rw [Transform.apply_upright, dataX]

/-- So do those of layers on the plot. -/
theorem placesX_layer (layout : Layout Rat) (count : Nat) (y sy u v : Rat) :
    layout.plot.x + ((Transform.upright 0.0 y (layout.scaleX count) sy).apply u v).x =
      layout.dataX count u := by
  rw [Transform.apply_upright, dataX, Exact.zero_lit, zero_add]

end Layout

/-! ### Carriers -/

/-- On an axis from 0 on, a value is at its coordinate if so many
coordinates span the axis. -/
theorem Layout.width_mul_fraction (layout : Layout Rat) {axis : AxisPlan Rat} {count : Nat}
    (hcount : 1 ≤ count) {spacing : Rat} (hspacing : 0 < spacing)
    (hrange : axis.range = ⟨0, count * spacing⟩) (value : Int) :
    layout.plot.width * axis.fraction (value : Rat) =
      layout.scaleX count * (value / spacing) := by
  have hpos : (0 : Rat) < count := Nat.cast_pos.mpr hcount
  have hspan : axis.range.span = count * spacing := by
    rw [AxisRange.span, hrange, sub_zero]
  rw [AxisPlan.fraction_eq (by rw [hspan]; positivity), hspan, hrange,
    layout.scaleX_eq hcount, sub_zero]
  field_simp

theorem Carriers.width_mul_fraction_numbers (layout : Layout Rat) {bins : Bins Rat}
    (hcount : 1 ≤ bins.binCount) (value : Int) :
    layout.plot.width * (numbers (some bins)).fraction (value : Rat) =
      layout.scaleX bins.binCount * value := by
  have hrange : (numbers (some bins)).range = ⟨0, bins.binCount * 1⟩ := by
    rw [← Exact.zero_lit, mul_one]
    rfl
  rw [layout.width_mul_fraction hcount one_pos hrange, div_one]

theorem Carriers.width_mul_fraction_frequencies (layout : Layout Rat) {bins : Bins Rat}
    (hcount : 1 ≤ bins.binCount) (hspacing : 0 < bins.carrierSpacing) (value : Int) :
    layout.plot.width * (frequencies (some bins)).fraction (value : Rat) =
      layout.scaleX bins.binCount * (value / bins.carrierSpacing) := by
  have hrange : (frequencies (some bins)).range =
      ⟨0, bins.binCount * bins.carrierSpacing⟩ := by
    rw [← Exact.zero_lit]
    rfl
  exact layout.width_mul_fraction hcount hspacing hrange value

theorem Carriers.painted_area (rule : LimitRule Rat) (bins : Bins Rat)
    (series : PerDirection (CarrierSeries Rat)) {layout : Layout Rat} (range : AxisRange Rat)
    {frame behind : Frame Rat} (h : frame.All (layout.Painted bins.binCount behind)) :
    (paintArea rule bins series layout range frame).All
      (layout.Painted bins.binCount behind) :=
  h.pushFill (.inr fun _ _ => layout.placesX_upright _ _ _ _ _)

theorem BitLoading.registeredX {bins : Bins Rat} (hcount : 1 ≤ bins.binCount) :
    ChartKind.RegisteredX kind (some bins) bins.binCount (fun value => value)
      fun layout frame => Carriers.paintBands bins layout false frame := by
  refine ChartKind.registeredX_of
    (fun layout value => Carriers.width_mul_fraction_numbers layout hcount value)
    fun layout range frame => ?_
  refine (((layout.painted_behind _ _).pushStroke ?_).pushFill ?_).pushFill ?_
  all_goals exact .inr fun _ _ => layout.placesX_upright _ _ _ _ _

section

variable {bins : Bins Rat} (hcount : 1 ≤ bins.binCount) (hspacing : 0 < bins.carrierSpacing)

include hcount hspacing

/-- Charts of a limit rule are registered, if what is in front of the bands is painted at the
coordinates of the data. -/
theorem ChartKind.Ruled.registeredX {kind : ChartKind Rat (Option (Bins Rat))}
    {rule : LimitRule Rat} {series : Bins Rat → PerDirection (CarrierSeries Rat)}
    {front : Bins Rat → Layout Rat → AxisRange Rat → Frame Rat → Frame Rat}
    (h : kind.Ruled rule series front)
    (hfront : ∀ (layout : Layout Rat) (range : AxisRange Rat) (behind : Frame Rat),
      (front bins layout range behind).All (layout.Painted bins.binCount behind)) :
    kind.RegisteredX (some bins) bins.binCount (fun value => value / bins.carrierSpacing)
      fun layout frame => Carriers.paintBands bins layout true frame := by
  refine ChartKind.registeredX_of (fun layout value => ?_) fun layout range frame => ?_
  · rw [h.xAxis]
    exact Carriers.width_mul_fraction_frequencies layout hcount hspacing value
  · rw [h.paint_some]
    exact hfront layout range _

theorem LineNoise.registeredX :
    ChartKind.RegisteredX kind (some bins) bins.binCount
      (fun value => value / bins.carrierSpacing) fun layout frame =>
      Carriers.paintBands bins layout true frame :=
  ruled.registeredX hcount hspacing fun layout range _ =>
    Carriers.painted_area limits bins bins.qln range (layout.painted_behind _ _)

theorem Characteristic.registeredX :
    ChartKind.RegisteredX kind (some bins) bins.binCount
      (fun value => value / bins.carrierSpacing) fun layout frame =>
      Carriers.paintBands bins layout true frame :=
  ruled.registeredX hcount hspacing fun layout _ _ =>
    (layout.painted_behind _ _).pushStroke (.inr fun _ _ => layout.placesX_upright _ _ _ _ _)

theorem SignalToNoise.registeredX (history : Option (History Rat)) :
    ChartKind.RegisteredX kind ⟨some bins, history⟩ bins.binCount
      (fun value => value / bins.carrierSpacing)
      fun layout frame => Carriers.paintBands bins layout true frame := by
  refine ChartKind.registeredX_of
    (fun layout value => Carriers.width_mul_fraction_frequencies layout hcount hspacing value)
    fun layout range frame => ?_
  have harea :=
    Carriers.painted_area limits bins bins.snr range
      (layout.painted_behind bins.binCount (Carriers.paintBands bins layout true frame))
  show (paint ⟨some bins, history⟩ layout range frame).All _
  rw [paint]
  dsimp only
  split
  case h_1 history _ =>
    refine harea.pushLayer (.inr ?_)
    have hplaced (x y : Rat) := layout.placesX_layer bins.binCount layout.plot.height
      (layout.scaleX bins.binCount) x y
    intro s hs
    rcases List.mem_pair.mp hs with rfl | rfl
    · exact hplaced
    · exact hplaced
  case h_2 => exact harea

end

/-! ### Errors -/

namespace ErrorReport

variable {log : ErrorLog} (hcount : 1 ≤ log.periodCount)
  (hpos : 0 < log.periodCount * log.periodLength)
  (hword : log.periodCount * log.periodLength ≤ Scalar.maxInt64)

include hcount hpos hword

/-- A log covers as many seconds as its periods have. -/
theorem totalSeconds_eq : log.totalSeconds = log.periodCount * log.periodLength := by
  have hcast : (1 : Int) ≤ log.periodCount := by exact_mod_cast hcount
  have hlength : 0 < log.periodLength := by
    by_contra h
    have := Int.mul_nonpos_of_nonneg_of_nonpos (a := log.periodCount) (by omega) (not_lt.mp h)
    omega
  have hle : (log.periodCount : Int) ≤ log.periodCount * log.periodLength :=
    le_mul_of_one_le_right (by omega) hlength
  have hmin : Scalar.minInt64 ≤ 0 := by decide
  have hfits : Scalar.fitsInt64 log.periodCount = true :=
    Scalar.fitsInt64_iff.mpr ⟨by omega, by omega⟩
  rw [mul_comm] at hpos hword hle
  have htotal : Scalar.fitsInt64 (log.periodLength * log.periodCount) = true :=
    Scalar.fitsInt64_iff.mpr ⟨by omega, hword⟩
  rw [ErrorLog.totalSeconds, hfits, htotal, decide_eq_true hpos, mul_comm]
  rfl

theorem width_mul_fraction_time (layout : Layout Rat) (value : Int) :
    layout.plot.width * (timeAxis (some log)).fraction (value : Rat) =
      layout.scaleX log.periodCount * (log.periodCount - 60 * value / log.periodLength) := by
  have hn : (0 : Rat) < log.periodCount := Nat.cast_pos.mpr hcount
  have hproduct : (0 : Rat) < log.periodCount * log.periodLength := by exact_mod_cast hpos
  have hlength : (0 : Rat) < log.periodLength := (mul_pos_iff_of_pos_left hn).mp hproduct
  have hminutes : (log.totalMinutes : Rat) = log.periodCount * log.periodLength / 60 := by
    have hsixty : (60.0 : Rat) = 60 := by norm_num
    rw [ErrorLog.totalMinutes, totalSeconds_eq hcount hpos hword, hsixty]
    show ((log.periodCount * log.periodLength : Int) : Rat) / 60 = _
    push_cast
    rfl
  have hspan : (timeAxis (some log)).range.span = 0 - (log.totalMinutes : Rat) := by
    rw [← Exact.zero_lit]
    rfl
  have hbottom : (timeAxis (some log)).range.bottom = (log.totalMinutes : Rat) := rfl
  rw [AxisPlan.fraction_eq (by rw [hspan, hminutes, zero_sub, neg_ne_zero]; positivity),
    hspan, hbottom, layout.scaleX_eq hcount, hminutes]
  field_simp
  ring

theorem registeredX (report : ErrorReport Rat) :
    ChartKind.RegisteredX report.kind (some log) log.periodCount
      (fun value => log.periodCount - 60 * value / log.periodLength) fun _ frame =>
        frame := by
  refine ChartKind.registeredX_of
    (fun layout value => width_mul_fraction_time hcount hpos hword layout value)
    fun layout range frame => ?_
  show (report.paint log layout range frame).All _
  rw [paint, if_neg (Nat.ne_of_gt hcount)]
  refine ((layout.painted_behind _ frame).pushFill (.inr fun _ _ => ?_)).pushLayer (.inr ?_)
  · exact layout.placesX_upright _ _ _ _ _
  · intro s hs
    obtain ⟨trace, _, heq⟩ := List.mem_map.mp (stroke_mem_of_mem_blended hs)
    rw [← heq]
    exact layout.placesX_layer _ _ _

end ErrorReport

/-! ### Heights -/

/-- On every plot with an area, a sample of either direction that is drawn and equal to a
whole value of the axis has the upper edge of its fill as high as the tick of the value, up to
half a line and 0.55 pixels. The edge is looked at over a part of the group: up to `reach`
widths of the group to both sides of its middle. -/
def ChartKind.RegisteredY (kind : ChartKind Rat δ) (data : δ) (count : Nat)
    (series : PerDirection (CarrierSeries Rat)) (drawn : AxisRange Rat → Rat → Prop)
    (reach : Rat) :
    Prop :=
  ∀ (params : Params Rat) (measure : TextMeasure Rat),
    let layout := kind.layout params data measure
    let axis := kind.yAxis data params.dynamic
    layout.plot.isDegenerate = false →
      ∀ (frame : Frame Rat), ∀ s ∈ [series.down, series.up],
        ∀ (i : Nat) (value : Int) (x : Rat), let width : Rat := (max s.groupSize 1 : Nat)
        sampleAt s.samples i = some (value : Rat) → drawn axis.range value →
        axis.range.bottom ≤ value → value ≤ axis.range.top →
          |x - (i + 0.5) * width| ≤ reach * width → ∃ d : FilledPath Rat,
            .fill d ∈ (kind.paint data layout axis.range frame).drawings.toList ∧
            ∃ y, TopsAt d.path ⟨x, y⟩ ∧ (d.transform.apply x y).x = layout.dataX count x ∧
              |(d.transform.apply x y).y - tickY layout.metrics layout.plot axis value| ≤
                layout.metrics.stroke / 2 + 11 / 20

namespace Layout

variable {layout : Layout Rat} {axis : AxisPlan Rat} {value : Int} {count : Nat} {x y : Rat}

/-- How far a height is from a tick. -/
theorem bottom_sub_tickY (layout : Layout Rat) (axis : AxisPlan Rat) (value : Int) (y : Rat) :
    layout.plot.bottom - y - tickY layout.metrics layout.plot axis value =
      ((Exact.round (layout.plot.height * axis.fraction value) : Rat) - y) -
        layout.metrics.stroke / 2 := by
  rw [tickY, Rect.bottom, Metrics.half]
  show _ - y - (layout.plot.y + layout.plot.height + 0.5 * layout.metrics.stroke -
    (Exact.round (layout.plot.height * axis.fraction value) : Rat)) = _
  ring

theorem abs_bottom_sub_tickY_le (hstroke : 0 ≤ layout.metrics.stroke)
    (hy : |(Exact.round (layout.plot.height * axis.fraction value) : Rat) - y| ≤ 11 / 20) :
    |((Transform.upright layout.plot.x layout.plot.bottom (layout.scaleX count) 1.0).apply x
      y).y - tickY layout.metrics layout.plot axis value| ≤
      layout.metrics.stroke / 2 + 11 / 20 := by
  obtain ⟨hlow, hhigh⟩ := abs_le.mp hy
  rw [Transform.apply_upright, Exact.one_lit, one_mul]
  dsimp only
  rw [bottom_sub_tickY, abs_le]
  constructor <;> linarith

end Layout

namespace BitLoading

theorem registeredY (bins : Bins Rat) :
    ChartKind.RegisteredY kind (some bins) bins.binCount bins.bits
      (fun _ v => 0 < v) (1 / 2) := by
  intro params measure layout axis _ frame s hs i value x width hi hpos _ _ hx
  have hrange : axis.range.RisesFromZero := risesFromZero_yAxis (some bins) params.dynamic
  have hbounds := abs_le.mp hx
  have hunit : (Path.empty : Path Rat).unit = 10 ^ (4 + 1) := Scalar.tenPow_eq 5
  have hright : ((i + 1 : Nat) : Rat) * width = (i + 0.5) * width + 1 / 2 * width := by
    push_cast
    ring
  -- both the step and the tick are the same whole number of pixels high
  have hfraction : layout.plot.height * axis.fraction value =
      value * (layout.plot.height / axis.range.top) := by
    rw [AxisPlan.fraction_eq hrange.rises.span_pos.ne', AxisRange.span, hrange.bottom]
    ring
  have htops : TopsAt (Trace.steps .empty s (layout.plot.height / axis.range.top))
      ⟨x, Exact.round (layout.plot.height * axis.fraction value)⟩ := by
    rw [hfraction]
    refine Trace.topsAt_steps .empty hunit s _ hi hpos ?_ ?_
    · linarith [hbounds.1]
    · exact hright ▸ by linarith [hbounds.2]
  have hheight : |(Exact.round (layout.plot.height * axis.fraction value) : Rat) -
      Exact.round (layout.plot.height * axis.fraction value)| ≤ 11 / 20 := by
    rw [sub_self, abs_zero]
    norm_num
  have hpainted : ∃ color, .fill ⟨Trace.steps .empty s (layout.plot.height / axis.range.top),
      .upright layout.plot.x layout.plot.bottom (layout.scaleX bins.binCount) 1.0, color⟩ ∈
        (kind.paint (some bins) layout axis.range frame).drawings.toList := by
    rcases List.mem_pair.mp hs with rfl | rfl
    · exact ⟨layout.palette.down, Frame.mem_pushFill htops.isEmpty⟩
    · exact ⟨layout.palette.up,
        Frame.mem_pushFill_of_mem (Frame.mem_pushFill htops.isEmpty) _⟩
  obtain ⟨color, hcolor⟩ := hpainted
  exact ⟨_, hcolor, _, htops, layout.placesX_upright _ _ _ _ _,
    Layout.abs_bottom_sub_tickY_le (Layout.Metrics.stroke_nonneg _) hheight⟩

end BitLoading

namespace Carriers

/-- The upper edge of both areas goes through each sample that is drawn, rounded to
a tenth of a pixel. -/
theorem topsAt_areaPath (series : PerDirection (CarrierSeries Rat))
    (scale : Trace.FillScale Rat) {s : CarrierSeries Rat} (hs : s ∈ [series.down, series.up])
    {i : Nat} {v : Rat} (hi : sampleAt s.samples i = some v) (hv : scale.draws v = true) :
    TopsAt (areaPath series scale)
      ⟨(i + 0.5) * (max s.groupSize 1 : Nat), Path.roundTo 10 (scale.height v)⟩ := by
  have hunit : (Path.withPrecision precision : Path Rat).unit = 10 ^ (0 + 1) :=
    Scalar.tenPow_eq 1
  have hten : (10 : Rat) ^ (0 + 1) = 10 := pow_one 10
  rw [areaPath, ← hten]
  rcases List.mem_pair.mp hs with rfl | rfl
  · exact hunit ▸ (Trace.topsAt_fill _ hunit _ scale hi hv).fill series.up scale
  · have hunit' := (Trace.unit_fill (.withPrecision precision) series.down scale).trans hunit
    exact hunit' ▸ Trace.topsAt_fill _ hunit' _ scale hi hv

/-- **Areas are registered**, if the vertical axis rises and the areas stay on the frame. -/
theorem registeredY_area {kind : ChartKind Rat δ} {data : δ} {rule : LimitRule Rat}
    {bins : Bins Rat} {series : PerDirection (CarrierSeries Rat)}
    (hrises : ∀ dynamic, (kind.yAxis data dynamic).range.Rises)
    (hpaint : ∀ (layout : Layout Rat) (range : AxisRange Rat) (frame : Frame Rat),
      ∃ behind : Frame Rat,
      ∀ d ∈ (paintArea rule bins series layout range behind).drawings.toList,
      d ∈ (kind.paint data layout range frame).drawings.toList) :
    kind.RegisteredY data bins.binCount series
      (fun range v => range.bottom < v ∧ rule.validMin ≤ v ∧ v ≤ rule.validMax) 0 := by
  intro params measure layout axis _ frame s hs i value x width hi hdrawn _ htop hx
  have hspan : 0 < axis.range.span := (hrises params.dynamic).span_pos
  obtain rfl : x = (i + 0.5) * width := by
    rw [zero_mul, abs_nonpos_iff, sub_eq_zero] at hx
    exact hx
  obtain ⟨behind, hbehind⟩ := hpaint layout axis.range frame
  have hdraws : (areaScale rule layout.plot axis.range).draws (value : Rat) = true :=
    Trace.FillScale.draws_iff.mpr hdrawn
  have htops := topsAt_areaPath series (areaScale rule layout.plot axis.range) hs hi hdraws
  have hfraction : (areaScale rule layout.plot axis.range).height (value : Rat) =
      layout.plot.height * axis.fraction value := by
    show (min axis.range.top value - axis.range.bottom) *
      (layout.plot.height / axis.range.span) = _
    rw [AxisPlan.fraction_eq hspan.ne', min_eq_right htop]
    ring
  rw [hfraction] at htops
  -- the tick is rounded to a whole pixel, the area to a tenth
  have hheight : |(Exact.round (layout.plot.height * axis.fraction value) : Rat) -
      Path.roundTo 10 (layout.plot.height * axis.fraction value)| ≤ 11 / 20 := by
    have htick :=
      abs_le.mp (Exact.abs_round_sub_le (layout.plot.height * axis.fraction value))
    have harea := abs_le.mp (Path.abs_roundTo_sub_le (by norm_num : (0 : Rat) < 10)
      (layout.plot.height * axis.fraction value))
    rw [abs_le]
    constructor <;> linarith [htick.1, htick.2, harea.1, harea.2]
  exact ⟨_, hbehind _ (Frame.mem_pushFill htops.isEmpty), _, htops,
    layout.placesX_upright _ _ _ _ _,
    Layout.abs_bottom_sub_tickY_le (Layout.Metrics.stroke_nonneg _) hheight⟩

end Carriers

theorem LineNoise.registeredY (bins : Bins Rat) :
    ChartKind.RegisteredY kind (some bins) bins.binCount bins.qln
      (fun range v => range.bottom < v ∧ -150 ≤ v ∧ v ≤ -23) 0 := by
  have hmin : (limits : LimitRule Rat).validMin = -150 := by
    show (-150.0 : Rat) = -150
    norm_num
  have hmax : (limits : LimitRule Rat).validMax = -23 := by
    show (-23.0 : Rat) = -23
    norm_num
  rw [← hmin, ← hmax]
  exact Carriers.registeredY_area (rises_yAxis (some bins)) fun _ _ _ => ⟨_, fun _ hd => hd⟩

theorem SignalToNoise.registeredY (bins : Bins Rat) (history : Option (History Rat)) :
    ChartKind.RegisteredY kind ⟨some bins, history⟩ bins.binCount bins.snr
      (fun range v => range.bottom < v ∧ -32 ≤ v ∧ v ≤ 95) 0 := by
  have hmin : (limits : LimitRule Rat).validMin = -32 := by
    show (-32.0 : Rat) = -32
    norm_num
  have hmax : (limits : LimitRule Rat).validMax = 95 := by
    show (95.0 : Rat) = 95
    norm_num
  rw [← hmin, ← hmax]
  refine Carriers.registeredY_area (rises_yAxis ⟨some bins, history⟩)
    fun layout range frame =>
    ⟨Carriers.paintBands bins layout true frame, fun d hd => ?_⟩
  show d ∈ (paint ⟨some bins, history⟩ layout range frame).drawings.toList
  rw [paint]
  dsimp only
  split
  · exact Frame.mem_pushLayer_of_mem hd _
  · exact hd

/-! ### All kinds -/

/-- **Axes and data of all charts agree on where a value is**: carrier numbers, frequencies
and times across, and the values of bit loading, signal-to-noise ratio and line noise upwards,
whatever the parameters and the data. -/
theorem Chart.registered_kinds :
    (∀ bins : Bins Rat, 1 ≤ bins.binCount →
      ChartKind.RegisteredX BitLoading.kind (some bins) bins.binCount (fun b => b)
        fun layout frame => Carriers.paintBands bins layout false frame) ∧
    (∀ bins : Bins Rat, 1 ≤ bins.binCount → 0 < bins.carrierSpacing →
      let coordinate (f : Int) : Rat := f / bins.carrierSpacing
      let behind (layout : Layout Rat) (frame : Frame Rat) :=
        Carriers.paintBands bins layout true frame
      (∀ history, ChartKind.RegisteredX SignalToNoise.kind ⟨some bins, history⟩ bins.binCount
        coordinate behind) ∧
      ChartKind.RegisteredX LineNoise.kind (some bins) bins.binCount coordinate behind ∧
      ChartKind.RegisteredX Characteristic.kind (some bins) bins.binCount coordinate behind) ∧
    (∀ (report : ErrorReport Rat) (log : ErrorLog), 1 ≤ log.periodCount →
      0 < log.periodCount * log.periodLength →
      log.periodCount * log.periodLength ≤ Scalar.maxInt64 →
      ChartKind.RegisteredX report.kind (some log) log.periodCount
        (fun m => log.periodCount - 60 * m / log.periodLength) fun _ frame => frame) ∧
    ∀ bins : Bins Rat,
      ChartKind.RegisteredY BitLoading.kind (some bins) bins.binCount bins.bits
        (fun _ v => 0 < v) (1 / 2) ∧
      (∀ history, ChartKind.RegisteredY SignalToNoise.kind ⟨some bins, history⟩ bins.binCount
        bins.snr (fun range v => range.bottom < v ∧ -32 ≤ v ∧ v ≤ 95) 0) ∧
      ChartKind.RegisteredY LineNoise.kind (some bins) bins.binCount bins.qln
        (fun range v => range.bottom < v ∧ -150 ≤ v ∧ v ≤ -23) 0 := by
  refine ⟨fun bins hcount => BitLoading.registeredX hcount,
    fun bins hcount hspacing => ⟨?_, ?_, ?_⟩,
    fun report log hcount hpos hword => ErrorReport.registeredX hcount hpos hword report,
    fun bins => ⟨BitLoading.registeredY bins, SignalToNoise.registeredY bins,
      LineNoise.registeredY bins⟩⟩
  · exact SignalToNoise.registeredX hcount hspacing
  · exact LineNoise.registeredX hcount hspacing
  · exact Characteristic.registeredX hcount hspacing

/-- A day of quarters of an hour, and a line of 4096 carriers with one sample of 30 decibels,
on the default surface. -/
theorem Chart.registered_kinds_day :
    let log : ErrorLog := ⟨96, 900, none, []⟩
    let errors : ErrorReport Rat := .errors .down
    let bins : Bins Rat :=
      { Bins.empty with binCount := 4096, snr := ⟨⟨8, [some 30]⟩, .empty⟩ }
    let time := errors.kind.layout .default (some log) approximateWidth
    let snr := SignalToNoise.kind.layout .default ⟨some bins, none⟩ approximateWidth
    let levels : AxisPlan Rat := SignalToNoise.kind.yAxis ⟨some bins, none⟩ false
    time.plot.isDegenerate = false ∧ snr.plot.isDegenerate = false ∧
    |tickX time.metrics time.plot (errors.kind.xAxis (some log)) 720 -
      time.dataX 96 (96 - 60 * 720 / 900)| ≤ time.metrics.stroke / 2 + 1 / 2 ∧
    |tickX snr.metrics snr.plot (SignalToNoise.kind.xAxis ⟨some bins, none⟩) 10000 -
      snr.dataX 4096 (10000 / bins.carrierSpacing)| ≤ snr.metrics.stroke / 2 + 1 / 2 ∧
    ∃ d : FilledPath Rat, ∃ y, TopsAt d.path ⟨4, y⟩ ∧
      |(d.transform.apply 4 y).y - tickY snr.metrics snr.plot levels 30| ≤
        snr.metrics.stroke / 2 + 11 / 20 := by
  intro log errors bins time snr levels
  obtain ⟨-, hfrequencies, htimes, hheights⟩ := registered_kinds
  have hplots : time.plot.isDegenerate = false ∧ snr.plot.isDegenerate = false := by
    decide +kernel
  have hspacing : 0 < bins.carrierSpacing := by decide +kernel
  have htime :=
    htimes errors log (by decide) (by decide) (by decide) .default approximateWidth hplots.1
  have hsnr :=
    (hfrequencies bins (by decide) hspacing).1 none .default approximateWidth hplots.2
  obtain ⟨d, _, y, htops, _, hy⟩ :=
    (hheights bins).2.1 none .default approximateWidth hplots.2 (.empty ⟨560, 114⟩)
      ⟨8, [some 30]⟩ List.mem_cons_self 0 30 4 (by decide +kernel) (by decide +kernel)
    (by decide +kernel) (by decide +kernel) (by decide +kernel)
  exact ⟨hplots.1, hplots.2, htime.2.2.1 720, hsnr.2.2.1 10000, d, y, htops, hy⟩

end LineCharts
