/-
Where a layout has its ticks, in exact arithmetic.

* `Layout.Metrics.exists_plot_eq` — the plot is at whole pixels, and so are lines wide;
* `AxisPlan.fraction_eq` — how far along an axis with something in it a value lies;
* `Layout.xLines`, `Layout.yLines` — the lines of an axis and of its ticks,
  each from point to point;
* `Layout.Marked` — the path and the labels of a layout are those of its ticks;
  `Layout.marked_compute` — so they are in every layout;
* `AxisPlan.Ticked` — the ticks are the multiples of the step, not more than there
  is room for, and apart;
* `Layout.ticked_compute` — so they are on both axes of every layout with room for a label.

Design notes.  Ticks are at whole pixels or at their middles, which the path keeps.
-/
import LineCharts.Layout.Basic
import LineCharts.Proofs.Axis.Multiples
import LineCharts.Proofs.Trace.Outline

namespace LineCharts

open Exact (halves)
open Trace (openLine corners_of_halves)

/-! ### Whole pixels -/

namespace Layout

theorem Metrics.exists_stroke_eq (params : Params Rat) :
    ∃ n : Int, (Metrics.of params).stroke = n := by
  rw [stroke_of]
  split
  · exact ⟨Exact.round params.scaleFactor, rfl⟩
  · exact ⟨1, by rw [Exact.one_lit, Int.cast_one]⟩

theorem Metrics.exists_legendStrip_eq (m : Metrics Rat) (legend : Bool) :
    ∃ n : Int, m.legendStrip legend = n := by
  rw [legendStrip]
  split
  · exact ⟨_, rfl⟩
  · exact ⟨0, by rw [Exact.zero_lit, Int.cast_zero]⟩

theorem Metrics.exists_plot_eq (m : Metrics Rat) (params : Params Rat)
    (xDigits yDigits : Rat) :
    ∃ x y width height : Int, m.plot params xDigits yDigits = ⟨x, y, width, height⟩ := by
  have hround (x : Rat) : ∃ n : Int, (Scalar.round x : Rat) = n := ⟨Exact.round x, rfl⟩
  obtain ⟨strip, hstrip⟩ := m.exists_legendStrip_eq params.legend
  obtain ⟨left, hleft⟩ := hround ((yDigits * digitWidth * m.fontFactor + 5.0) * m.scale)
  obtain ⟨top, htop⟩ := hround (4.0 * m.fontFactor * m.scale)
  obtain ⟨right, hright⟩ :=
    hround (((xDigits * digitWidth / 2.0 + 2.75) * m.fontFactor - 1.0) * m.scale)
  obtain ⟨bottom, hbottom⟩ := hround ((14.0 * m.fontFactor + 5.0) * m.scale)
  refine ⟨left, top, max (params.width - left - right) 0,
    max (params.height - top - bottom - strip) 0, ?_⟩
  rw [plot, hstrip, hleft, htop, hright, hbottom, Exact.zero_lit]
  push_cast
  rfl

end Layout

theorem AxisPlan.fraction_eq {axis : AxisPlan Rat} (h : axis.range.span ≠ 0) (value : Rat) :
    axis.fraction value = (value - axis.range.bottom) / axis.range.span := by
  have hne : (axis.range.span == (0.0 : Rat)) = false := by
    rw [beq_eq_false_iff_ne, Exact.zero_lit]
    exact h
  rw [fraction, hne]
  rfl

namespace Layout

/-! ### Lines of axes and ticks -/

section

variable (m : Metrics Rat) (plot : Rect Rat) (axis : AxisPlan Rat) (step : Int)

/-- The lines of a horizontal axis: along the plot, and one down from each tick. -/
def xLines : List (List (Point Rat)) :=
  let base := plot.y + plot.height + m.half
  let outer := plot.y + plot.height + Scalar.round (2.0 * m.scale) + m.half
  let inner := plot.y + plot.height + Scalar.round m.scale + m.half
  [⟨plot.x - m.half, base⟩, ⟨plot.x - m.half + plot.width, base⟩] ::
    (axis.ticks step).map fun value =>
      [⟨tickX m plot axis value, outer⟩, ⟨tickX m plot axis value, inner⟩]

/-- The lines of a vertical axis: along the plot, and one from each small
tick and each tick. -/
def yLines : List (List (Point Rat)) :=
  let inner := plot.x - Scalar.round m.scale - m.half
  let major := plot.x - Scalar.round (4.0 * m.scale) - m.half
  let minor := plot.x - Scalar.round (2.0 * m.scale) - m.half
  let tick (outer : Rat) (value : Int) : List (Point Rat) :=
    [⟨outer, tickY m plot axis value⟩, ⟨inner, tickY m plot axis value⟩]
  [⟨plot.x - m.half, plot.y + m.half⟩, ⟨plot.x - m.half, plot.y + plot.height + m.half⟩] ::
    ((minorTicks axis step).map (tick minor) ++ (axis.ticks step).map (tick major))

theorem xAxisPath_eq (path : Path Rat) :
    xAxisPath path m plot axis step = (xLines m plot axis step).foldl Path.through path := by
  rw [xLines, List.foldl_cons, List.foldl_map]
  rfl

theorem yAxisPath_eq (path : Path Rat) :
    yAxisPath path m plot axis step = (yLines m plot axis step).foldl Path.through path := by
  rw [yLines, List.foldl_cons, List.foldl_append, List.foldl_map, List.foldl_map]
  rfl

end

section

variable {m : Metrics Rat} (hm : ∃ n : Int, m.stroke = n) {plot : Rect Rat}
  (hplot : ∃ x y width height : Int, plot = ⟨x, y, width, height⟩) (axis : AxisPlan Rat)

include hm

theorem half_mem_halves : m.half ∈ halves := by
  obtain ⟨n, hn⟩ := hm
  rw [Metrics.half, hn]
  exact Exact.intCast_half_mem_halves n

include hplot

theorem tickX_mem_halves (value : Int) : tickX m plot axis value ∈ halves := by
  obtain ⟨x, y, width, height, rfl⟩ := hplot
  exact add_mem (sub_mem (Exact.intCast_mem_halves x) (half_mem_halves hm))
    (Exact.intCast_mem_halves _)

theorem tickY_mem_halves (value : Int) : tickY m plot axis value ∈ halves := by
  obtain ⟨x, y, width, height, rfl⟩ := hplot
  exact sub_mem
    (add_mem (add_mem (Exact.intCast_mem_halves y) (Exact.intCast_mem_halves height))
    (half_mem_halves hm)) (Exact.intCast_mem_halves _)

theorem halves_of_mem_xLines {step : Int} {ps : List (Point Rat)}
    (hps : ps ∈ xLines m plot axis step) :
    ∀ p ∈ ps, p.Halves := by
  have htick := tickX_mem_halves hm hplot axis
  obtain ⟨x, y, width, height, rfl⟩ := hplot
  have hhalf := half_mem_halves hm
  have hx := Exact.intCast_mem_halves x
  have hbottom := add_mem (Exact.intCast_mem_halves y) (Exact.intCast_mem_halves height)
  have hout := fun n : Int => add_mem (add_mem hbottom (Exact.intCast_mem_halves n)) hhalf
  have hbase := add_mem hbottom hhalf
  have hwidth := add_mem (sub_mem hx hhalf) (Exact.intCast_mem_halves width)
  rcases List.mem_cons.mp hps with rfl | hps
  · simp only [List.forall_mem_cons]
    exact ⟨⟨sub_mem hx hhalf, hbase⟩, ⟨hwidth, hbase⟩, nofun⟩
  · obtain ⟨value, _, rfl⟩ := List.mem_map.mp hps
    simp only [List.forall_mem_cons]
    exact ⟨⟨htick value, hout _⟩, ⟨htick value, hout _⟩, nofun⟩

theorem halves_of_mem_yLines {step : Int} {ps : List (Point Rat)}
    (hps : ps ∈ yLines m plot axis step) :
    ∀ p ∈ ps, p.Halves := by
  have htick := tickY_mem_halves hm hplot axis
  obtain ⟨x, y, width, height, rfl⟩ := hplot
  have hhalf := half_mem_halves hm
  have hx := Exact.intCast_mem_halves x
  have hy := Exact.intCast_mem_halves y
  have hbase := add_mem (add_mem hy (Exact.intCast_mem_halves height)) hhalf
  have hout := fun n : Int => sub_mem (sub_mem hx (Exact.intCast_mem_halves n)) hhalf
  rcases List.mem_cons.mp hps with rfl | hps
  · simp only [List.forall_mem_cons]
    exact ⟨⟨sub_mem hx hhalf, add_mem hy hhalf⟩, ⟨sub_mem hx hhalf, hbase⟩, nofun⟩
  · rcases List.mem_append.mp hps with hps | hps
    all_goals
      obtain ⟨value, _, rfl⟩ := List.mem_map.mp hps
      simp only [List.forall_mem_cons]
      exact ⟨⟨hout _, htick value⟩, ⟨hout _, htick value⟩, nofun⟩

end

/-- Lines at whole pixels and at their middles are drawn as they are. -/
theorem commands_lines {lines : List (List (Point Rat))}
    (h : ∀ ps ∈ lines, ∀ p ∈ ps, p.Halves) :
    (lines.foldl Path.through .empty).commands.toList =
      lines.flatMap fun ps => openLine (ps.destutter (· ≠ ·)) := by
  have hunit : (Path.empty : Path Rat).unit = 10 ^ (4 + 1) := Scalar.tenPow_eq 5
  rw [Path.commands_foldl_through, hunit]
  exact (List.nil_append _).trans (List.flatMap_congr fun ps hps =>
    congrArg openLine (corners_of_halves 4 (h ps hps)))

/-! ### What a layout draws -/

/-- The path and the labels of a layout are those of the ticks of its
axes, each at its place. -/
structure Marked (layout : Layout Rat) (xAxis yAxis : AxisPlan Rat) : Prop where
  axisPath : layout.axisPath.commands.toList =
    (xLines layout.metrics layout.plot xAxis layout.stepX ++
      yLines layout.metrics layout.plot yAxis layout.stepY).flatMap fun ps =>
        openLine (ps.destutter (· ≠ ·))
  labels : layout.labels.map (fun d => (⟨d.x, d.y⟩ : Point Rat)) =
    (xAxis.ticks layout.stepX).map
      (fun value => ⟨tickX layout.metrics layout.plot xAxis value,
      layout.plot.y + layout.plot.height + (2.0 + 8.0 * layout.metrics.fontFactor) *
      layout.metrics.scale
        + layout.metrics.textOffset⟩) ++
    (yAxis.ticks layout.stepY).map (fun value =>
      ⟨layout.plot.x - (5.0 + 5.5 * layout.metrics.fontFactor) * layout.metrics.scale,
        tickY layout.metrics layout.plot yAxis value + layout.metrics.textOffset⟩)

variable (params : Params Rat) (legend : Option (Legend Rat)) (measure : TextMeasure Rat)

/-- **Every layout draws the ticks of its axes.** -/
theorem marked_compute (xAxis yAxis : AxisPlan Rat) :
    (compute params xAxis yAxis legend measure).Marked xAxis yAxis := by
  obtain ⟨layout, hlayout⟩ : ∃ layout, layout = compute params xAxis yAxis legend measure :=
    ⟨_, rfl⟩
  have hm : ∃ n : Int, layout.metrics.stroke = n :=
    hlayout ▸ Metrics.exists_stroke_eq params.normalize
  have hplot : ∃ x y width height : Int, layout.plot = ⟨x, y, width, height⟩ :=
    hlayout ▸ (Metrics.of params.normalize).exists_plot_eq params.normalize
      xAxis.digits yAxis.digits
  have hstepY : 0 < layout.stepY := hlayout ▸ zero_lt_chooseStep _ _ _ _
  have haxisPath : layout.axisPath =
      yAxisPath (xAxisPath .empty layout.metrics layout.plot xAxis layout.stepX)
      layout.metrics layout.plot yAxis (max layout.stepY 1) := hlayout ▸ rfl
  have hlabels : layout.labels = xLabels layout.metrics layout.plot layout.palette.text xAxis
      layout.stepX ++ yLabels layout.metrics layout.plot layout.palette.text yAxis
        (max layout.stepY 1) := hlayout ▸ rfl
  rw [max_eq_left hstepY] at haxisPath hlabels
  rw [← hlayout]
  constructor
  · rw [haxisPath, xAxisPath_eq, yAxisPath_eq, ← List.foldl_append]
    refine commands_lines fun ps hps => ?_
    rcases List.mem_append.mp hps with hps | hps
    · exact halves_of_mem_xLines hm hplot xAxis hps
    · exact halves_of_mem_yLines hm hplot yAxis hps
  · rw [hlabels, List.map_append, xLabels, yLabels, List.map_map, List.map_map]
    rfl

/-! ### Where the ticks are -/

end Layout

/-- The ticks are the multiples of the step among the whole numbers of the range, in order.
There is one more of them at most than there is room for labels of this spacing, and the
places of any two are a spacing apart, up to the rounding to whole pixels. -/
structure AxisPlan.Ticked (axis : AxisPlan Rat) (step : Int) (pixels spacing : Rat)
    (place : Int → Rat) : Prop where
  mem : ∀ v, v ∈ axis.ticks step ↔ step ∣ v ∧ ⌈axis.range.low⌉ ≤ v ∧ v ≤ ⌊axis.range.high⌋
  ascending : (axis.ticks step).Pairwise (· < ·)
  count : 0 < spacing → ((axis.ticks step).length : Int) ≤ ⌊pixels / spacing⌋ + 1
  /-- A label that takes no room has one place, as the least that every axis has. -/
  count_of_nonpos : spacing ≤ 0 → (axis.ticks step).length ≤ 2
  apart : (axis.ticks step).Pairwise fun v w => spacing - 1 ≤ |place w - place v|

namespace AxisPlan

/-- Ticks that are a step apart are a spacing apart, before they are
brought to whole pixels. -/
theorem spacing_le (axis : AxisPlan Rat) (hrange : axis.range.Bounded) (steps : List Int)
    {pixels spacing : Rat} (hpos : 0 < spacing) (hroom : spacing ≤ pixels) {v w : Int}
    (hvw : v + chooseStep steps axis.range.span pixels spacing ≤ w) :
    spacing ≤ |pixels * axis.fraction w - pixels * axis.fraction v| := by
  have hspan : 0 < |axis.range.span| := abs_pos.mpr hrange.span
  have hpixels : 0 < pixels := hpos.trans_le hroom
  have hstep := zero_lt_chooseStep steps axis.range.span pixels spacing
  have hfits := div_chooseStep_le hrange steps pixels spacing
  rw [Exact.labelBudget_eq hpos hroom] at hfits
  generalize chooseStep steps axis.range.span pixels spacing = step at *
  have hstep' : (0 : Rat) < step := Int.cast_pos.mpr hstep
  have hcast : (step : Rat) ≤ w - v := by
    rw [le_sub_iff_add_le']
    exact_mod_cast hvw
  -- the range in steps is at most the room in labels
  have hbudget : |axis.range.span| / step ≤ pixels / spacing := hfits.trans (Int.floor_le _)
  rw [div_le_div_iff₀ hstep' hpos] at hbudget
  calc spacing ≤ pixels * step / |axis.range.span| := by
        rw [le_div_iff₀ hspan]
        linarith
    _ ≤ pixels * (w - v) / |axis.range.span| := by gcongr
    _ = |pixels * axis.fraction w - pixels * axis.fraction v| := by
        rw [fraction_eq hrange.span, fraction_eq hrange.span, ← mul_sub, ← sub_div,
          sub_sub_sub_cancel_right, abs_mul, abs_div, abs_of_pos hpixels,
          abs_of_pos (hstep'.trans_le hcast), mul_div_assoc]

/-- **The ticks of an axis with room for a label**, at places that are
rounded to whole pixels. -/
theorem ticked_ofRange {range : AxisRange Rat} (hrange : range.Bounded) {steps : List Int}
    (hsteps : ∀ s ∈ steps, s ≤ Scalar.maxInt64) (digits : Rat) (format : LabelFormat)
    {pixels spacing : Rat} (hroom : spacing ≤ pixels) {place : Int → Rat}
    (hplace : ∀ v w, |place w - place v| =
      |(Exact.round (pixels * (ofRange range steps digits format).fraction w) : Rat) -
        Exact.round (pixels * (ofRange range steps digits format).fraction v)|) :
    (ofRange range steps digits format).Ticked
      (chooseStep steps range.span pixels spacing) pixels
      spacing place := by
  obtain ⟨hstart, hend⟩ := labels_ofRange hrange.bottom_le hrange.top_le steps digits format
  obtain ⟨hpos, hword⟩ := chooseStep_pos steps hsteps range.span pixels spacing
  have hlength := length_ticks_le hrange steps digits format hpos hword
  have hfits := div_chooseStep_le hrange steps pixels spacing
  have hpairwise := @pairwise_ticks _ _ (ofRange range steps digits format) _ hpos
  constructor
  case mem =>
    intro v
    rw [mem_ticks_iff (hstart ▸ AxisRange.abs_ceil_low_le hrange.bottom_le hrange.top_le) hpos
      hword, hstart, hend]
    rfl
  case ascending => exact hpairwise.imp fun h => by omega
  case count =>
    intro hspacing
    rw [Exact.labelBudget_eq hspacing hroom] at hfits
    have hfloor := Int.floor_mono hfits
    rw [Int.floor_intCast] at hfloor
    omega
  case count_of_nonpos =>
    intro hspacing
    rw [Exact.labelBudget_of_nonpos hspacing] at hfits
    have hfloor := Int.floor_mono hfits
    rw [Int.floor_one] at hfloor
    omega
  case apart =>
    refine hpairwise.imp fun {v w} hvw => ?_
    rcases le_or_gt spacing 0 with hspacing | hspacing
    · exact le_trans (by linarith) (abs_nonneg _)
    · have hle :=
        spacing_le (ofRange range steps digits format) hrange steps hspacing hroom hvw
      rw [hplace]
      exact le_trans (sub_le_sub_right hle 1) (Exact.sub_one_le_abs_round_sub _ _)

end AxisPlan

namespace Layout

/-- **The ticks of both axes, in every layout with room for a label.**  The range may be
reversed, and the other axis, the legend and the parameters may be any. -/
theorem ticked_compute {range : AxisRange Rat} (hrange : range.Bounded) {steps : List Int}
    (hsteps : ∀ s ∈ steps, s ≤ Scalar.maxInt64) (digits : Rat) (format : LabelFormat)
    (other : AxisPlan Rat) (params : Params Rat) (legend : Option (Legend Rat))
    (measure : TextMeasure Rat) :
    let axis := AxisPlan.ofRange range steps digits format
    (let layout := compute params axis other legend measure
     layout.metrics.labelSpacing digits ≤ layout.plot.width →
      axis.Ticked layout.stepX layout.plot.width (layout.metrics.labelSpacing digits)
        (tickX layout.metrics layout.plot axis) ∧ layout.Marked axis other) ∧
    (let layout := compute params other axis legend measure
     layout.metrics.fontSize ≤ layout.plot.height →
      axis.Ticked layout.stepY layout.plot.height layout.metrics.fontSize
        (tickY layout.metrics layout.plot axis) ∧ layout.Marked other axis) := by
  intro axis
  constructor
  · intro layout hroom
    refine ⟨AxisPlan.ticked_ofRange hrange hsteps digits format hroom fun v w => ?_,
      marked_compute params legend measure axis other⟩
    rw [tickX, tickX, add_sub_add_left_eq_sub]
    rfl
  · intro layout hroom
    refine ⟨AxisPlan.ticked_ofRange hrange hsteps digits format hroom fun v w => ?_,
      marked_compute params legend measure other axis⟩
    rw [tickY, tickY, sub_sub_sub_cancel_left, abs_sub_comm]
    rfl

/-- A day on the default surface, from the oldest minute down to the last, and
counts up to a hundred. -/
theorem ticked_compute_day :
    let time : AxisPlan Rat := .ofRange ⟨1440, 0⟩ [60, 120, 360, 720] 5.5 .duration
    let layout :=
      compute .default time (.ofRange ⟨0, 105⟩ [10, 20, 50] 5 .count) none approximateWidth
    layout.metrics.labelSpacing 5.5 ≤ layout.plot.width ∧ layout.stepX = 120 ∧
      time.Ticked layout.stepX layout.plot.width (layout.metrics.labelSpacing 5.5)
        (tickX layout.metrics layout.plot time) := by
  intro time layout
  have hrange : AxisRange.Bounded ⟨1440, 0⟩ := by
    constructor <;> norm_num [AxisRange.span]
  have hroom : layout.metrics.labelSpacing 5.5 ≤ layout.plot.width := by decide +kernel
  have hsteps : ∀ s ∈ [60, 120, 360, 720], s ≤ Scalar.maxInt64 := by decide
  have hticked :=
    ticked_compute hrange hsteps 5.5 .duration (.ofRange ⟨0, 105⟩ [10, 20, 50] 5 .count)
      .default none approximateWidth
  exact ⟨hroom, by decide +kernel, (hticked.1 hroom).1⟩

end Layout

end LineCharts
