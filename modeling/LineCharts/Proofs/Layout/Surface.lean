/-
Where a layout stays on its surface, in exact arithmetic.

* `AxisPlan.Planned` — an axis that is planned for a range with something in it;
* `AxisPlan.Planned.fraction_mem` — a value of its range lies between both ends of the axis,
  also where the range is reversed;
* `Layout.tickX_mem`, `Layout.tickY_mem` — so its tick is on the plot;
* `Layout.gridLines` — the lines of the grid, each from point to point;
* `Layout.PlotOnSurface` — the plot and the strip for a legend share the surface;
  `Layout.plotOnSurface_compute` — so they do unless the font is given;
* `Layout.TicksOnPlot` — ticks, labels and the grid are where the plot is;
  `Layout.commands_gridPath`, `Layout.texts_labels` and
  `Layout.ticksOnPlot_compute` — so they are;
* `Layout.onSurface_compute` — both, in every layout whose plot has an area.

Design notes.  A plot with an area is what the margins leave of the surface, so it is on the
surface if they are not negative.  Half a label leaves a margin on the right for every font
that is not smaller than the base font; a font that is given may be smaller.
-/
import LineCharts.Proofs.Axis.Labels
import LineCharts.Proofs.Chart.Containment
import LineCharts.Proofs.Layout.MinorTicks

namespace LineCharts

open Trace (openLine filterMap_openLine)

/-! ### Values of an axis -/

/-- An axis is planned for a range with something in it, steps that are words, and labels that
are not narrower than nothing. -/
structure AxisPlan.Planned (axis : AxisPlan Rat) : Prop where
  eq : axis = .ofRange axis.range axis.steps axis.digits axis.format
  range : axis.range.Bounded
  steps : ∀ s ∈ axis.steps, s ≤ Scalar.maxInt64
  digits : 0 ≤ axis.digits

theorem AxisPlan.planned_ofRange {range : AxisRange Rat} (hrange : range.Bounded)
    {steps : List Int} (hsteps : ∀ s ∈ steps, s ≤ Scalar.maxInt64) {digits : Rat}
    (hdigits : 0 ≤ digits) (format : LabelFormat) :
    (ofRange range steps digits format).Planned :=
  ⟨rfl, hrange, hsteps, hdigits⟩

namespace AxisPlan.Planned

variable {axis : AxisPlan Rat} (h : axis.Planned)

include h

theorem labelStart : axis.labelStart = ⌈axis.range.low⌉ := by
  rw [h.eq]
  exact (labels_ofRange h.range.bottom_le h.range.top_le _ _ _).1

theorem labelEnd : axis.labelEnd = ⌊axis.range.high⌋ := by
  rw [h.eq]
  exact (labels_ofRange h.range.bottom_le h.range.top_le _ _ _).2

/-- Ticks are at values that may have one. -/
theorem mem_of_mem_ticks {step v : Int}
    (hstep : ∃ pixels spacing, step = chooseStep axis.steps axis.range.span pixels spacing)
    (hv : v ∈ axis.ticks step) : axis.labelStart ≤ v ∧ v ≤ axis.labelEnd := by
  obtain ⟨pixels, spacing, rfl⟩ := hstep
  obtain ⟨hpos, hword⟩ := chooseStep_pos axis.steps h.steps axis.range.span pixels spacing
  have hstart : |axis.labelStart| ≤ 2 ^ 62 :=
    h.labelStart ▸ AxisRange.abs_ceil_low_le h.range.bottom_le h.range.top_le
  exact ((mem_ticks_iff hstart hpos hword).mp hv).2

/-- **A value that may have a tick lies between the ends of the axis.** -/
theorem fraction_mem {v : Int} (hv : axis.labelStart ≤ v ∧ v ≤ axis.labelEnd) :
    0 ≤ axis.fraction v ∧ axis.fraction v ≤ 1 := by
  have hlow : axis.range.low ≤ v := Int.ceil_le.mp (h.labelStart ▸ hv.1)
  have hhigh : v ≤ axis.range.high := Int.le_floor.mp (h.labelEnd ▸ hv.2)
  rw [fraction_eq h.range.span]
  rw [AxisRange.low] at hlow
  rw [AxisRange.high] at hhigh
  rcases h.range.span.lt_or_gt with hfalls | hrises
  · have htop : axis.range.top ≤ axis.range.bottom := (sub_neg.mp hfalls).le
    rw [min_eq_right htop] at hlow
    rw [max_eq_left htop] at hhigh
    refine ⟨div_nonneg_of_nonpos (by linarith) hfalls.le, (div_le_one_of_neg hfalls).mpr ?_⟩
    rw [AxisRange.span]
    linarith
  · have htop : axis.range.bottom ≤ axis.range.top := (sub_pos.mp hrises).le
    rw [min_eq_left htop] at hlow
    rw [max_eq_right htop] at hhigh
    refine ⟨div_nonneg (by linarith) hrises.le, (div_le_one hrises).mpr ?_⟩
    rw [AxisRange.span]
    linarith

end AxisPlan.Planned

/-- A part of a whole number of pixels stays a part of it when it is rounded. -/
theorem Exact.round_part_mem {size part : Rat} (hsize : ∃ n : Int, size = n)
    (hpart : 0 ≤ part ∧ part ≤ 1) (hnonneg : 0 ≤ size) :
    0 ≤ (round (size * part) : Rat) ∧ (round (size * part) : Rat) ≤ size := by
  obtain ⟨n, rfl⟩ := hsize
  constructor
  · exact Int.cast_nonneg (round_nonneg (mul_nonneg hnonneg hpart.1))
  · have hle := round_mono (mul_le_of_le_one_right hnonneg hpart.2)
    rw [round_intCast] at hle
    exact Int.cast_le.mpr hle

namespace Layout

/-- Small ticks are at values that may have a tick. -/
theorem mem_of_mem_minorTicks {axis : AxisPlan Rat} {step v : Int}
    (hv : v ∈ minorTicks axis step) :
    axis.labelStart ≤ v ∧ v ≤ axis.labelEnd := by
  rcases Int.lt_or_le (step / 2) 1 with hhalf | hhalf
  · rw [minorTicks, if_pos (by omega)] at hv
    exact absurd hv List.not_mem_nil
  · exact ((mem_minorTicks (by omega)).mp hv).1

section

variable (m : Metrics Rat) {plot : Rect Rat}
  (hplot : ∃ x y width height : Int, plot = ⟨x, y, width, height⟩)
  (harea : plot.isDegenerate = false) {axis : AxisPlan Rat} (haxis : axis.Planned)
include hplot harea haxis

/-- **A value of a horizontal axis has its tick on the plot**, half a line to the left. -/
theorem tickX_mem {v : Int} (hv : axis.labelStart ≤ v ∧ v ≤ axis.labelEnd) :
    tickX m plot axis v ∈ Set.Icc (plot.x - m.half) (plot.right - m.half) := by
  have hwidth := (Rect.isDegenerate_eq_false_iff.mp harea).1.le
  obtain ⟨x, y, width, height, rfl⟩ := hplot
  obtain ⟨hlow, hhigh⟩ := Exact.round_part_mem ⟨width, rfl⟩ (haxis.fraction_mem hv) hwidth
  rw [Rect.right, Set.mem_Icc]
  refine ⟨le_add_of_nonneg_right hlow, ?_⟩
  show (x : Rat) - m.half + Exact.round (width * axis.fraction v) ≤ x + width - m.half
  linarith

/-- **A value of a vertical axis has its tick on the plot**, half a line down. -/
theorem tickY_mem {v : Int} (hv : axis.labelStart ≤ v ∧ v ≤ axis.labelEnd) :
    tickY m plot axis v ∈ Set.Icc (plot.y + m.half) (plot.bottom + m.half) := by
  have hheight := (Rect.isDegenerate_eq_false_iff.mp harea).2.le
  obtain ⟨x, y, width, height, rfl⟩ := hplot
  obtain ⟨hlow, hhigh⟩ := Exact.round_part_mem ⟨height, rfl⟩ (haxis.fraction_mem hv) hheight
  rw [Rect.bottom, Set.mem_Icc]
  refine ⟨?_, sub_le_self _ hlow⟩
  show (y : Rat) + m.half ≤ y + height + m.half - Exact.round (height * axis.fraction v)
  linarith

end

/-! ### The grid -/

section

variable (m : Metrics Rat) (plot : Rect Rat) (axis : AxisPlan Rat) (step : Int)

/-- The lines of the grid: across the plot at each tick, but those at its lower end. -/
def gridLines : List (List (Point Rat)) :=
  ((axis.ticks step).filter fun value => (0.01 : Rat) <
    axis.fraction (Scalar.ofInt value)).map fun value =>
    [⟨plot.x + m.half, tickY m plot axis value⟩,
      ⟨plot.x + plot.width - m.half, tickY m plot axis value⟩]

theorem yGridPath_eq (path : Path Rat) :
    yGridPath path m plot axis step =
      (gridLines m plot axis step).foldl Path.through path := by
  rw [gridLines, List.foldl_map]
  rfl

end

theorem halves_of_mem_gridLines {m : Metrics Rat} (hm : ∃ n : Int, m.stroke = n)
    {plot : Rect Rat} (hplot : ∃ x y width height : Int, plot = ⟨x, y, width, height⟩)
    {axis : AxisPlan Rat} {step : Int} {ps : List (Point Rat)}
    (hps : ps ∈ gridLines m plot axis step) : ∀ p ∈ ps, p.Halves := by
  obtain ⟨value, _, rfl⟩ := List.mem_map.mp hps
  have htick := tickY_mem_halves hm hplot axis value
  obtain ⟨x, y, width, height, rfl⟩ := hplot
  have hhalf := half_mem_halves hm
  have hx := Exact.intCast_mem_halves x
  simp only [List.forall_mem_cons]
  exact ⟨⟨add_mem hx hhalf, htick⟩,
    ⟨sub_mem (add_mem hx (Exact.intCast_mem_halves width)) hhalf, htick⟩,
    List.forall_mem_nil _⟩

/-- The vertices of lines are their points. -/
theorem mem_of_mem_vertices {path : Path Rat} {lines : List (List (Point Rat))}
    (hpath : path.commands.toList = lines.flatMap fun ps => openLine (ps.destutter (· ≠ ·)))
    {p : Point Rat} (hp : p ∈ path.vertices) : ∃ ps ∈ lines, p ∈ ps := by
  rw [Path.vertices, hpath, List.filterMap_flatMap, List.mem_flatMap] at hp
  obtain ⟨ps, hps, hp⟩ := hp
  rw [filterMap_openLine] at hp
  exact ⟨ps, hps, (List.destutter_sublist _ ps).subset hp⟩

/-! ### The plot and the strip -/

/-- The plot and the strip for a legend lie below each other on the
surface, at whole pixels. -/
structure PlotOnSurface (layout : Layout Rat) (strip : LegendStrip Rat) : Prop where
  whole : ∀ edge ∈ [layout.plot.x, layout.plot.right, layout.plot.y, layout.plot.bottom,
    strip.top, strip.top + strip.height], ∃ n : Int, edge = n
  left : 0 ≤ layout.plot.x
  right : layout.plot.right ≤ layout.viewport.width
  top : 0 ≤ layout.plot.y
  below : layout.plot.bottom ≤ strip.top
  height : 0 ≤ strip.height
  bottom : strip.top + strip.height = layout.viewport.height
  width : strip.surfaceWidth = layout.viewport.width

namespace Metrics

/-- A font that is not given is not smaller than the base font. -/
theorem one_le_fontFactor {params : Params Rat} (h : params.fontSize ≤ 0) :
    1 ≤ (Metrics.of params).fontFactor := by
  have hfactor := Scalar.clamp_mem (by norm_num : (1.0 : Rat) ≤ 1.35)
  rw [Metrics.of, if_neg (by rw [Exact.zero_lit]; exact not_lt.mpr h)]
  exact Exact.one_lit ▸ (hfactor _).1

/-- What is left of a size, where something is left. -/
theorem max_zero_of_pos {rest : Rat} (h : 0 < max rest 0.0) : max rest 0.0 = rest := by
  rw [Exact.zero_lit] at h ⊢
  exact max_eq_left ((lt_max_iff.mp h).resolve_right (lt_irrefl _)).le

section

variable {m : Metrics Rat} {params : Params Rat} {xDigits yDigits : Rat}
  (harea : (m.plot params xDigits yDigits).isDegenerate = false)

include harea

/-- A plot with an area ends where the right margin starts. -/
theorem right_plot : (m.plot params xDigits yDigits).right = params.width -
    Scalar.round (((xDigits * digitWidth / 2.0 + 2.75) * m.fontFactor - 1.0) * m.scale) := by
  have hwidth := max_zero_of_pos (Rect.isDegenerate_eq_false_iff.mp harea).1
  show Scalar.round ((yDigits * digitWidth * m.fontFactor + 5.0) * m.scale) + max _ 0.0 =
    Scalar.ofNat params.width - _
  rw [hwidth]
  ring

/-- It ends above the lower margin and the strip for a legend. -/
theorem bottom_plot : (m.plot params xDigits yDigits).bottom = params.height -
    Scalar.round ((14.0 * m.fontFactor + 5.0) * m.scale) - m.legendStrip params.legend := by
  have hheight := max_zero_of_pos (Rect.isDegenerate_eq_false_iff.mp harea).2
  show Scalar.round (4.0 * m.fontFactor * m.scale) + max _ 0.0 =
    Scalar.ofNat params.height - _ - _
  rw [hheight]
  ring

/-- **A plot with an area is inside the surface**, above the strip for a legend, if the font
is not smaller than the base font. -/
theorem plot_inside (hscale : 0 < m.scale) (hfont : 1 ≤ m.fontFactor) (hx : 0 ≤ xDigits)
    (hy : 0 ≤ yDigits) :
    let plot := m.plot params xDigits yDigits
    (0 ≤ plot.x ∧ plot.right ≤ params.width) ∧
      0 ≤ plot.y ∧ plot.bottom ≤ params.height - m.legendStrip params.legend := by
  intro plot
  have hdigit : (0 : Rat) < digitWidth := by norm_num [digitWidth]
  have hpos : 0 < m.fontFactor := one_pos.trans_le hfont
  have hround {x : Rat} (hx : 0 ≤ x) : (0 : Rat) ≤ Scalar.round x :=
    Int.cast_nonneg (Exact.round_nonneg hx)
  have hleft :=
    hround (by positivity : 0 ≤ (yDigits * digitWidth * m.fontFactor + 5.0) * m.scale)
  have htop := hround (by positivity : 0 ≤ 4.0 * m.fontFactor * m.scale)
  have hbottom := hround (by positivity : 0 ≤ (14.0 * m.fontFactor + 5.0) * m.scale)
  -- half a label on the right is wider than what it lacks of a pixel
  have hlabel : 1 ≤ (xDigits * digitWidth / 2.0 + 2.75) * m.fontFactor :=
    one_le_mul_of_one_le_of_one_le
      (le_add_of_nonneg_of_le (by positivity) (by norm_num)) hfont
  have hright := hround (mul_nonneg (sub_nonneg.mpr (Exact.one_lit ▸ hlabel)) hscale.le)
  rw [right_plot harea, bottom_plot harea]
  exact ⟨⟨hleft, sub_le_self _ hright⟩, htop, by linarith⟩

end

end Metrics

/-- **The plot and the strip for a legend share the surface**, if the font is not given and
the plot has an area. -/
theorem plotOnSurface_compute {params : Params Rat} (hfont : params.fontSize ≤ 0)
    {xAxis yAxis : AxisPlan Rat} (hx : 0 ≤ xAxis.digits) (hy : 0 ≤ yAxis.digits)
    (legend : Option (Legend Rat)) (measure : TextMeasure Rat)
    (harea : (compute params xAxis yAxis legend measure).plot.isDegenerate = false) :
    let layout := compute params xAxis yAxis legend measure
    layout.PlotOnSurface (stripOf layout.metrics params.normalize layout.palette.text) := by
  intro layout
  obtain ⟨m, hm⟩ : ∃ m, m = Metrics.of params.normalize := ⟨_, rfl⟩
  have hscale : 0 < m.scale := hm ▸ (Metrics.positive_of params.scaleFactor_pos).scale
  have hfactor : 1 ≤ m.fontFactor := by
    refine hm ▸ Metrics.one_le_fontFactor ?_
    show (if _ then (0.0 : Rat) else params.fontSize) ≤ 0
    split
    · exact Exact.zero_lit.le
    · exact hfont
  have hplot : layout.plot = m.plot params.normalize xAxis.digits yAxis.digits := hm ▸ rfl
  have hstrip : stripOf layout.metrics params.normalize layout.palette.text =
      stripOf m params.normalize layout.palette.text := hm ▸ rfl
  obtain ⟨⟨hleft, hright⟩, htop, hbelow⟩ :=
    Metrics.plot_inside (hplot ▸ harea) hscale hfactor hx hy
  obtain ⟨x, y, width, height, hwhole⟩ :=
    m.exists_plot_eq params.normalize xAxis.digits yAxis.digits
  obtain ⟨n, hn⟩ := m.exists_legendStrip_eq params.normalize.legend
  have hheight :=
    Metrics.legendStrip_nonneg hscale (one_pos.trans_le hfactor) params.normalize.legend
  rw [hstrip]
  constructor
  case whole =>
    have htop : (stripOf m params.normalize layout.palette.text).top =
        (params.height - n : Int) := by
      rw [Int.cast_sub, ← hn]
      rfl
    rw [hplot, hwhole, htop]
    simp only [List.forall_mem_cons]
    have hbottom : (params.height - n : Int) + m.legendStrip params.normalize.legend =
        ((params.height - n + n : Int) : Rat) := by
      rw [hn, Int.cast_add]
    exact ⟨⟨x, rfl⟩, ⟨x + width, (Int.cast_add x width).symm⟩, ⟨y, rfl⟩,
      ⟨y + height, (Int.cast_add y height).symm⟩, ⟨_, rfl⟩, ⟨_, hbottom⟩,
        List.forall_mem_nil _⟩
  case left => exact hplot ▸ hleft
  case right => exact hplot ▸ hright
  case top => exact hplot ▸ htop
  case below => exact hplot ▸ hbelow
  case height => exact hheight
  case bottom => exact sub_add_cancel _ _
  case width => rfl

/-! ### Ticks, labels and the grid -/

/-- The ticks of both axes ascend and are on the plot, and so is the grid; each tick has one
label, those of the horizontal axis before those of the vertical one. -/
structure TicksOnPlot (layout : Layout Rat) (xAxis yAxis : AxisPlan Rat) : Prop where
  marked : layout.Marked xAxis yAxis
  grid : layout.gridPath.commands.toList =
    (gridLines layout.metrics layout.plot yAxis layout.stepY).flatMap fun ps =>
      openLine (ps.destutter (· ≠ ·))
  texts : layout.labels.map Label.text =
    (xAxis.ticks layout.stepX).map (xAxis.tickLabel layout.stepX) ++
    (yAxis.ticks layout.stepY).map (yAxis.tickLabel layout.stepY)
  ascendingX : (xAxis.ticks layout.stepX).Pairwise (· < ·)
  ascendingY : (yAxis.ticks layout.stepY).Pairwise (· < ·)
  x : ∀ v ∈ xAxis.ticks layout.stepX, tickX layout.metrics layout.plot xAxis v ∈
    Set.Icc (layout.plot.x - layout.metrics.half) (layout.plot.right - layout.metrics.half)
  y : ∀ v ∈ yAxis.ticks layout.stepY ++ minorTicks yAxis layout.stepY,
    tickY layout.metrics layout.plot yAxis v ∈
      Set.Icc (layout.plot.y + layout.metrics.half) (layout.plot.bottom + layout.metrics.half)
  gridY : ∀ p ∈ layout.gridPath.vertices,
    p.y ∈ Set.Icc (layout.plot.y + layout.metrics.half)
      (layout.plot.bottom + layout.metrics.half)

section

variable {layout : Layout Rat} {xAxis yAxis : AxisPlan Rat} {params : Params Rat}
  {legend : Option (Legend Rat)} {measure : TextMeasure Rat}
  (hlayout : layout = compute params xAxis yAxis legend measure)

include hlayout

/-- **Every layout draws its grid** as it is. -/
theorem commands_gridPath : layout.gridPath.commands.toList =
    (gridLines layout.metrics layout.plot yAxis layout.stepY).flatMap fun ps =>
      openLine (ps.destutter (· ≠ ·)) := by
  have hm : ∃ n : Int, layout.metrics.stroke = n :=
    hlayout ▸ Metrics.exists_stroke_eq params.normalize
  have hplot : ∃ x y width height : Int, layout.plot = ⟨x, y, width, height⟩ :=
    hlayout ▸ (Metrics.of params.normalize).exists_plot_eq params.normalize
      xAxis.digits yAxis.digits
  have hstepY : 0 < layout.stepY := hlayout ▸ zero_lt_chooseStep _ _ _ _
  have hgridPath : layout.gridPath =
      yGridPath .empty layout.metrics layout.plot yAxis (max layout.stepY 1) :=
    hlayout ▸ rfl
  rw [hgridPath, max_eq_left hstepY, yGridPath_eq]
  exact commands_lines fun ps hps => halves_of_mem_gridLines hm hplot hps

/-- **Every layout labels its ticks**, those of the horizontal axis first. -/
theorem texts_labels : layout.labels.map Label.text =
    (xAxis.ticks layout.stepX).map (xAxis.tickLabel layout.stepX) ++
      (yAxis.ticks layout.stepY).map (yAxis.tickLabel layout.stepY) := by
  have hstepY : 0 < layout.stepY := hlayout ▸ zero_lt_chooseStep _ _ _ _
  have hlabels : layout.labels =
      xLabels layout.metrics layout.plot layout.palette.text xAxis layout.stepX ++
      yLabels layout.metrics layout.plot layout.palette.text yAxis (max layout.stepY 1) :=
      hlayout ▸ rfl
  rw [hlabels, max_eq_left hstepY, List.map_append, xLabels, yLabels,
    List.map_map, List.map_map]
  rfl

/-- **Ticks, labels and the grid are where the plot is**, if it has an area. -/
theorem ticksOnPlot_compute (hx : xAxis.Planned) (hy : yAxis.Planned)
    (harea : layout.plot.isDegenerate = false) :
    layout.TicksOnPlot xAxis yAxis := by
  have hplot : ∃ x y width height : Int, layout.plot = ⟨x, y, width, height⟩ :=
    hlayout ▸ (Metrics.of params.normalize).exists_plot_eq params.normalize
      xAxis.digits yAxis.digits
  have hstepX : ∃ pixels spacing,
      layout.stepX = chooseStep xAxis.steps xAxis.range.span pixels spacing :=
    hlayout ▸ ⟨_, _, rfl⟩
  have hstepY : ∃ pixels spacing,
      layout.stepY = chooseStep yAxis.steps yAxis.range.span pixels spacing :=
    hlayout ▸ ⟨_, _, rfl⟩
  have hposX : 0 < layout.stepX := hlayout ▸ zero_lt_chooseStep _ _ _ _
  have hposY : 0 < layout.stepY := hlayout ▸ zero_lt_chooseStep _ _ _ _
  have hgrid := commands_gridPath hlayout
  have hticksY : ∀ v ∈ yAxis.ticks layout.stepY ++ minorTicks yAxis layout.stepY,
      tickY layout.metrics layout.plot yAxis v ∈
        Set.Icc (layout.plot.y + layout.metrics.half)
          (layout.plot.bottom + layout.metrics.half) := by
    intro v hv
    refine tickY_mem layout.metrics hplot harea hy ?_
    rcases List.mem_append.mp hv with hv | hv
    · exact hy.mem_of_mem_ticks hstepY hv
    · exact mem_of_mem_minorTicks hv
  constructor
  case marked => exact hlayout ▸ marked_compute params legend measure xAxis yAxis
  case grid => exact hgrid
  case texts => exact texts_labels hlayout
  case ascendingX => exact (AxisPlan.pairwise_ticks hposX).imp fun h => by omega
  case ascendingY => exact (AxisPlan.pairwise_ticks hposY).imp fun h => by omega
  case x =>
    intro v hv
    exact tickX_mem layout.metrics hplot harea hx (hx.mem_of_mem_ticks hstepX hv)
  case y => exact hticksY
  case gridY =>
    intro p hp
    obtain ⟨ps, hps, hp⟩ := mem_of_mem_vertices hgrid hp
    obtain ⟨v, hv, rfl⟩ := List.mem_map.mp hps
    -- both ends of a line are as high as its tick
    have hmem := hticksY v (List.mem_append_left _ (List.mem_of_mem_filter hv))
    simp only [List.mem_cons, List.not_mem_nil, or_false] at hp
    rcases hp with rfl | rfl
    · exact hmem
    · exact hmem

end

/-- **Every layout stays on its surface**, where its plot has an area and its font is not
given: the plot and the strip for a legend share the surface, and ticks, labels and the
grid are where the plot is.  The ranges may be reversed, and the legend and the other
parameters may be any. -/
theorem onSurface_compute {xAxis yAxis : AxisPlan Rat} (hx : xAxis.Planned)
    (hy : yAxis.Planned) {params : Params Rat} (hfont : params.fontSize ≤ 0)
    (legend : Option (Legend Rat)) (measure : TextMeasure Rat) :
    let layout := compute params xAxis yAxis legend measure
    layout.plot.isDegenerate = false →
      layout.PlotOnSurface (stripOf layout.metrics params.normalize layout.palette.text) ∧
      layout.TicksOnPlot xAxis yAxis :=
  fun harea => ⟨plotOnSurface_compute hfont hx.digits hy.digits legend measure harea,
    ticksOnPlot_compute rfl hx hy harea⟩

/-- A day from the oldest minute down to the last, and noise in decibels, with a legend and
two device pixels for one of a layout.  The first tick is at the right edge of the plot, the
last one at its left edge. -/
theorem onSurface_compute_day :
    let time : AxisPlan Rat := .ofRange ⟨1440, 0⟩ [60, 120, 360, 720] 5.5 .duration
    let noise : AxisPlan Rat := .ofRange ⟨-160, -69⟩ [1, 2, 5, 10, 20] 3.75 .integer
    let params : Params Rat :=
      { Params.withLegend with width := 1120, height := 264, scaleFactor := 2 }
    let layout := compute params time noise (some ⟨"Noise", []⟩) approximateWidth
    (time.ticks layout.stepX).head? = some 0 ∧
      tickX layout.metrics layout.plot time 0 = layout.plot.right - layout.metrics.half ∧
      tickX layout.metrics layout.plot time 1440 = layout.plot.x - layout.metrics.half ∧
      layout.PlotOnSurface (stripOf layout.metrics params.normalize layout.palette.text) ∧
      layout.TicksOnPlot time noise := by
  intro time noise params layout
  have htime : time.Planned := by
    refine AxisPlan.planned_ofRange ?_ (by decide) (by norm_num) .duration
    constructor <;> norm_num [AxisRange.span]
  have hnoise : noise.Planned := by
    refine AxisPlan.planned_ofRange ?_ (by decide) (by norm_num) .integer
    constructor <;> norm_num [AxisRange.span]
  have hfont : params.fontSize ≤ 0 := Exact.zero_lit.le
  have harea : layout.plot.isDegenerate = false := by decide +kernel
  exact ⟨by decide +kernel, by decide +kernel, by decide +kernel,
    onSurface_compute htime hnoise hfont (some ⟨"Noise", []⟩) approximateWidth harea⟩

/-- A small font that is given leaves less than no margin on the right of narrow labels. -/
example :
    let axis : AxisPlan Rat := .ofRange ⟨0, 100⟩ [10, 20, 50] 0 .integer
    let layout :=
      compute { (Params.default : Params Rat) with fontSize := 1 } axis axis none
        approximateWidth
    layout.plot.right = layout.viewport.width + 1 := by
  decide +kernel

end Layout

end LineCharts
