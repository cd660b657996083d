/-
Where fills stay inside the plot, in exact arithmetic.

* `Rect.Holds`, `FilledPath.Inside` — a point in a rectangle, a fill with
  all its vertices in it;
* `Layout.inside_upright_iff` — a fill of a chart is inside the plot if its path is in a box;
* `Carriers.Fits` — a series has no more groups than there are carriers for;
* `Carriers.inside_area` — the areas of a series that fits are inside, whatever its samples;
* `Carriers.areas_inside` — so are those on the frames of both charts with areas;
* `BitLoading.inside_polygon_iff` — the steps of a series that fits are inside just if no
  sample is half a pixel above the range;
* `BitLoading.polygons_inside_iff` — so are those on the frames of the chart just if no sample
  is half a pixel above the fixed range, whether the axis follows the data or not.

Design notes.  Areas are cut off at the upper end of the range.  Bit loading is not: its axis
follows the data up to a fixed end only.  In both, heights are rounded, but the plot is a
whole number of pixels high.
-/
import LineCharts.Chart.LineNoise
import LineCharts.Proofs.Chart.Parts
import LineCharts.Proofs.Chart.Ranges
import LineCharts.Proofs.Chart.Tracing
import LineCharts.Proofs.Trace.Box

namespace LineCharts

open Trace (sampleAt segments corners area mem_corners)

variable {δ : Type}

/-! ### Rectangles -/

/-- The point is in the rectangle; its edges belong to it. -/
def Rect.Holds (r : Rect Rat) (p : Point Rat) : Prop :=
  (r.x ≤ p.x ∧ p.x ≤ r.right) ∧ r.y ≤ p.y ∧ p.y ≤ r.bottom

instance (r : Rect Rat) (p : Point Rat) : Decidable (r.Holds p) :=
  inferInstanceAs (Decidable (_ ∧ _))

/-- All vertices of a fill are in the rectangle, where they are drawn. -/
def FilledPath.Inside (d : FilledPath Rat) (r : Rect Rat) : Prop :=
  ∀ p ∈ d.path.vertices, r.Holds (d.transform.apply p.x p.y)

instance (d : FilledPath Rat) (r : Rect Rat) : Decidable (d.Inside r) :=
  inferInstanceAs (Decidable (∀ p ∈ d.path.vertices, _))

/-- The map of a chart with so many carriers. -/
def Layout.upright (layout : Layout Rat) (count : Nat) : Transform Rat :=
  .upright layout.plot.x layout.plot.bottom (layout.scaleX count) 1.0

/-- **A fill of a chart is inside the plot** if its path is in a box, as wide as there are
carriers and as high as the plot. -/
theorem Layout.inside_upright_iff {layout : Layout Rat}
    (hplot : layout.plot.isDegenerate = false) (count : Nat) (path : Path Rat)
    (color : Color Rat) :
    FilledPath.Inside ⟨path, layout.upright count, color⟩ layout.plot ↔
      ∀ p ∈ path.vertices, p.Within (max count 1 : Nat) layout.plot.height := by
  have hscale := scaleX_pos hplot count
  have hcount : (0 : Rat) < (max count 1 : Nat) := Nat.cast_pos.mpr (by omega)
  have hwidth : layout.plot.width = layout.scaleX count * (max count 1 : Nat) :=
    (div_mul_cancel₀ _ hcount.ne').symm
  refine forall₂_congr fun p _ => ?_
  rw [upright, Transform.apply_upright, Exact.one_lit, one_mul, Rect.Holds, Rect.right,
    Rect.bottom, Point.Within, hwidth]
  refine and_congr (and_congr ?_ ?_) ?_
  · rw [le_add_iff_nonneg_right, mul_nonneg_iff_of_pos_left hscale]
  · rw [add_le_add_iff_left, mul_le_mul_iff_right₀ hscale]
  · rw [and_comm]
    refine and_congr ?_ ?_
    · rw [sub_le_self_iff]
    · rw [le_sub_iff_add_le, add_le_add_iff_left]

/-! ### Surfaces of plots -/

namespace Layout.Metrics

theorem fontFactor_pos (params : Params Rat) : 0 < (Metrics.of params).fontFactor := by
  have hbase : (0 : Rat) < baseFontSize := by
    rw [baseFontSize]
    norm_num
  rw [Metrics.of]
  split
  case isTrue hfont => exact div_pos (Exact.zero_lit ▸ hfont) hbase
  case isFalse =>
    have hfactor := Scalar.clamp_mem (by norm_num : (1.0 : Rat) ≤ 1.35)
    exact lt_of_lt_of_le (by norm_num) (hfactor _).1

theorem legendStrip_nonneg {m : Metrics Rat} (hscale : 0 < m.scale) (hfont : 0 < m.fontFactor)
    (legend : Bool) :
    0 ≤ m.legendStrip legend := by
  rw [legendStrip]
  split
  · refine Int.cast_nonneg (Exact.round_nonneg ?_)
    rw [legendStripHeight]
    positivity
  · exact Exact.zero_lit.ge

/-- **A plot with an area is on a surface with pixels**, as labels are not
narrower than nothing. -/
theorem isValid_of_plot {params : Params Rat} {m : Metrics Rat} (hscale : 0 < m.scale)
    (hfont : 0 < m.fontFactor) {xDigits yDigits : Rat} (hx : 0 ≤ xDigits) (hy : 0 ≤ yDigits)
    (hplot : (m.plot params xDigits yDigits).isDegenerate = false) :
    params.viewport.isValid = true := by
  obtain ⟨hwidth, hheight⟩ := Rect.isDegenerate_eq_false_iff.mp hplot
  have hdigit : (0 : Rat) < digitWidth := by norm_num [digitWidth]
  have hround {x : Rat} (hx : 0 ≤ x) : (0 : Rat) ≤ (Scalar.round x : Rat) :=
    Int.cast_nonneg (Exact.round_nonneg hx)
  -- the left margin makes up for what a small font takes from the right one
  have hmargins :
      (0 : Rat) ≤ Scalar.round ((yDigits * digitWidth * m.fontFactor + 5.0) * m.scale) +
      Scalar.round (((xDigits * digitWidth / 2.0 + 2.75) * m.fontFactor - 1.0) *
      m.scale) := by
    have hleft : m.scale ≤ (yDigits * digitWidth * m.fontFactor + 5.0) * m.scale :=
      le_mul_of_one_le_left hscale.le (le_add_of_nonneg_of_le (by positivity) (by norm_num))
    have hright :
        -m.scale ≤ ((xDigits * digitWidth / 2.0 + 2.75) * m.fontFactor - 1.0) * m.scale := by
      have hpart : 0 ≤ (xDigits * digitWidth / 2.0 + 2.75) * m.fontFactor * m.scale := by
        positivity
      rw [sub_mul, Exact.one_lit, one_mul]
      linarith
    have hsum := add_le_add (Exact.round_mono hleft) (Exact.round_mono hright)
    rw [Exact.round_neg, add_neg_cancel] at hsum
    have hcast : ((0 : Int) : Rat) ≤ (_ + _ : Int) := Int.cast_le.mpr hsum
    rwa [Int.cast_add, Int.cast_zero] at hcast
  have hstrip := legendStrip_nonneg hscale hfont params.legend
  have htop : (0 : Rat) ≤ Scalar.round (4.0 * m.fontFactor * m.scale) :=
    hround (by positivity)
  have hbottom : (0 : Rat) ≤ Scalar.round ((14.0 * m.fontFactor + 5.0) * m.scale) :=
    hround (by positivity)
  rw [plot, Exact.zero_lit] at hwidth hheight
  have hwidth' := (lt_max_iff.mp hwidth).resolve_right (lt_irrefl _)
  have hheight' := (lt_max_iff.mp hheight).resolve_right (lt_irrefl _)
  have hpos : (0 : Rat) < params.width := by
    show 0 < Scalar.ofNat params.width
    linarith
  have hpos' : (0 : Rat) < params.height := by
    show 0 < Scalar.ofNat params.height
    linarith
  rw [Params.viewport, Viewport.isValid, Bool.and_eq_true, decide_eq_true_eq,
    decide_eq_true_eq]
  exact ⟨Nat.cast_pos.mp hpos, Nat.cast_pos.mp hpos'⟩

end Layout.Metrics

/-- Plots are a whole number of pixels high. -/
theorem ChartKind.exists_height_eq (kind : ChartKind Rat δ) (params : Params Rat) (data : δ)
    (measure : TextMeasure Rat) :
    ∃ height : Int, (kind.layout params data measure).plot.height = height :=
  kind.plot_layout params data measure ▸ Layout.exists_height_eq params _ _

theorem Carriers.labelDigits_nonneg :
    (0 : Rat) ≤ carrierLabelDigits ∧ (0 : Rat) ≤ labelDigits := by
  rw [carrierLabelDigits, labelDigits]
  norm_num

/-- The frame of a new chart has these fills in front of the shades of bands, in order, but
those without an outline. -/
def ChartKind.FillsAre (kind : ChartKind Rat δ) (params : Params Rat) (data : δ)
    (measure : TextMeasure Rat) (bins : Bins Rat) (colored : Bool)
    (fills : List (FilledPath Rat)) : Prop :=
  let layout := kind.layout params data measure
  ((Chart.new kind params data).frame measure).2.fills =
    (Carriers.paintBands bins layout colored (.empty layout.viewport)).fills ++
      fills.filter fun d => !d.path.isEmpty

/-- **The fills of a new chart** are those that its data adds behind everything
but the background. -/
theorem ChartKind.fillsAre_of {kind : ChartKind Rat δ} {params : Params Rat} {data : δ}
    {measure : TextMeasure Rat} {bins : Bins Rat} {colored : Bool}
    {fills : List (FilledPath Rat)}
    (hdigits : 0 ≤ (kind.xAxis data).digits ∧ 0 ≤ (kind.yAxis data params.dynamic).digits)
    (hplot : (kind.layout params data measure).plot.isDegenerate = false)
    (hpaint : ∀ frame,
      (kind.paint data (kind.layout params data measure)
      (kind.yAxis data params.dynamic).range frame).fills =
      (Carriers.paintBands bins (kind.layout params data measure) colored frame).fills ++
      fills.filter fun d => !d.path.isEmpty) :
    kind.FillsAre params data measure bins colored fills := by
  have hplotFor := hplot
  rw [kind.plot_layout, Layout.plotFor] at hplotFor
  have hvalid : params.viewport.isValid = true :=
    Layout.Metrics.isValid_of_plot (Layout.Metrics.positive_of params.scaleFactor_pos).scale
      (Layout.Metrics.fontFactor_pos _) hdigits.1 hdigits.2 hplotFor
  have hbands (frame : Frame Rat) :
      (Carriers.paintBands bins (kind.layout params data measure) colored frame).fills =
      frame.fills ++ (Carriers.paintBands bins (kind.layout params data measure) colored
        (.empty (kind.layout params data measure).viewport)).fills := by
    rw [Carriers.paintBands, Carriers.paintBands, BandShades.paint, BandShades.paint]
    simp only [Frame.fills_pushStroke, Frame.fills_pushFill, List.append_assoc]
    rfl
  rw [FillsAre, Chart.frame_new kind hvalid, Frame.fills_eq,
    Layout.select_drawn_of_none (fun _ => rfl) (fun _ => rfl) (fun _ => rfl) hplot fun d =>
    Layout.exists_of_mem_legend_compute, ← Frame.fills_eq, hpaint,
    hbands, Frame.fills_eq, Layout.select_paintBackground (fun _ => rfl) (fun _ => rfl)]
  rfl

/-! ### Areas -/

namespace Carriers

/-- The groups of both directions have at most so many carriers.  A group has one at least. -/
def Fits (series : PerDirection (CarrierSeries Rat)) (binCount : Nat) : Prop :=
  ∀ s ∈ [series.down, series.up], s.samples.length * max s.groupSize 1 ≤ binCount

instance (series : PerDirection (CarrierSeries Rat)) (binCount : Nat) :
    Decidable (Fits series binCount) :=
  inferInstanceAs (Decidable (∀ s ∈ [series.down, series.up], _))

/-- The edges of the groups are at the carriers of the line. -/
theorem Fits.edge_le {series : PerDirection (CarrierSeries Rat)} {binCount : Nat}
    (h : Fits series binCount) {s : CarrierSeries Rat} (hs : s ∈ [series.down, series.up])
    {b : Nat} (hb : b ≤ s.samples.length) :
    (b : Rat) * (max s.groupSize 1 : Nat) ≤ (max binCount 1 : Nat) := by
  have hle : b * max s.groupSize 1 ≤ max binCount 1 :=
    ((Nat.mul_le_mul_right _ hb).trans (h s hs)).trans (le_max_left _ _)
  exact_mod_cast hle

/-- The vertices of areas are the corners of their runs. -/
theorem mem_vertices_areaPath {series : PerDirection (CarrierSeries Rat)}
    {scale : Trace.FillScale Rat} {p : Point Rat} :
    p ∈ (areaPath series scale).vertices ↔ ∃ s ∈ [series.down, series.up],
      ∃ run ∈ segments (scale.drawsAt (sampleAt s.samples)) (fun _ => false) s.samples.length,
        p ∈ corners 10 (area (sampleAt s.samples) (max s.groupSize 1 : Nat)
          (scale.heightAt (sampleAt s.samples)) run.1 run.2) := by
  have houtlines (s : CarrierSeries Rat) :
      p ∈ (outlines 10 s scale).filterMap PathCommand.point? ↔
      ∃ run ∈ segments (scale.drawsAt (sampleAt s.samples)) (fun _ => false) s.samples.length,
        p ∈ corners 10 (area (sampleAt s.samples) (max s.groupSize 1 : Nat)
          (scale.heightAt (sampleAt s.samples)) run.1 run.2) := by
    rw [outlines, List.filterMap_flatMap, List.mem_flatMap]
    simp only [Trace.filterMap_polygon]
  rw [Path.vertices, commands_areaPath, List.filterMap_append, List.mem_append,
    houtlines, houtlines]
  simp only [List.exists_mem_cons_iff, List.not_mem_nil, false_and, exists_false, or_false]

/-- The area on a layout. -/
def areaFill (rule : LimitRule Rat) (bins : Bins Rat)
    (series : PerDirection (CarrierSeries Rat)) (layout : Layout Rat)
    (range : AxisRange Rat) : FilledPath Rat :=
  ⟨areaPath series (areaScale rule layout.plot range), layout.upright bins.binCount,
    layout.palette.neutralFill⟩

/-- **Areas are inside the plot**, whatever the samples: those that are drawn are above the
lower end of the range, and cut off at its upper end. -/
theorem inside_area (rule : LimitRule Rat) {bins : Bins Rat}
    {series : PerDirection (CarrierSeries Rat)} (hfits : Fits series bins.binCount)
    {layout : Layout Rat} (hplot : layout.plot.isDegenerate = false)
    (hwhole : ∃ height : Int, layout.plot.height = height) {range : AxisRange Rat}
    (hrange : range.Rises) :
    (areaFill rule bins series layout range).Inside layout.plot := by
  refine (Layout.inside_upright_iff hplot _ _ _).mpr fun p hp => ?_
  obtain ⟨s, hs, ⟨a, b⟩, hrun, hp⟩ := mem_vertices_areaPath.mp hp
  obtain ⟨q, hq, rfl⟩ := mem_corners.mp hp
  obtain ⟨height, hheight⟩ := hwhole
  have hmax := Trace.mem_segments.mp hrun
  have hpos := (Rect.isDegenerate_eq_false_iff.mp hplot).2
  have hheights : ∀ i, a ≤ i → i < b →
      0 ≤ (areaScale rule layout.plot range).heightAt (sampleAt s.samples) i ∧
        (areaScale rule layout.plot range).heightAt (sampleAt s.samples) i ≤
          layout.plot.height := by
    intro i hai hib
    obtain ⟨v, _, hdraws, hheightAt⟩ := Trace.FillScale.exists_of_drawsAt (hmax.all i hai hib)
    have habove : range.bottom < v := (Trace.FillScale.draws_iff.mp hdraws).1
    have hscale : 0 ≤ layout.plot.height / range.span := (div_pos hpos hrange.span_pos).le
    rw [hheightAt]
    exact ⟨mul_nonneg (sub_nonneg.mpr (le_min hrange.le habove.le)) hscale,
      (hrange.scaled_mem hpos v).1⟩
  have hwithin := Trace.within_area hmax.lt (hfits.edge_le hs hmax.le) hpos.le hheights q hq
  rw [hheight] at hwithin ⊢
  have hround := @Point.Within.round (max bins.binCount 1 : Nat) height q hwithin 1
  rwa [pow_one] at hround

end Carriers

/-- On every plot with an area, the area of a series is the one fill on the frame of a new
chart that is not of bands, if it has an outline, and it is inside the plot. -/
def ChartKind.AreaInside (kind : ChartKind Rat δ) (data : δ) (rule : LimitRule Rat)
    (bins : Bins Rat) (series : PerDirection (CarrierSeries Rat)) : Prop :=
  ∀ (params : Params Rat) (measure : TextMeasure Rat),
    let layout := kind.layout params data measure
    layout.plot.isDegenerate = false →
      let fill :=
        Carriers.areaFill rule bins series layout (kind.yAxis data params.dynamic).range
      kind.FillsAre params data measure bins true [fill] ∧ fill.Inside layout.plot

/-- **Areas stay inside the plot**, on the charts of the signal-to-noise ratio and of line
noise, with fixed axes and with those that follow the data. -/
theorem Carriers.areas_inside (bins : Bins Rat) :
    (∀ history, Fits bins.snr bins.binCount →
      ChartKind.AreaInside SignalToNoise.kind ⟨some bins, history⟩ SignalToNoise.limits
        bins bins.snr) ∧
    (Fits bins.qln bins.binCount →
      ChartKind.AreaInside LineNoise.kind (some bins) LineNoise.limits bins bins.qln) := by
  constructor
  · intro history hfits params measure layout hplot fill
    refine ⟨ChartKind.fillsAre_of labelDigits_nonneg hplot fun frame => ?_,
      inside_area _ hfits hplot (ChartKind.exists_height_eq _ _ _ _)
      (SignalToNoise.rises_yAxis _ params.dynamic)⟩
    show (SignalToNoise.paint _ _ _ frame).fills = _
    rw [SignalToNoise.paint]
    dsimp only
    split
    · exact (Frame.fills_pushLayer _ _).trans (Frame.fills_pushFill _ _)
    · exact Frame.fills_pushFill _ _
  · intro hfits params measure layout hplot fill
    exact ⟨ChartKind.fillsAre_of labelDigits_nonneg hplot fun frame =>
      Frame.fills_pushFill _ _,
        inside_area _ hfits hplot (ChartKind.exists_height_eq _ _ _ _)
        (LineNoise.rises_yAxis _ params.dynamic)⟩

/-- Groups of two carriers, one of them above the fixed range, on a line of four. -/
theorem Carriers.areas_inside_high :
    let bins : Bins Rat :=
      { Bins.empty with
        binCount := 4, snr := ⟨⟨2, [some 70, some 30]⟩, .empty⟩,
          qln := ⟨⟨2, [some (-60)]⟩, .empty⟩ }
    let snrLayout :=
      ChartKind.layout SignalToNoise.kind .default ⟨some bins, none⟩ approximateWidth
    let qlnLayout := ChartKind.layout LineNoise.kind .default (some bins) approximateWidth
    (Fits bins.snr 4 ∧ Fits bins.qln 4) ∧
      (snrLayout.plot.isDegenerate = false ∧ qlnLayout.plot.isDegenerate = false) ∧
      (areaFill SignalToNoise.limits bins bins.snr snrLayout
        ((SignalToNoise.kind : ChartKind Rat _).yAxis ⟨some bins, none⟩ false).range).Inside
          snrLayout.plot ∧
      (areaFill LineNoise.limits bins bins.qln qlnLayout
        ((LineNoise.kind : ChartKind Rat _).yAxis (some bins) false).range).Inside
          qlnLayout.plot := by
  intro bins snrLayout qlnLayout
  have hsnr : Fits bins.snr 4 := by decide
  have hqln : Fits bins.qln 4 := by decide
  have hplots : snrLayout.plot.isDegenerate = false ∧
    qlnLayout.plot.isDegenerate = false := by decide +kernel
  obtain ⟨hareas, hnoise⟩ := areas_inside bins
  exact ⟨⟨hsnr, hqln⟩, hplots, (hareas none hsnr .default approximateWidth hplots.1).2,
    (hnoise hqln .default approximateWidth hplots.2).2⟩

/-! ### Bit loading -/

namespace BitLoading

/-- The polygon of one direction on a layout. -/
def polygon (layout : Layout Rat) (range : AxisRange Rat) (binCount : Nat)
    (s : CarrierSeries Rat) (color : Color Rat) : FilledPath Rat :=
  ⟨Trace.steps .empty s (layout.plot.height / range.top), layout.upright binCount, color⟩

/-- The polygons of both directions, the one of `Direction.down` on top. -/
def polygons (bins : Bins Rat) (layout : Layout Rat) (range : AxisRange Rat) :
    List (FilledPath Rat) :=
  [polygon layout range bins.binCount bins.bits.up layout.palette.up,
    polygon layout range bins.binCount bins.bits.down layout.palette.down]

/-- A rounded height is not above a whole one just if it is less than
half a pixel above it. -/
theorem round_le_iff {x : Rat} (hx : 0 ≤ x) (n : Int) :
    Exact.round x ≤ n ↔ x < n + 1 / 2 := by
  rw [Exact.round_of_nonneg hx]
  show ⌊x + 1 / 2⌋ ≤ n ↔ _
  rw [Int.floor_le_iff]
  constructor <;> intro h <;> linarith

/-- **Steps are inside the plot just if no sample is half a pixel above the range.** -/
theorem inside_polygon_iff {bins : Bins Rat} (hfits : Carriers.Fits bins.bits bins.binCount)
    {s : CarrierSeries Rat} (hs : s ∈ [bins.bits.down, bins.bits.up]) {layout : Layout Rat}
    (hplot : layout.plot.isDegenerate = false)
    (hwhole : ∃ height : Int, layout.plot.height = height) {range : AxisRange Rat}
    (hrange : range.RisesFromZero) (color : Color Rat) :
    (polygon layout range bins.binCount s color).Inside layout.plot ↔
      ∀ v, some v ∈ s.samples →
        v * (layout.plot.height / range.top) < layout.plot.height + 1 / 2 := by
  obtain ⟨height, hheight⟩ := hwhole
  have hpos : 0 < layout.plot.height := (Rect.isDegenerate_eq_false_iff.mp hplot).2
  have hscale := div_pos hpos hrange.top_pos
  rw [polygon, Layout.inside_upright_iff hplot]
  generalize layout.plot.height / range.top = scaleY at hscale ⊢
  constructor
  · intro hwithin v hv
    obtain ⟨i, hsample⟩ := Trace.exists_sampleAt_iff.mpr hv
    rcases le_or_gt v 0 with hle | hgt
    · have hneg := mul_nonpos_of_nonpos_of_nonneg hle hscale.le
      linarith
    -- a positive sample is in a run, which has a corner at its height
    obtain ⟨hdrawn, hstep⟩ := Trace.Steps.drawn_of_eq scaleY hsample
    obtain ⟨a, b, hrun, hai, hib⟩ := @Trace.exists_mem_segments _ (fun _ => false) _ _
      (Trace.lt_of_sampleAt hsample) (hdrawn.trans (decide_eq_true hgt))
    obtain ⟨p, hp, hy⟩ := @Trace.exists_mem_stairs _ (max s.groupSize 1 : Nat) _
      (Trace.stepsHeight_congr _ scaleY) _ _ _ hai hib
    have hvertex : p ∈ (Trace.steps .empty s scaleY).vertices :=
      (Trace.mem_vertices_steps s scaleY).mpr
        ⟨(a, b), hrun, List.mem_append_left _ (List.mem_cons_of_mem _ hp)⟩
    have htop := (hwithin p hvertex).2.2
    rw [hy, hstep, hheight, Int.cast_le, round_le_iff (mul_pos hgt hscale).le] at htop
    rwa [hheight]
  · intro hsamples p hp
    obtain ⟨⟨a, b⟩, hrun, hp⟩ := (Trace.mem_vertices_steps s scaleY).mp hp
    have hmax := Trace.mem_segments.mp hrun
    refine Trace.within_stepsArea hmax.lt (hfits.edge_le hs hmax.le) hpos.le
      (fun i hai hib => ?_) p hp
    obtain ⟨v, hv, hgt, hstep⟩ := Trace.Steps.exists_of_drawn scaleY (hmax.all i hai hib)
    have htop := hsamples v (Trace.exists_sampleAt_iff.mp ⟨i, hv⟩)
    rw [hheight, ← round_le_iff (mul_pos hgt hscale).le] at htop
    rw [hstep, hheight]
    exact ⟨Int.cast_nonneg (Exact.round_nonneg (mul_pos hgt hscale).le), Int.cast_le.mpr htop⟩

/-- An axis that follows the data ends above all samples, or at the fixed end. -/
theorem top_bitsRange (dynamic : Bool) (series : List (List (Option Rat))) :
    (bitsRange fixedTop minRange dynamic series).top = fixedTop ∨
      (bitsRange fixedTop minRange dynamic series).top < fixedTop ∧
        ∀ v ∈ present series, v < (bitsRange fixedTop minRange dynamic series).top := by
  rw [bitsRange]
  dsimp only
  split
  case isFalse => exact .inl rfl
  case isTrue =>
    cases hbits : (bitsTop minRange series).filter fun top => top < fixedTop with
    | none => exact .inl rfl
    | some top =>
      obtain ⟨hsome, hlt⟩ := Option.filter_eq_some_iff.mp hbits
      obtain ⟨⟨low, high⟩, hbounds, rfl⟩ := Option.map_eq_some_iff.mp hsome
      refine .inr ⟨of_decide_eq_true hlt, fun v hv => ?_⟩
      show v < max high minRange + 0.75
      rcases le_or_gt v 0 with hle | hgt
      · have hmin : (minRange : Rat) ≤ max high minRange := le_max_right _ _
        have hpos : (0 : Rat) < minRange := by norm_num [minRange]
        linarith
      · have hcounts : v ∈ (present series).filter fun v => decide ((0.0 : Rat) < v) :=
          List.mem_filter.mpr ⟨hv, by simpa using hgt⟩
        have hhigh : v ≤ max high minRange :=
          ((isLeast_bounds hbounds).2.2 hcounts).trans (le_max_left _ _)
        linarith

/-- So whether a sample is half a pixel above the range does not depend on whether the
axis follows the data. -/
theorem scaled_lt_iff {height : Rat} (hheight : 0 < height) (dynamic : Bool)
    {series : List (List (Option Rat))} {v : Rat} (hv : v ∈ present series) :
    v * (height / (bitsRange fixedTop minRange dynamic series).top) < height + 1 / 2 ↔
      v * height < fixedTop * (height + 1 / 2) := by
  have hfixed : (0 : Rat) < fixedTop := by norm_num [fixedTop]
  have hmin : (0 : Rat) < minRange := by norm_num [minRange]
  obtain ⟨hbottom, hrises⟩ := bitsRange_rises hfixed hmin dynamic series
  have htop : 0 < (bitsRange fixedTop minRange dynamic series).top := hbottom ▸ hrises
  rw [← mul_div_assoc, div_lt_iff₀ htop, mul_comm (height + 1 / 2)]
  rcases top_bitsRange dynamic series with heq | ⟨hlt, hall⟩
  · rw [heq]
  · -- the axis follows the data: all samples are below its end
    have hbelow : v * height < (bitsRange fixedTop minRange dynamic series).top * height :=
      mul_lt_mul_of_pos_right (hall v hv) hheight
    have hfixedTop := mul_lt_mul_of_pos_right hlt hheight
    exact iff_of_true (by linarith) (by linarith)

/-- **Bit loading stays inside the plot** just if no sample is half a pixel or more above the
fixed end of the axis, with fixed axes and with those that follow the data. -/
theorem polygons_inside_iff {bins : Bins Rat} (hfits : Carriers.Fits bins.bits bins.binCount)
    (params : Params Rat) (measure : TextMeasure Rat) :
    let layout := ChartKind.layout kind params (some bins) measure
    layout.plot.isDegenerate = false →
      let fills :=
        polygons bins layout ((kind : ChartKind Rat _).yAxis (some bins) params.dynamic).range
      ChartKind.FillsAre kind params (some bins) measure bins false fills ∧
      ((∀ d ∈ fills, d.Inside layout.plot) ↔ ∀ v ∈ present (Carriers.samples bins.bits),
        v * layout.plot.height < fixedTop * (layout.plot.height + 1 / 2)) := by
  intro layout hplot fills
  have hpos : 0 < layout.plot.height := (Rect.isDegenerate_eq_false_iff.mp hplot).2
  have hwhole : ∃ height : Int, layout.plot.height = height :=
    ChartKind.exists_height_eq kind params _ measure
  have hrange := risesFromZero_yAxis (some bins) params.dynamic
  refine ⟨ChartKind.fillsAre_of Carriers.labelDigits_nonneg hplot fun frame => ?_, ?_⟩
  · show (paint bins layout _ frame).fills = _
    rw [paint, Frame.fills_pushFill, Frame.fills_pushFill, Frame.fills_pushStroke,
      List.append_assoc, ← List.filter_append]
    rfl
  · have hfills : fills = [polygon layout _ bins.binCount bins.bits.up layout.palette.up,
        polygon layout _ bins.binCount bins.bits.down layout.palette.down] := rfl
    rw [hfills, List.forall_mem_cons, List.forall_mem_singleton,
      inside_polygon_iff hfits (by simp) hplot hwhole hrange,
      inside_polygon_iff hfits (by simp) hplot hwhole hrange]
    have hall (height : Rat) (scaleY : Rat) :
        ((∀ v, some v ∈ bins.bits.up.samples → v * scaleY < height) ∧
        ∀ v, some v ∈ bins.bits.down.samples → v * scaleY < height) ↔
          ∀ v ∈ present (Carriers.samples bins.bits), v * scaleY < height := by
      simp only [mem_present, Carriers.samples, List.exists_mem_cons_iff, List.not_mem_nil,
        false_and, exists_false, or_false, or_imp, forall_and]
      exact and_comm
    rw [hall]
    exact forall₂_congr fun v hv => scaled_lt_iff hpos params.dynamic hv

/-- 15 bits on the default surface. -/
theorem polygons_inside_fifteen :
    let bins : Bins Rat := { Bins.empty with binCount := 1, bits := ⟨⟨1, [some 15]⟩, .empty⟩ }
    let layout := ChartKind.layout kind .default (some bins) approximateWidth
    (Carriers.Fits bins.bits bins.binCount ∧ layout.plot.isDegenerate = false) ∧
      ∀ d ∈ polygons bins layout ((kind : ChartKind Rat _).yAxis (some bins) false).range,
        d.Inside layout.plot := by
  intro bins layout
  have hfits : Carriers.Fits bins.bits bins.binCount := by decide
  have hplot : layout.plot.isDegenerate = false := by decide +kernel
  obtain ⟨_, hinside⟩ := polygons_inside_iff hfits .default approximateWidth hplot
  exact ⟨⟨hfits, hplot⟩, hinside.mpr (by decide +kernel)⟩

/-- 20 bits are drawn 120 pixels high, on a plot of 91 pixels. -/
theorem not_inside_twenty :
    let bins : Bins Rat := { Bins.empty with binCount := 1, bits := ⟨⟨1, [some 20]⟩, .empty⟩ }
    let layout := ChartKind.layout kind .default (some bins) approximateWidth
    let range := ((kind : ChartKind Rat _).yAxis (some bins) false).range
    Carriers.Fits bins.bits bins.binCount ∧ layout.plot.isDegenerate = false ∧
      layout.plot.height = 91 ∧
      (polygon layout range 1 bins.bits.down layout.palette.down).path.vertices =
        [⟨0, 0⟩, ⟨0, 120⟩, ⟨1, 120⟩, ⟨1, 0⟩] ∧
      ¬ ∀ d ∈ polygons bins layout range, d.Inside layout.plot := by
  decide +kernel

end BitLoading

end LineCharts
