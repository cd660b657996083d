/-
How far stroked traces are from their points, in exact arithmetic.

* `Exact.exists_far` — an interval longer than 1 reaches out of the surroundings of all
  multiples of a number above 1;
* `Path.Near` — a height that is divided by a scale, rounded and scaled again
  stays within half a pixel;
* `Traced` — a stroke with the points that it stands for; `Traced.SubPixel` — each of its
  vertices is within half a pixel of its point;
* `Tracing` — a kind of chart with its traces; `Tracing.Drawn` — these are the
  strokes that it draws;
* `Tracing.Sharp` — they are within half a pixel, whatever the data, just on plots with at
  most 10 pixels for a carrier or period, and on plots that are one pixel high;
* `Tracing.Regular.sharp` — so it is if they are drawn with one scale and reach all heights
  of a part of the plot.

Design notes.  A trace is scaled alike in both directions, so its heights are divided by
the width of a carrier or period before the path rounds them to a tenth.  The tenth is
then a tenth of a carrier.
-/
import LineCharts.Proofs.Chart.Registration
import LineCharts.Proofs.Trace.Vertices

namespace LineCharts

open Trace (StrokePlan StrokeScale)

/-! ### Multiples of a scale -/

/-- **Intervals longer than 1 are not covered** by the surroundings of the multiples of `g`,
half a pixel to both sides. -/
theorem Exact.exists_far {g lo hi : Rat} (hg : 1 < g) (h : lo + 1 < hi) :
    ∃ y, lo ≤ y ∧ y ≤ hi ∧ ∀ k : Int, 1 / 2 < |g * k - y| := by
  by_cases hlo : ∀ k : Int, 1 / 2 < |g * k - lo|
  · exact ⟨lo, le_rfl, by linarith, hlo⟩
  -- the lower end lies beside a multiple: go on to the middle in front of the
  -- next one, or to the end
  rw [not_forall] at hlo
  obtain ⟨k, hk⟩ := hlo
  obtain ⟨hbelow, habove⟩ := abs_le.mp (not_lt.mp hk)
  have hleft : g * k + 1 / 2 < min hi (g * k + g / 2) := lt_min (by linarith) (by linarith)
  refine ⟨min hi (g * k + g / 2), by linarith, min_le_left _ _, fun j => ?_⟩
  have hright : min hi (g * k + g / 2) ≤ g * k + g / 2 := min_le_right _ _
  rw [lt_abs]
  rcases le_or_gt j k with hj | hj
  · have hle : g * j ≤ g * k := mul_le_mul_of_nonneg_left (Int.cast_le.mpr hj) (by linarith)
    exact .inr (by linarith)
  · have hnext : (k : Rat) + 1 ≤ j := by exact_mod_cast hj
    have hle : g * (k + 1) ≤ g * j := mul_le_mul_of_nonneg_left hnext (by linarith)
    exact .inl (by linarith)

namespace Path

/-- A height stays within half a pixel, if it is divided by a scale, rounded to a
tenth and scaled again. -/
def Near (scale y : Rat) : Prop := |scale * roundTo 10 (y * (1.0 / scale)) - y| ≤ 1 / 2

theorem scale_mul_roundTo (scale y : Rat) :
    scale * roundTo 10 (y * (1.0 / scale)) =
      scale / 10 * Exact.round (y * (1.0 / scale) * 10) := by
  rw [roundTo_eq]
  ring

theorem near_of_le {scale : Rat} (hpos : 0 < scale) (hle : scale ≤ 10) (y : Rat) :
    Near scale y := by
  have hscaled : scale * roundTo 10 (y * (1.0 / scale)) - y =
      scale * (roundTo 10 (y * (1.0 / scale)) - y * (1.0 / scale)) := by
    rw [Exact.one_lit]
    field_simp
  have hround := abs_roundTo_sub_le (by norm_num : (0 : Rat) < 10) (y * (1.0 / scale))
  rw [Near, hscaled, abs_mul, abs_of_pos hpos]
  calc scale * |roundTo 10 (y * (1.0 / scale)) - y * (1.0 / scale)|
      ≤ 10 * (1 / 2 / 10) := mul_le_mul hle hround (abs_nonneg _) (by norm_num)
    _ = 1 / 2 := by norm_num

theorem near_of_abs_le {scale y : Rat} (hscale : 10 < scale) (hy : |y| ≤ 1 / 2) :
    Near scale y := by
  have hpos : 0 < 10 / scale := div_pos (by norm_num) (by linarith)
  have hsmall : |y * (1.0 / scale) * 10| < 1 / 2 := by
    have hquotient : y * (1.0 / scale) * 10 = y * (10 / scale) := by
      rw [Exact.one_lit]
      ring
    have hlt : 10 / scale < 1 := (div_lt_one (by linarith)).mpr hscale
    rw [hquotient, abs_mul, abs_of_pos hpos]
    calc |y| * (10 / scale) ≤ 1 / 2 * (10 / scale) := mul_le_mul_of_nonneg_right hy hpos.le
      _ < 1 / 2 := by linarith
  have hzero : Exact.round (y * (1.0 / scale) * 10) = 0 := by
    obtain ⟨hlow, hhigh⟩ := abs_lt.mp hsmall
    obtain ⟨hbelow, habove⟩ := abs_le.mp (Exact.abs_round_sub_le (y * (1.0 / scale) * 10))
    have hgt : (-1 : Rat) < Exact.round (y * (1.0 / scale) * 10) := by linarith
    have hlt : (Exact.round (y * (1.0 / scale) * 10) : Rat) < 1 := by linarith
    norm_cast at hgt hlt
    omega
  rwa [Near, scale_mul_roundTo, hzero, Int.cast_zero, mul_zero, zero_sub, abs_neg]

/-- Above 10, some height of every interval longer than 1 does not. -/
theorem exists_not_near {scale lo hi : Rat} (hscale : 10 < scale) (h : lo + 1 < hi) :
    ∃ y, lo ≤ y ∧ y ≤ hi ∧ ¬ Near scale y := by
  obtain ⟨y, hlo, hhi, hfar⟩ := Exact.exists_far (by linarith : 1 < scale / 10) h
  refine ⟨y, hlo, hhi, ?_⟩
  rw [Near, scale_mul_roundTo, not_le]
  exact hfar _

end Path

/-! ### Traces -/

/-- A stroke, how far below the upper edge of the surface its coordinates begin, and
the points that it stands for: carriers or periods across, pixels above the lower edge
of the plot upwards. -/
structure Traced where
  stroke : StrokedPath Rat
  top : Rat
  points : List (Point Rat)

namespace Traced

variable (plot : Rect Rat) (scale : Rat) (t : Traced)

/-- How far below the upper edge of the surface a point of the path is drawn. -/
def deviceY (p : Point Rat) : Rat := t.top + (t.stroke.transform.apply p.x p.y).y

/-- There is a vertex for each point, and it is drawn as high as the point says,
up to half a pixel. -/
def SubPixel : Prop :=
  List.Forall₂ (fun p q => |t.deviceY p - (plot.bottom - q.y)| ≤ 1 / 2)
    t.stroke.path.vertices t.points

/-- The trace is drawn with a scale for both directions: heights are divided by it and rounded
to a tenth, and scaled again from the lower edge of the plot upwards.  On a plot that is one
pixel high, no point is further than half a pixel from its lower edge. -/
structure Follows : Prop where
  vertices : t.stroke.path.vertices = t.points.map (Trace.vertex 10 (1.0 / scale))
  deviceY : ∀ p, t.deviceY p = plot.bottom - scale * p.y
  low : plot.height ≤ 1 → ∀ q ∈ t.points, |q.y| ≤ 1 / 2

variable {plot scale t}

theorem Follows.subPixel_iff (h : t.Follows plot scale) :
    t.SubPixel plot ↔ ∀ q ∈ t.points, Path.Near scale q.y := by
  rw [SubPixel, h.vertices, List.forall₂_map_left_iff, List.forall₂_same]
  refine forall₂_congr fun q _ => ?_
  have hdiff : plot.bottom - scale * Path.roundTo 10 (q.y * (1.0 / scale)) -
      (plot.bottom - q.y) = -(scale * Path.roundTo 10 (q.y * (1.0 / scale)) - q.y) := by
    ring
  rw [h.deviceY, Trace.vertex, hdiff, abs_neg, Path.Near]

end Traced

/-- The strokes of a drawing, each with how far below the upper edge of the surface its
coordinates begin: those of a layer begin at its corner. -/
def Drawing.strokesFrom : Drawing Rat → List (StrokedPath Rat × Rat)
  | .stroke d => [(d, 0)]
  | .layer d => d.strokes.map fun s => (s.stroke, d.rect.y)
  | .rect _ => []
  | .fill _ => []
  | .text _ => []

/-- A stroke with a line shows where its layer does. -/
theorem Frame.exists_strokesFrom_pushLayer {frame : Frame Rat} {d : Layer Rat}
    {stroke : StrokedPath Rat} {blend : BlendMode} (hs : ⟨stroke, blend⟩ ∈ d.strokes)
    (h : stroke.path.isEmpty = false) :
    ∃ e ∈ (frame.pushLayer d).drawings.toList, (stroke, d.rect.y) ∈ e.strokesFrom :=
  ⟨_, Frame.mem_pushLayer hs h, List.mem_map_of_mem hs⟩

/-! ### Kinds of charts with traces -/

/-- A kind of chart with traces.  Its data is taken from `ι`. -/
structure Tracing (ι δ : Type) where
  kind : ChartKind Rat δ
  data : ι → δ
  /-- How many carriers or periods there are. -/
  count : ι → Nat
  traces : ι → Layout Rat → AxisRange Rat → List Traced
  /-- What is drawn behind the data. -/
  behind : ι → Layout Rat → Frame Rat → Frame Rat
  /-- The place for the data. -/
  plot : Params Rat → Rect Rat

namespace Tracing

variable {ι δ : Type} (T : Tracing ι δ)

/-- What is drawn behind the data, or has the strokes of traces. -/
def Shown (i : ι) (layout : Layout Rat) (range : AxisRange Rat) (frame : Frame Rat)
    (d : Drawing Rat) :
    Prop :=
  d ∈ (T.behind i layout frame).drawings.toList ∨
    ∀ s ∈ d.strokesFrom, s ∈ (T.traces i layout range).map fun t => (t.stroke, t.top)

/-- The traces are the strokes that the chart draws on its plot, but those behind the data.
The plot depends on parameters only. -/
structure Drawn : Prop where
  plot : ∀ (params : Params Rat) (measure : TextMeasure Rat) (i : ι) (dynamic : Bool),
    (T.kind.layout { params with dynamic } (T.data i) measure).plot = T.plot params
  shows : ∀ (i : ι) (layout : Layout Rat) (range : AxisRange Rat) (frame : Frame Rat),
    1 ≤ T.count i → ∀ t ∈ T.traces i layout range, t.stroke.path.isEmpty = false →
      ∃ d ∈ (T.kind.paint (T.data i) layout range frame).drawings.toList,
        (t.stroke, t.top) ∈ d.strokesFrom
  only : ∀ (i : ι) (layout : Layout Rat) (range : AxisRange Rat) (frame : Frame Rat),
    1 ≤ T.count i →
    (T.kind.paint (T.data i) layout range frame).All (T.Shown i layout range frame)

/-- On this surface, each vertex of the traces of some data is within half a pixel of its
point, with fixed axes and with those that follow the data. -/
def SubPixel (params : Params Rat) (measure : TextMeasure Rat) (i : ι) : Prop :=
  ∀ dynamic : Bool,
    ∀ t ∈ T.traces i (T.kind.layout { params with dynamic } (T.data i) measure)
    (T.kind.yAxis (T.data i) dynamic).range, t.SubPixel (T.plot params)

/-- On a surface where the plot has an area, the traces of all data with so many carriers or
periods are within half a pixel, just if there are at most 10 pixels for each of them, or the
plot is one pixel high. -/
def Sharp (params : Params Rat) (measure : TextMeasure Rat) (count : Nat) : Prop :=
  (T.plot params).isDegenerate = false →
    ((∀ i, T.count i = count → T.SubPixel params measure i) ↔
      (T.plot params).width ≤ 10 * count ∨ (T.plot params).height ≤ 1)

/-- What the traces of a kind of chart have in common. -/
structure Regular : Prop extends T.Drawn where
  whole : ∀ params, ∃ height : Int, (T.plot params).height = height
  follows : ∀ (i : ι) (layout : Layout Rat) (dynamic : Bool),
    layout.plot.isDegenerate = false → 1 ≤ T.count i →
    ∀ t ∈ T.traces i layout (T.kind.yAxis (T.data i) dynamic).range,
      t.Follows layout.plot (layout.scaleX (T.count i))
  /-- The heights of traces fill an interval. -/
  reaches : ∀ (height : Rat) (count : Nat), 2 ≤ height → 1 ≤ count → ∃ lo hi, lo + 1 < hi ∧
    ∀ y, lo ≤ y → y ≤ hi →
      ∃ i, T.count i = count ∧ ∀ layout : Layout Rat, layout.plot.height = height →
      ∃ t ∈ T.traces i layout (T.kind.yAxis (T.data i) false).range, ∃ q ∈ t.points, q.y = y

variable {T}

/-- **Traces are within half a pixel just where a tenth of a carrier is at most a pixel
wide**, or no trace has a height. -/
theorem Regular.sharp (h : T.Regular) (params : Params Rat) (measure : TextMeasure Rat)
    {count : Nat} (hcount : 1 ≤ count) : T.Sharp params measure count := by
  intro hplot
  obtain ⟨hwidth, hheight⟩ := Rect.isDegenerate_eq_false_iff.mp hplot
  have hpos : (0 : Rat) < count := Nat.cast_pos.mpr hcount
  have hfollows : ∀ i, T.count i = count → ∀ dynamic,
      ∀ t ∈ T.traces i (T.kind.layout { params with dynamic } (T.data i) measure)
        (T.kind.yAxis (T.data i) dynamic).range,
        t.Follows (T.plot params) ((T.plot params).width / count) := by
    intro i hi dynamic t ht
    have hplot' := h.plot params measure i dynamic
    have hfollows := h.follows i _ dynamic (hplot'.symm ▸ hplot) (hi.symm ▸ hcount) t ht
    rwa [hi, Layout.scaleX_eq _ hcount, hplot'] at hfollows
  constructor
  · intro hall
    by_contra hneither
    rw [not_or, not_le, not_le, ← lt_div_iff₀ hpos] at hneither
    obtain ⟨n, hn⟩ := h.whole params
    have htwo : (2 : Rat) ≤ (T.plot params).height := by
      have hone := hneither.2
      rw [hn] at hone ⊢
      exact_mod_cast hone
    obtain ⟨lo, hi, hlohi, hreach⟩ := h.reaches _ count htwo hcount
    obtain ⟨y, hlo, hhi, hfar⟩ := Path.exists_not_near hneither.1 hlohi
    obtain ⟨i, hi, hlayout⟩ := hreach y hlo hhi
    obtain ⟨t, ht, q, hq, rfl⟩ :=
      hlayout (T.kind.layout { params with dynamic := false } (T.data i) measure)
        (congrArg Rect.height (h.plot params measure i false))
    exact hfar ((hfollows i hi false t ht).subPixel_iff.mp (hall i hi false t ht) q hq)
  · intro hsmall i hi dynamic t ht
    have ht' := hfollows i hi dynamic t ht
    refine ht'.subPixel_iff.mpr fun q hq => ?_
    rcases le_or_gt ((T.plot params).width / count) 10 with hle | hgt
    · exact Path.near_of_le (div_pos hwidth hpos) hle _
    · refine Path.near_of_abs_le hgt (ht'.low (hsmall.resolve_left ?_) q hq)
      rwa [not_le, ← lt_div_iff₀ hpos]

end Tracing

/-- From values of a range to heights on the plot of a layout. -/
def Layout.strokeScale (layout : Layout Rat) (range : AxisRange Rat) (count : Nat) :
    StrokeScale Rat where
  scaleY := layout.plot.height / range.span
  offsetY := range.bottom
  maxY := range.top
  postScaleY := 1.0 / layout.scaleX count

theorem Path.unit_tenths : (Path.withPrecision Carriers.precision : Path Rat).unit = 10 :=
  (Scalar.tenPow_eq 1).trans (zpow_one 10)

/-- Parameters that can be used stay as they are. -/
theorem Params.normalize_normalize (p : Params Rat) :
    p.normalize.normalize = p.normalize := by
  have hscale : ¬ p.normalize.scaleFactor ≤ 0 := not_le.mpr p.scaleFactor_pos
  have hfont : ¬ p.normalize.fontSize < 0 := by
    simp only [normalize, Exact.zero_lit]
    split <;> simp_all [Scalar.isFinite]
  generalize p.normalize = q at hscale hfont
  simp [normalize, Scalar.isFinite, hscale, hfont]

/-- The place for the data, if labels are so many digits wide. -/
def Layout.plotFor (params : Params Rat) (xDigits yDigits : Rat) : Rect Rat :=
  (Metrics.of params.normalize).plot params.normalize xDigits yDigits

theorem ChartKind.plot_layout {δ : Type} (kind : ChartKind Rat δ) (params : Params Rat)
    (data : δ) (measure : TextMeasure Rat) : (kind.layout params data measure).plot =
      Layout.plotFor params (kind.xAxis data).digits
        (kind.yAxis data params.dynamic).digits := by
  show (Layout.Metrics.of params.normalize.normalize).plot params.normalize.normalize _ _ = _
  rw [Params.normalize_normalize, Layout.plotFor]

/-- It is a whole number of pixels high. -/
theorem Layout.exists_height_eq (params : Params Rat) (xDigits yDigits : Rat) :
    ∃ height : Int, (plotFor params xDigits yDigits).height = height := by
  obtain ⟨_, _, _, height, hplot⟩ :=
    (Metrics.of params.normalize).exists_plot_eq params.normalize xDigits yDigits
  exact ⟨height, by rw [plotFor, hplot]⟩

/-- No value of a range is below the lower edge of a plot, or above the upper one. -/
theorem AxisRange.Rises.scaled_mem {range : AxisRange Rat} (h : range.Rises) {height : Rat}
    (hheight : 0 < height) (v : Rat) :
    (min range.top v - range.bottom) * (height / range.span) ≤ height ∧
      0 ≤ max (min range.top v - range.bottom) 0 * (height / range.span) ∧
      max (min range.top v - range.bottom) 0 * (height / range.span) ≤ height := by
  have hspan := h.span_pos
  have hscale : 0 < height / range.span := div_pos hheight hspan
  have htop : min range.top v - range.bottom ≤ range.span :=
    sub_le_sub_right (min_le_left _ _) _
  have hfull : range.span * (height / range.span) = height := mul_div_cancel₀ _ hspan.ne'
  refine ⟨?_, mul_nonneg (le_max_right _ _) hscale.le, ?_⟩
  · exact (mul_le_mul_of_nonneg_right htop hscale.le).trans_eq hfull
  · exact (mul_le_mul_of_nonneg_right (max_le htop hspan.le) hscale.le).trans_eq hfull

end LineCharts
