/-
Charts divide by no zero, in exact arithmetic.

* `BandShades.agree_build`, `Carriers.paintBands_by`, `Carriers.paintArea_by` — bands and
  areas are the same with any division;
* `ChartKind.Agree` — two kinds of charts have the same axes and legends, and paint the same
  on a plot with an area for a range of use; `BitLoading.agree_kind` and its siblings — so do
  those with two divisions;
* `Chart.Agree.after`, `Chart.Agree.frame` — two charts with the same sheet and the same data
  stay so through all changes, and have the same frames.

Design notes.  A range of use is one whose span or top is divided by.  Where a span, a room or
a spacing may be zero, as for the horizontal axis, the definitions look at it first.
-/
import LineCharts.Proofs.Chart.Valid
import LineCharts.Proofs.Division.Layouts
import LineCharts.Proofs.Division.Traces

namespace LineCharts

open Exact (Division)

variable (d : Division)

/-! ### Bands -/

namespace BandShades

/-- The same shades, with paths to which can be appended. -/
structure Agree (s t : BandShades Rat) : Prop where
  down : s.fills.down.Agree t.fills.down
  up : s.fills.up.Agree t.fills.up
  separators : s.separators.Agree t.separators

theorem Agree.eq {s t : BandShades Rat} (h : s.Agree t) : s = t := by
  obtain ⟨⟨down, up⟩, separators⟩ := s
  obtain ⟨⟨rfl, _⟩, ⟨rfl, _⟩, ⟨rfl, _⟩⟩ := h
  rfl

variable {d} {s t : BandShades Rat}

theorem Agree.openAt (h : s.Agree t) (plot : Rect Rat) (direction : Direction) (x : Rat) :
    (@openAt Rat d.scalar s plot direction x).Agree (t.openAt plot direction x) := by
  cases direction with
  | down => exact ⟨(h.down.moveTo _ _).lineTo _ _, h.up, h.separators⟩
  | up => exact ⟨h.down, (h.up.moveTo _ _).lineTo _ _, h.separators⟩

theorem Agree.closeAt (h : s.Agree t) (plot : Rect Rat) (direction : Direction) (x : Rat) :
    (@closeAt Rat d.scalar s plot direction x).Agree (t.closeAt plot direction x) := by
  cases direction with
  | down => exact ⟨((h.down.lineTo _ _).lineTo _ _).close, h.up, h.separators⟩
  | up => exact ⟨h.down, ((h.up.lineTo _ _).lineTo _ _).close, h.separators⟩

theorem Agree.separate (h : s.Agree t) (plot : Rect Rat) (half x : Rat) :
    (@separate Rat d.scalar s plot half x).Agree (t.separate plot half x) :=
  ⟨h.down, h.up, (h.separators.moveTo _ _).lineTo _ _⟩

theorem edgeBetween_by (layout : Layout Rat) (scale : Rat) (before after : Nat) :
    @edgeBetween Rat d.scalar layout scale before after =
      edgeBetween layout scale before after :=
  congrArg (fun centre : Rat =>
    layout.plot.x + Scalar.floor ((centre + 0.5) * scale) + layout.metrics.half)
      (d.quotient_two _)

theorem Agree.next (h : s.Agree t) (layout : Layout Rat) (scale : Rat) (before after : Band) :
    (@next Rat d.scalar layout scale s before after).Agree
      (next layout scale t before after) := by
  have hstart : @edgeStart Rat d.scalar layout scale = edgeStart layout scale := rfl
  have hstop : @edgeEnd Rat d.scalar layout scale = edgeEnd layout scale := rfl
  unfold BandShades.next
  dsimp only
  rw [edgeBetween_by, hstart, hstop]
  -- bands that nearly touch share a line; others have one each
  by_cases hnear : edgeStart layout scale after.start - edgeEnd layout scale before.stop ≤
      layout.metrics.stroke
  · rw [if_pos hnear, if_pos hnear]
    exact ((h.separate _ _ _).closeAt _ _ _).openAt _ _ _
  · rw [if_neg hnear, if_neg hnear]
    exact (((h.separate _ _ _).separate _ _ _).closeAt _ _ _).openAt _ _ _

theorem Agree.follow (h : s.Agree t) (layout : Layout Rat) (scale : Rat) (before : Band)
    (bands : List Band) :
    (@follow Rat d.scalar layout scale s before bands).Agree
      (follow layout scale t before bands) := by
  induction bands generalizing s t before with
  | nil => exact (h.closeAt _ _ _).separate _ _ _
  | cons after bands ih => exact ih (h.next layout scale before after) after

theorem agree_build (bands : List Band) (binCount : Nat) (layout : Layout Rat) :
    (@build Rat d.scalar bands binCount layout).Agree (build bands binCount layout) := by
  have hempty : (@empty Rat d.scalar).Agree empty :=
    ⟨Path.agree_empty d, Path.agree_empty d, Path.agree_empty d⟩
  cases bands with
  | nil => exact hempty
  | cons first rest =>
    unfold build
    dsimp only
    rw [Layout.scaleX_by]
    exact ((hempty.openAt _ _ _).separate _ _ _).follow _ _ _ _

end BandShades

/-! ### Charts along the carriers -/

namespace Carriers

theorem paintBands_by (bins : Bins Rat) (layout : Layout Rat) (colored : Bool)
    (frame : Frame Rat) :
    @paintBands Rat d.scalar bins layout colored frame =
      paintBands bins layout colored frame := by
  unfold paintBands
  rw [(BandShades.agree_build _ _ _).eq]
  rfl

theorem paintArea_by {rule : LimitRule Rat} {range : AxisRange Rat} (h : range.Rises)
    (bins : Bins Rat) (series : PerDirection (CarrierSeries Rat)) (layout : Layout Rat)
    (frame : Frame Rat) :
    @paintArea Rat d.scalar rule bins series layout range frame =
      paintArea rule bins series layout range frame := by
  have hscale : @areaScale Rat d.scalar rule layout.plot range =
      areaScale rule layout.plot range :=
    congrArg (fun scaleY => (⟨scaleY, range.bottom, range.top, rule.validMin, rule.validMax⟩ :
      Trace.FillScale Rat)) (d.quotient_eq _ _ h.span_pos.ne')
  have hpath : ∀ scale, @areaPath Rat d.scalar series scale = areaPath series scale :=
    fun scale =>
      (Trace.agree_fill (Trace.agree_fill (Path.agree_withPrecision d precision) _ _) _ _).eq
  unfold paintArea
  dsimp only
  rw [hscale, hpath, Layout.scaleX_by]
  rfl

theorem rangeOf_by (rule : LimitRule Rat)
    (series : Bins Rat → PerDirection (CarrierSeries Rat)) (bins : Option (Bins Rat))
    (dynamic : Bool) :
    @rangeOf Rat d.scalar rule series bins dynamic = rangeOf rule series bins dynamic := by
  cases bins with
  | none => rfl
  | some bins => exact LimitRule.resolve_by d rule dynamic (samples (series bins))

end Carriers

/-! ### Kinds -/

variable {δ : Type}

/-- Two kinds of charts that differ in nothing but what they paint where
it does not matter. -/
structure ChartKind.Agree (useful : AxisRange Rat → Prop) (k l : ChartKind Rat δ) : Prop where
  extent : k.extent = l.extent
  xAxis : k.xAxis = l.xAxis
  yAxis : k.yAxis = l.yAxis
  legend : k.legend = l.legend
  paint : ∀ data {layout : Layout Rat} {range : AxisRange Rat} (frame : Frame Rat),
    layout.plot.isDegenerate = false → useful range →
      k.paint data layout range frame = l.paint data layout range frame

namespace BitLoading

theorem legend_by : @legend Rat d.scalar = legend := by
  unfold legend
  rw [Palette.blue_by, Palette.green_by, Palette.red_by]

theorem pilotWidth_by {scaleX : Rat} (h : 0 < scaleX) :
    @pilotWidth Rat d.scalar scaleX = pilotWidth scaleX :=
  congrArg (fun wide => if scaleX < (1.5 : Rat) then wide else 1.0) (d.quotient_eq _ _ h.ne')

theorem agree_kind : (@kind Rat d.scalar).Agree AxisRange.RisesFromZero kind where
  extent := rfl
  xAxis := rfl
  yAxis := rfl
  legend := funext fun _ => legend_by d
  paint bins layout range frame hplot hrange := by
    cases bins with
    | none => rfl
    | some bins =>
      show @paint Rat d.scalar bins layout range frame = paint bins layout range frame
      unfold paint
      dsimp only
      rw [d.div_by _ hrange.top_pos.ne', Layout.scaleX_by,
        pilotWidth_by d (Layout.scaleX_pos hplot _), Carriers.paintBands_by,
        (Trace.agree_pilotTones (Path.agree_empty d) _ _).eq,
        (Trace.agree_steps (Path.agree_empty d) _ _).eq,
        (Trace.agree_steps (Path.agree_empty d) _ _).eq]
      rfl

end BitLoading

namespace SignalToNoise

theorem legend_by (withHistory : Bool) :
    @legend Rat d.scalar withHistory = legend withHistory := by
  unfold legend
  rw [Palette.blue_by, Palette.green_by]

theorem paintHistory_by {layout : Layout Rat} (hplot : layout.plot.isDegenerate = false)
    {range : AxisRange Rat} (hrange : range.Rises) (history : History Rat) (binCount : Nat)
    (frame : Frame Rat) : @paintHistory Rat d.scalar history binCount layout range frame =
      paintHistory history binCount layout range frame := by
  have hscale := (Layout.scaleX_pos hplot binCount).ne'
  have hpaths : ∀ scale, @extremesPaths Rat d.scalar history scale =
      extremesPaths history scale := by
    intro scale
    have hfresh := Path.agree_withPrecision d Carriers.precision
    obtain ⟨hlow, hhigh⟩ := Trace.agree_extremes hfresh hfresh history.snr.down scale
    obtain ⟨hlow, hhigh⟩ := Trace.agree_extremes hlow hhigh history.snr.up scale
    exact Prod.ext hlow.eq hhigh.eq
  unfold paintHistory
  dsimp only
  rw [Layout.scaleX_by, AxisRange.span_by, d.div_by _ hrange.span_pos.ne', d.div_by _ hscale,
    d.div_by _ hscale, hpaths]
  rfl

theorem agree_kind : (@kind Rat d.scalar).Agree AxisRange.Rises kind where
  extent := rfl
  xAxis := rfl
  yAxis := by
    funext data dynamic
    exact AxisPlan.ofRange_by d (LimitRule.resolve_by d limits dynamic data.samples) _ _ _
  legend := funext fun _ => legend_by d _
  paint data layout range frame hplot hrange := by
    show @paint Rat d.scalar data layout range frame = paint data layout range frame
    unfold paint
    cases hbins : data.bins with
    | none => rfl
    | some bins =>
      dsimp only
      rw [Carriers.paintBands_by, Carriers.paintArea_by d hrange]
      cases hhistory : data.shownHistory with
      | none => rfl
      | some history => exact paintHistory_by d hplot hrange history bins.binCount _

end SignalToNoise

namespace LineNoise

theorem agree_kind : (@kind Rat d.scalar).Agree AxisRange.Rises kind where
  extent := rfl
  xAxis := rfl
  yAxis := by
    funext bins dynamic
    exact AxisPlan.ofRange_by d (Carriers.rangeOf_by d limits Bins.qln bins dynamic) _ _ _
  legend := rfl
  paint bins layout range frame _ hrange := by
    cases bins with
    | none => rfl
    | some bins =>
      show @paint Rat d.scalar bins layout range frame = paint bins layout range frame
      unfold paint
      rw [Carriers.paintBands_by, Carriers.paintArea_by d hrange]
      rfl

end LineNoise

namespace Characteristic

theorem tracePath_by (series : PerDirection (CarrierSeries Rat))
    (scale : Trace.StrokeScale Rat) :
    @tracePath Rat d.scalar series scale = tracePath series scale :=
  (Trace.agree_hlog (Trace.agree_hlog (Path.agree_withPrecision d Carriers.precision) _ _) _
    _).eq

theorem agree_kind : (@kind Rat d.scalar).Agree AxisRange.Rises kind where
  extent := rfl
  xAxis := rfl
  yAxis := by
    funext bins dynamic
    exact AxisPlan.ofRange_by d (Carriers.rangeOf_by d limits Bins.hlog bins dynamic) _ _ _
  legend := rfl
  paint bins layout range frame hplot hrange := by
    cases bins with
    | none => rfl
    | some bins =>
      have hscale := (Layout.scaleX_pos hplot bins.binCount).ne'
      show @paint Rat d.scalar bins layout range frame = paint bins layout range frame
      unfold paint
      dsimp only
      rw [Layout.scaleX_by, AxisRange.span_by, d.div_by _ hrange.span_pos.ne',
        d.div_by _ hscale, d.div_by _ hscale, tracePath_by, Carriers.paintBands_by]
      rfl

end Characteristic

namespace ErrorReport

theorem retransmissions_by (direction : Direction) :
    @retransmissions Rat d.scalar direction = retransmissions direction := by
  unfold retransmissions
  rw [Palette.green_by, Palette.blue_by, Palette.red_by]

theorem errors_by (direction : Direction) :
    @errors Rat d.scalar direction = errors direction := by
  unfold errors
  rw [Palette.blue_by, Palette.red_by]

theorem erroredSeconds_by (direction : Direction) :
    @erroredSeconds Rat d.scalar direction = erroredSeconds direction := by
  unfold erroredSeconds
  rw [Palette.blue_by, Palette.red_by]

theorem timeAxis_by (log : Option ErrorLog) : @timeAxis Rat d.scalar log = timeAxis log := by
  cases log with
  | none => rfl
  | some log =>
    have hminutes := d.quotient_eq (log.totalSeconds : Rat) 60.0 (by norm_num)
    exact AxisPlan.ofRange_by d (congrArg (fun minutes => ⟨minutes, 0.0⟩) hminutes) _ _ _

theorem strokeOf_by {layout : Layout Rat} (hplot : layout.plot.isDegenerate = false)
    {top : Rat} (htop : top ≠ 0) (log : ErrorLog) (trace : ReportTrace Rat) :
    @strokeOf Rat d.scalar log layout top trace = strokeOf log layout top trace := by
  have hscale := (Layout.scaleX_pos hplot log.periodCount).ne'
  unfold strokeOf
  dsimp only
  rw [Layout.scaleX_by, d.div_by _ htop, d.div_by _ hscale, d.div_by _ hscale,
    (Trace.agree_counts (Path.agree_withPrecision d 1) _ _ _ _).eq]
  rfl

theorem agree_kind (report : ErrorReport Rat) :
    (@kind Rat d.scalar report).Agree AxisRange.RisesFromZero report.kind where
  extent := rfl
  xAxis := funext (timeAxis_by d)
  yAxis := rfl
  legend := rfl
  paint log layout range frame hplot hrange := by
    cases log with
    | none => rfl
    | some log =>
      have hstrokes : @strokeOf Rat d.scalar log layout range.top =
          strokeOf log layout range.top :=
        funext (strokeOf_by d hplot hrange.top_pos.ne' log)
      have houtages : @paintOutages Rat d.scalar report log layout frame =
          report.paintOutages log layout frame := by
        unfold paintOutages
        dsimp only
        rw [Layout.scaleX_by, (Trace.agree_outages (Path.agree_empty d) _).eq]
        rfl
      show @paint Rat d.scalar report log layout range frame =
        report.paint log layout range frame
      unfold paint
      rw [hstrokes, houtages]

end ErrorReport

/-! ### Charts -/

theorem Layout.drawn_by (layout : Layout Rat) (range : AxisRange Rat)
    {paint paint' : Layout Rat → AxisRange Rat → Frame Rat → Frame Rat}
    (h : layout.plot.isDegenerate = false →
      ∀ frame, paint layout range frame = paint' layout range frame) :
    @drawn Rat d.scalar layout paint range = layout.drawn paint' range := by
  have hdegenerate : @Rect.isDegenerate Rat d.scalar layout.plot = layout.plot.isDegenerate :=
    rfl
  unfold drawn
  dsimp only
  rw [hdegenerate]
  cases hplot : layout.plot.isDegenerate with
  | true => rfl
  | false => exact congrArg layout.paintAxes (h hplot _)

namespace Chart

/-- The same sheet and the same data, for two kinds of charts. -/
structure Agree {k l : ChartKind Rat δ} (chart : Chart k) (other : Chart l) : Prop where
  sheet : chart.sheet = other.sheet
  data : chart.data = other.data

variable {useful : AxisRange Rat → Prop} {k l : ChartKind Rat δ} (hkind : k.Agree useful l)
  {chart : Chart k} {other : Chart l}

include hkind

theorem Agree.refreshAxes (h : chart.Agree other) :
    (@refreshAxes Rat δ d.scalar k chart).Agree other.refreshAxes := by
  obtain ⟨extent, xAxis, yAxis, legend, paint⟩ := k
  obtain ⟨extent', xAxis', yAxis', legend', paint'⟩ := l
  obtain ⟨rfl, rfl, rfl, rfl, _⟩ := hkind
  obtain ⟨sheet, data⟩ := chart
  obtain ⟨sheet', data'⟩ := other
  obtain ⟨rfl, rfl⟩ := h
  exact ⟨rfl, rfl⟩

theorem agree_new (params : Params Rat) (data : δ) :
    (@Chart.new Rat δ d.scalar k params data).Agree (Chart.new l params data) := by
  refine Agree.refreshAxes d hkind ⟨?_, rfl⟩
  rw [hkind.xAxis, hkind.yAxis, hkind.legend]
  rfl

theorem Agree.setParams (h : chart.Agree other) (params : Params Rat) :
    (@Chart.setParams Rat δ d.scalar k chart params).Agree (other.setParams params) := by
  refine Agree.refreshAxes d hkind ⟨?_, h.data⟩
  rw [h.sheet]
  rfl

theorem Agree.setData (h : chart.Agree other) (data : δ) :
    (@Chart.setData Rat δ d.scalar k chart data).Agree (other.setData data) := by
  refine Agree.refreshAxes d hkind ⟨?_, rfl⟩
  rw [h.sheet, hkind.legend]
  rfl

/-- **Two charts have the same frames**, on a surface with pixels and for a range of use. -/
theorem Agree.frame (h : chart.Agree other)
    (hsurface : other.sheet.params.viewport.isValid = true)
    (huseful : useful other.sheet.yAxis.range) (measure : TextMeasure Rat) :
    (@Chart.frame Rat δ d.scalar k chart measure).1.Agree (other.frame measure).1 ∧
      (@Chart.frame Rat δ d.scalar k chart measure).2 = (other.frame measure).2 := by
  obtain ⟨sheet, data⟩ := chart
  obtain ⟨sheet', data'⟩ := other
  obtain ⟨rfl, rfl⟩ := h
  have hfresh : @Sheet.freshLayout Rat d.scalar sheet measure = sheet.freshLayout measure :=
    Layout.compute_by d _ _ _ _ _
  rw [@frame_eq Rat δ d.scalar k ⟨sheet, data⟩ hsurface measure, frame_eq hsurface measure]
  dsimp only
  rw [hfresh]
  refine ⟨⟨rfl, rfl⟩, Layout.drawn_by d _ _ fun hplot frame => ?_⟩
  exact hkind.paint data frame hplot huseful

/-- **Two charts stay the same through all changes.** -/
theorem Agree.after (h : chart.Agree other) (hlegend : ∀ data, (l.legend data).InRange)
    (hrange : ∀ data dynamic, useful (l.yAxis data dynamic).range)
    (hsound : other.Sound useful) (measure : TextMeasure Rat) {changes : List (Change Rat δ)}
    (hchanges : ∀ c ∈ changes, c.Drawable) :
    (@Chart.after Rat δ d.scalar k measure chart changes).Agree
      (other.after measure changes) := by
  induction changes generalizing chart other with
  | nil => exact h
  | cons c changes ih =>
    obtain ⟨hc, hrest⟩ := List.forall_mem_cons.mp hchanges
    -- a frame is the same only on a sound chart, so soundness is carried along
    refine ih ?_ (hsound.change hlegend hrange measure hc) hrest
    cases c with
    | params p => exact h.setParams d hkind p
    | data data => exact h.setData d hkind data
    | frame => exact (h.frame d hkind hsound.params.isValid hsound.range measure).1

end Chart

end LineCharts
