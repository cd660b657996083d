/-
All kinds of charts paint what can be drawn, in exact arithmetic.

* `BandShades.valid_paint`, `Carriers.valid_paintArea` — so do bands and areas;
* `BitLoading.drawable`, `SignalToNoise.drawable`, `LineNoise.drawable`,
  `Characteristic.drawable`, `ErrorReport.drawable` — the legend of the kind has colours in
  range, and its data keeps a frame valid;
* `BitLoading.risesFromZero_yAxis` and its siblings — the vertical axis of the kind
  rises, whatever the data.

Design notes.  Traces are drawn `scale / scaleX` wide, in the units of a transform that scales
by `scaleX`.  That is positive, because nothing is painted on a plot without an area.
-/
import LineCharts.Chart.BitLoading
import LineCharts.Chart.ErrorReport
import LineCharts.Chart.SignalToNoise
import LineCharts.Proofs.Axis.Span
import LineCharts.Proofs.Chart.Changes
import LineCharts.Proofs.Chart.Ruled

namespace LineCharts

/-- The range starts at zero and rises. -/
structure AxisRange.RisesFromZero (r : AxisRange Rat) : Prop where
  bottom : r.bottom = 0
  rises : r.Rises

theorem AxisRange.RisesFromZero.top_pos {r : AxisRange Rat} (h : r.RisesFromZero) :
    0 < r.top := by
  have hrises : r.bottom < r.top := h.rises
  rwa [h.bottom] at hrises

/-! ### Bands and areas -/

section

variable {layout : Layout Rat} (hlayout : layout.Valid) {frame : Frame Rat}
  (hframe : frame.Valid)

include hlayout hframe

theorem BandShades.valid_paint (shades : BandShades Rat) (colored : Bool) :
    (shades.paint frame layout colored).Valid := by
  have hpalette := hlayout.palette
  have hfill : ∀ {c : Color Rat}, c.InRange → (c.withAlpha fillAlpha).InRange := by
    intro c hc
    refine hc.withAlpha ?_
    norm_num [fillAlpha]
  have hline : (layout.palette.neutralStroke.withAlpha strokeAlpha).InRange := by
    refine hpalette.neutralStroke.withAlpha ?_
    norm_num [strokeAlpha]
  have hup : (if colored then layout.palette.up else layout.palette.neutralFill).InRange := by
    split
    · exact hpalette.up
    · exact hpalette.neutralFill
  have hdown :
      (if colored then layout.palette.down else layout.palette.neutralFill).InRange := by
    split
    · exact hpalette.down
    · exact hpalette.neutralFill
  exact ((hframe.pushFill (hfill hup)).pushFill (hfill hdown)).pushStroke
    hlayout.metrics.stroke hline

theorem Carriers.valid_paintBands (bins : Bins Rat) (colored : Bool) :
    (paintBands bins layout colored frame).Valid :=
  BandShades.valid_paint hlayout hframe _ colored

theorem Carriers.valid_paintArea (rule : LimitRule Rat) (bins : Bins Rat)
    (series : PerDirection (CarrierSeries Rat)) (range : AxisRange Rat) :
    (paintArea rule bins series layout range frame).Valid :=
  hframe.pushFill hlayout.palette.neutralFill

end

theorem Carriers.rises_rangeOf {rule : LimitRule Rat} (h : rule.Wide)
    (series : Bins Rat → PerDirection (CarrierSeries Rat)) (bins : Option (Bins Rat))
    (dynamic : Bool) :
    (rangeOf rule series bins dynamic).Rises := by
  cases bins with
  | none => exact h.fixed
  | some bins => exact LimitRule.resolve_rises h dynamic _

namespace ChartKind.Ruled

variable {kind : ChartKind Rat (Option (Bins Rat))} {rule : LimitRule Rat}
  {series : Bins Rat → PerDirection (CarrierSeries Rat)}
  {front : Bins Rat → Layout Rat → AxisRange Rat → Frame Rat → Frame Rat}
  (h : kind.Ruled rule series front)

include h

theorem rises_yAxis (hrule : rule.Wide) (bins : Option (Bins Rat)) (dynamic : Bool) :
    (kind.yAxis bins dynamic).range.Rises := by
  obtain ⟨steps, hy⟩ := h.yAxis
  rw [hy]
  exact Carriers.rises_rangeOf hrule series bins dynamic

/-- **Charts of a limit rule can be drawn**, if what is in front of the bands can. -/
theorem drawable
    (hfront : ∀ bins {layout : Layout Rat} (range : AxisRange Rat) {frame : Frame Rat},
      layout.Valid → layout.plot.isDegenerate = false → frame.Valid →
      (front bins layout range frame).Valid) :
    kind.Drawable where
  legend bins := by
    obtain ⟨title, hlegend⟩ := h.legend
    rw [hlegend]
    exact fun _ hitem => absurd hitem List.not_mem_nil
  paint bins layout range frame hlayout hplot hframe := by
    cases bins with
    | none =>
      rw [h.paint_none]
      exact hframe
    | some bins =>
      rw [h.paint_some]
      exact hfront bins range hlayout hplot
        (Carriers.valid_paintBands hlayout hframe bins true)

end ChartKind.Ruled

/-! ### Bit loading -/

namespace BitLoading

theorem risesFromZero_yAxis (bins : Option (Bins Rat)) (dynamic : Bool) :
    ((kind : ChartKind Rat _).yAxis bins dynamic).range.RisesFromZero := by
  have hfixed : (0 : Rat) < fixedTop := by norm_num [fixedTop]
  have hmin : (0 : Rat) < minRange := by norm_num [minRange]
  cases bins with
  | none => exact ⟨(bitsRange_rises hfixed hmin _ _).1, (bitsRange_rises hfixed hmin _ _).2⟩
  | some bins =>
    exact ⟨(bitsRange_rises hfixed hmin _ _).1, (bitsRange_rises hfixed hmin _ _).2⟩

theorem pilotWidth_pos {scaleX : Rat} (h : 0 < scaleX) : 0 < pilotWidth scaleX := by
  rw [pilotWidth]
  split
  case isTrue => exact div_pos (by norm_num) h
  case isFalse => norm_num

theorem drawable : (kind : ChartKind Rat _).Drawable where
  legend _ := by
    simp only [Legend.InRange, kind, legend, List.forall_mem_cons]
    exact ⟨Palette.inRange_blue, Palette.inRange_green, Palette.inRange_red,
      fun _ h => absurd h List.not_mem_nil⟩
  paint bins layout range frame hlayout hplot hframe := by
    cases bins with
    | none => exact hframe
    | some bins =>
      have hwidth : 0 < pilotWidth (layout.scaleX bins.binCount) * layout.metrics.scale :=
        mul_pos (pilotWidth_pos (Layout.scaleX_pos hplot _)) hlayout.metrics.scale
      have hbands := Carriers.valid_paintBands hlayout hframe bins false
      exact ((hbands.pushStroke hwidth hlayout.palette.pilotTones).pushFill
        hlayout.palette.up).pushFill hlayout.palette.down

end BitLoading

/-! ### Signal-to-noise ratio -/

namespace SignalToNoise

theorem wide_limits : (limits : LimitRule Rat).Wide := by
  constructor <;> norm_num [limits, AxisRange.Rises, Trace.snrValidMin, Trace.snrValidMax]

theorem rises_yAxis (data : Data Rat) (dynamic : Bool) :
    ((kind : ChartKind Rat _).yAxis data dynamic).range.Rises :=
  LimitRule.resolve_rises wide_limits dynamic _

theorem drawable : (kind : ChartKind Rat _).Drawable where
  legend data := by
    simp only [Legend.InRange, kind, legend]
    split
    · simp only [List.forall_mem_cons]
      exact ⟨Palette.inRange_blue, Palette.inRange_green,
        fun _ h => absurd h List.not_mem_nil⟩
    · exact fun _ h => absurd h List.not_mem_nil
  paint data layout range frame hlayout hplot hframe := by
    show (paint data layout range frame).Valid
    rw [paint]
    split
    case h_1 => exact hframe
    case h_2 bins _ =>
      have harea := Carriers.valid_paintArea hlayout
        (Carriers.valid_paintBands hlayout hframe bins true) limits bins bins.snr range
      dsimp only
      split
      case h_2 => exact harea
      case h_1 history _ =>
        have hsize := Rect.isDegenerate_eq_false_iff.mp hplot
        have hwidth : 0 < layout.metrics.scale / layout.scaleX bins.binCount :=
          div_pos hlayout.metrics.scale (Layout.scaleX_pos hplot _)
        refine harea.pushLayer hsize.1.le hsize.2.le ?_
        simp only [List.forall_mem_cons]
        exact ⟨⟨hwidth, hlayout.palette.leastStroke⟩,
          ⟨hwidth, hlayout.palette.greatestStroke⟩, fun _ h => absurd h List.not_mem_nil⟩

end SignalToNoise

/-! ### Quiet line noise -/

namespace LineNoise

theorem wide_limits : (limits : LimitRule Rat).Wide := by
  constructor <;> norm_num [limits, AxisRange.Rises]

theorem rises_yAxis (bins : Option (Bins Rat)) (dynamic : Bool) :
    ((kind : ChartKind Rat _).yAxis bins dynamic).range.Rises :=
  ruled.rises_yAxis wide_limits bins dynamic

theorem drawable : (kind : ChartKind Rat _).Drawable :=
  ruled.drawable fun bins _ range _ hlayout _ hframe =>
    Carriers.valid_paintArea hlayout hframe limits bins bins.qln range

end LineNoise

/-! ### Channel characteristic -/

namespace Characteristic

theorem wide_limits : (limits : LimitRule Rat).Wide := by
  constructor <;> norm_num [limits, AxisRange.Rises, Trace.hlogValidMin, Trace.hlogValidMax]

theorem rises_yAxis (bins : Option (Bins Rat)) (dynamic : Bool) :
    ((kind : ChartKind Rat _).yAxis bins dynamic).range.Rises :=
  ruled.rises_yAxis wide_limits bins dynamic

theorem drawable : (kind : ChartKind Rat _).Drawable :=
  ruled.drawable fun _ _ _ _ hlayout hplot hframe =>
    hframe.pushStroke (div_pos hlayout.metrics.scale (Layout.scaleX_pos hplot _))
      hlayout.palette.neutralStroke

end Characteristic

/-! ### Errors -/

namespace ErrorReport

/-- All traces of a report have colours in range. -/
def InRange (report : ErrorReport Rat) : Prop := ∀ trace ∈ report.traces, trace.color.InRange

theorem inRange_retransmissions (direction : Direction) :
    (retransmissions direction).InRange := by
  simp only [InRange, retransmissions, List.forall_mem_cons]
  exact ⟨Palette.inRange_green, Palette.inRange_blue, Palette.inRange_red,
    fun _ h => absurd h List.not_mem_nil⟩

theorem inRange_errors (direction : Direction) : (errors direction).InRange := by
  simp only [InRange, errors, List.forall_mem_cons]
  exact ⟨Palette.inRange_blue, Palette.inRange_red, fun _ h => absurd h List.not_mem_nil⟩

theorem inRange_erroredSeconds (direction : Direction) :
    (erroredSeconds direction).InRange := by
  simp only [InRange, erroredSeconds, List.forall_mem_cons]
  exact ⟨Palette.inRange_blue, Palette.inRange_red, fun _ h => absurd h List.not_mem_nil⟩

theorem risesFromZero_yAxis (report : ErrorReport Rat) (log : Option ErrorLog)
    (dynamic : Bool) :
    (report.kind.yAxis log dynamic).range.RisesFromZero := by
  have hhead : (0 : Rat) < headroom := by norm_num [headroom]
  have hcount : (0 : Rat) < Scalar.ofNat (max (report.greatestCount log) minCount) :=
    Nat.cast_pos.mpr (lt_of_lt_of_le (by decide) (le_max_right _ minCount))
  refine ⟨Exact.zero_lit, ?_⟩
  show (0.0 : Rat) < headroom * Scalar.ofNat (max (report.greatestCount log) minCount)
  rw [Exact.zero_lit]
  exact mul_pos hhead hcount

/-- The strokes of a layer are those that it is made from. -/
theorem stroke_mem_of_mem_blended {strokes : List (StrokedPath Rat)} {s : LayerStroke Rat}
    (h : s ∈ blended strokes) : s.stroke ∈ strokes := by
  cases strokes with
  | nil => exact absurd h List.not_mem_nil
  | cons first rest =>
    rcases List.mem_cons.mp h with rfl | h
    · exact List.mem_cons_self
    · obtain ⟨stroke, hstroke, rfl⟩ := List.mem_map.mp h
      exact List.mem_cons_of_mem _ hstroke

theorem drawable {report : ErrorReport Rat} (h : report.InRange) : report.kind.Drawable where
  legend _ item hitem := by
    obtain ⟨trace, htrace, rfl⟩ := List.mem_map.mp hitem
    exact h trace htrace
  paint log layout range frame hlayout hplot hframe := by
    cases log with
    | none => exact hframe
    | some log =>
      show (report.paint log layout range frame).Valid
      rw [paint]
      split
      case isTrue => exact hframe
      case isFalse =>
        have hsize := Rect.isDegenerate_eq_false_iff.mp hplot
        have houtages : (layout.palette.neutralFill.withAlpha outageAlpha).InRange := by
          refine hlayout.palette.neutralFill.withAlpha ?_
          norm_num [outageAlpha]
        have hshaded : (report.paintOutages log layout frame).Valid :=
          hframe.pushFill houtages
        refine hshaded.pushLayer hsize.1.le hsize.2.le ?_
        intro s hs
        obtain ⟨trace, htrace, heq⟩ := List.mem_map.mp (stroke_mem_of_mem_blended hs)
        rw [← heq]
        exact ⟨div_pos hlayout.metrics.scale (Layout.scaleX_pos hplot _),
          h trace (List.mem_reverse.mp htrace)⟩

end ErrorReport

end LineCharts
