/-
Charts of a limit rule along the carriers.

* `ChartKind.Ruled` — a kind of chart shows one series over the frequencies: a rule finds the
  range, and the series is drawn in front of the bands;
* `LineNoise.ruled`, `Characteristic.ruled` — so do quiet line noise and the
  channel characteristic.

Design notes.  What holds of such a kind follows from what is drawn in front of the bands,
whatever the rule.  The signal-to-noise ratio is not one of them, because its range and its
legend depend on a history.
-/
import LineCharts.Chart.Characteristic
import LineCharts.Chart.LineNoise

namespace LineCharts

variable {α : Type} [Scalar α]

/-- A kind of chart that shows one series over the frequencies of a snapshot, without anything
to tell apart.  Its range is the one that a rule gives for the series, and `front` draws it in
front of the bands. -/
structure ChartKind.Ruled (kind : ChartKind α (Option (Bins α))) (rule : LimitRule α)
    (series : Bins α → PerDirection (CarrierSeries α))
    (front : Bins α → Layout α → AxisRange α → Frame α → Frame α) : Prop where
  extent : kind.extent = Carriers.extent
  xAxis : kind.xAxis = Carriers.frequencies
  yAxis : ∃ steps, ∀ bins dynamic, kind.yAxis bins dynamic =
    .ofRange (Carriers.rangeOf rule series bins dynamic) steps Carriers.labelDigits .integer
  legend : ∃ title, ∀ bins, kind.legend bins = ⟨title, []⟩
  paint_none : ∀ layout range frame, kind.paint none layout range frame = frame
  paint_some : ∀ bins layout range frame, kind.paint (some bins) layout range frame =
    front bins layout range (Carriers.paintBands bins layout true frame)

theorem LineNoise.ruled : (kind : ChartKind α _).Ruled limits Bins.qln
    fun bins => Carriers.paintArea limits bins bins.qln where
  extent := rfl
  xAxis := rfl
  yAxis := ⟨steps, fun _ _ => rfl⟩
  legend := ⟨_, fun _ => rfl⟩
  paint_none _ _ _ := rfl
  paint_some _ _ _ _ := rfl

/-- The trace of both directions on a layout. -/
def Characteristic.trace (bins : Bins α) (layout : Layout α) (range : AxisRange α) :
    StrokedPath α :=
  let scaleX := layout.scaleX bins.binCount
  { path := tracePath bins.hlog
      { scaleY := layout.plot.height / range.span
        offsetY := range.bottom
        maxY := range.top
        postScaleY := 1.0 / scaleX }
    transform := .upright layout.plot.x layout.plot.bottom scaleX scaleX
    color := layout.palette.neutralStroke
    width := layout.metrics.scale / scaleX
    cap := .butt }

theorem Characteristic.ruled : (kind : ChartKind α _).Ruled limits Bins.hlog
    fun bins layout range frame => frame.pushStroke (trace bins layout range) where
  extent := rfl
  xAxis := rfl
  yAxis := ⟨steps, fun _ _ => rfl⟩
  legend := ⟨_, fun _ => rfl⟩
  paint_none _ _ _ := rfl
  paint_some _ _ _ _ := rfl

end LineCharts
