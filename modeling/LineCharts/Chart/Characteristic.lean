/-
The chart of the channel characteristic (Hlog): how much of a signal arrives on each carrier.

* `Characteristic.kind` is the kind of chart.
* `Characteristic.paint` draws bands and the trace of both directions, broken at steep jumps.
-/
import LineCharts.Chart.Carriers
import LineCharts.Trace.Stroke

namespace LineCharts.Characteristic

variable {α : Type} [Scalar α]

/-- How the range of the vertical axis is found. -/
def limits : LimitRule α where
  fixed := ⟨-100.0, 7.0⟩
  validMin := Trace.hlogValidMin
  validMax := Trace.hlogValidMax
  minRange := 20.0
  ignoreZero := false

/-- Steps of the vertical axis. -/
def steps : List Int := [1, 2, 5, 10, 20]

/-- The title; there is nothing to tell apart. -/
def legend : Legend α := ⟨"Channel characteristic (dB)", []⟩

/-- The traces of both directions. -/
def tracePath (series : PerDirection (CarrierSeries α)) (scale : Trace.StrokeScale α) :
    Path α :=
  Trace.hlog (Trace.hlog (.withPrecision Carriers.precision) series.down scale)
    series.up scale

/-- Draws bands and the traces of both directions in gray. -/
def paint (bins : Bins α) (layout : Layout α) (range : AxisRange α) (frame : Frame α) :
    Frame α :=
  let plot := layout.plot
  let scaleX := layout.scaleX bins.binCount
  let path := tracePath bins.hlog
    { scaleY := plot.height / range.span
      offsetY := range.bottom
      maxY := range.top
      postScaleY := 1.0 / scaleX }
  (Carriers.paintBands bins layout true frame).pushStroke
    ⟨path, .upright plot.x plot.bottom scaleX scaleX, layout.palette.neutralStroke,
      layout.metrics.scale / scaleX, .butt⟩

/-- The channel characteristic along frequencies. -/
def kind : ChartKind α (Option (Bins α)) where
  extent := Carriers.extent
  xAxis := Carriers.frequencies
  yAxis bins dynamic := .ofRange (Carriers.rangeOf limits Bins.hlog bins dynamic) steps
    Carriers.labelDigits .integer
  legend _ := legend
  paint
    | some bins, layout, range, frame => paint bins layout range frame
    | none, _, _, frame => frame

end LineCharts.Characteristic
