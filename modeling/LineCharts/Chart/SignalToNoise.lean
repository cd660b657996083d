/-
The chart of the signal-to-noise ratio of each carrier, with its extremes over time.

* `SignalToNoise.kind` is the kind of chart; its data are a snapshot and a history.
* `SignalToNoise.paint` draws bands, the areas of both directions, and the
  traces of the extremes.

Design notes. A history without samples is no history: it has neither traces nor a
place in the legend. The traces of the extremes are blended in a layer, so that
both show where they meet.
-/
import LineCharts.Chart.Carriers
import LineCharts.Trace.Stroke

namespace LineCharts.SignalToNoise

variable {α : Type} [Scalar α]

/-- What the chart shows. -/
structure Data (α : Type) where
  bins : Option (Bins α)
  history : Option (History α)

/-- The history, if it has samples. -/
def Data.shownHistory (data : Data α) : Option (History α) := data.history.filter (!·.isEmpty)

/-- How the range of the vertical axis is found. -/
def limits : LimitRule α where
  fixed := ⟨0.0, 65.0⟩
  validMin := Trace.snrValidMin
  validMax := Trace.snrValidMax
  minRange := 20.0
  ignoreZero := true

/-- Steps of the vertical axis. -/
def steps : List Int := [1, 2, 5, 10]

/-- Names the colours of the extremes if there is a history. -/
def legend (withHistory : Bool) : Legend α :=
  ⟨"Signal-to-noise ratio (dB)",
    if withHistory then [⟨Palette.blue, "Minimum"⟩, ⟨Palette.green, "Maximum"⟩] else []⟩

/-- All samples of snapshot and history. -/
def Data.samples (data : Data α) : List (List (Option α)) :=
  let ofBins : Option (Bins α) → List (List (Option α))
    | some bins => Carriers.samples bins.snr
    | none => []
  let ofHistory : Option (History α) → List (List (Option α))
    | some ⟨⟨down, up⟩⟩ => [down.least, down.greatest, up.least, up.greatest]
    | none => []
  ofBins data.bins ++ ofHistory data.history

/-- The traces of least and of greatest samples, of both directions. -/
def extremesPaths (history : History α) (scale : Trace.StrokeScale α) : Path α × Path α :=
  let fresh : Path α := .withPrecision Carriers.precision
  let (low, high) := Trace.extremes fresh fresh history.snr.down scale
  Trace.extremes low high history.snr.up scale

/-- Draws the traces of the extremes. -/
def paintHistory (history : History α) (binCount : Nat) (layout : Layout α)
    (range : AxisRange α) (frame : Frame α) : Frame α :=
  let plot := layout.plot
  let scaleX := layout.scaleX binCount
  let (low, high) := extremesPaths history
    { scaleY := plot.height / range.span
      offsetY := range.bottom
      maxY := range.top
      postScaleY := 1.0 / scaleX }
  let transform : Transform α := .upright 0.0 plot.height scaleX scaleX
  let width := layout.metrics.scale / scaleX
  frame.pushLayer ⟨plot,
    [⟨⟨low, transform, layout.palette.leastStroke, width, .butt⟩, .over⟩,
      ⟨⟨high, transform, layout.palette.greatestStroke, width, .butt⟩, .multiply⟩]⟩

/-- Draws bands, areas and extremes. Nothing is drawn without a snapshot, which tells the
number of carriers. -/
def paint (data : Data α) (layout : Layout α) (range : AxisRange α) (frame : Frame α) :
    Frame α :=
  match data.bins with
  | none => frame
  | some bins =>
    let frame := Carriers.paintBands bins layout true frame
    let frame := Carriers.paintArea limits bins bins.snr layout range frame
    match data.shownHistory with
    | some history => paintHistory history bins.binCount layout range frame
    | none => frame

/-- The signal-to-noise ratio along frequencies. -/
def kind : ChartKind α (Data α) where
  extent data := Carriers.extent data.bins
  xAxis data := Carriers.frequencies data.bins
  yAxis data dynamic :=
    .ofRange (limits.resolve dynamic data.samples) steps Carriers.labelDigits .integer
  legend data := legend data.shownHistory.isSome
  paint := paint

end LineCharts.SignalToNoise
