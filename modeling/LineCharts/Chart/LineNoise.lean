/-
The chart of the quiet line noise (QLN) of each carrier: its noise while nothing is sent.

* `LineNoise.kind` is the kind of chart.
-/
import LineCharts.Chart.Carriers

namespace LineCharts.LineNoise

variable {α : Type} [Scalar α]

/-- How the range of the vertical axis is found. -/
def limits : LimitRule α where
  fixed := ⟨-160.0, -69.0⟩
  validMin := -150.0
  validMax := -23.0
  minRange := 20.0
  ignoreZero := false

/-- Steps of the vertical axis. -/
def steps : List Int := [1, 2, 5, 10, 20]

/-- The title; there is nothing to tell apart. -/
def legend : Legend α := ⟨"Quiet line noise (dBm/Hz)", []⟩

/-- Draws bands and the areas of both directions. -/
def paint (bins : Bins α) (layout : Layout α) (range : AxisRange α) (frame : Frame α) :
    Frame α :=
  Carriers.paintArea limits bins bins.qln layout range
    (Carriers.paintBands bins layout true frame)

/-- Quiet line noise along frequencies. -/
def kind : ChartKind α (Option (Bins α)) where
  extent := Carriers.extent
  xAxis := Carriers.frequencies
  yAxis bins dynamic := .ofRange (Carriers.rangeOf limits Bins.qln bins dynamic) steps
    Carriers.labelDigits .integer
  legend _ := legend
  paint
    | some bins, layout, range, frame => paint bins layout range frame
    | none, _, _, frame => frame

end LineCharts.LineNoise
