/-
Charts.

* `ChartKind` says how one kind of chart comes from its data: axes, legend and traces.
* `Chart` is a chart of some kind, with parameters and data that can be changed.
* `Chart.frame` draws it, `Chart.render` hands the frame over.

Design notes. The horizontal axis is looked at again only when the shape of the data or the
choice of axes that follow the data changes, the vertical axis after every change. The traces
are drawn anew for every frame; what is around them is kept by the `Sheet`.
-/
import LineCharts.Chart.Sheet

namespace LineCharts

variable {α δ : Type}

/-- One kind of chart, for data of the type `δ`. -/
structure ChartKind (α δ : Type) where
  /-- How many carriers or periods there are, and the distance between two. -/
  extent : δ → Nat × α
  xAxis : δ → AxisPlan α
  /-- The vertical axis; it follows the data if the flag says so. -/
  yAxis : δ → Bool → AxisPlan α
  legend : δ → Legend α
  /-- Draws the data on a plot that has an area, for this range of the vertical axis. -/
  paint : δ → Layout α → AxisRange α → Frame α → Frame α

/-- A chart of one kind. -/
structure Chart (kind : ChartKind α δ) where
  sheet : Sheet α
  data : δ

namespace Chart

variable [Scalar α] {kind : ChartKind α δ}

/-- Finds the axes for the data. -/
def refreshAxes (chart : Chart kind) : Chart kind :=
  let dynamic := chart.sheet.params.dynamic
  let (domain, unit) := kind.extent chart.data
  let (sheet, changed) := chart.sheet.updateShape ⟨domain, unit, dynamic⟩
  let sheet := if changed then sheet.setXAxis (kind.xAxis chart.data) else sheet
  { chart with sheet := sheet.setYAxis (kind.yAxis chart.data dynamic) }

variable (kind) in
/-- A chart with these parameters and data. -/
def new (params : Params α) (data : δ) : Chart kind :=
  let yAxis := kind.yAxis data params.dynamic
  refreshAxes ⟨.new params (kind.xAxis data) yAxis (kind.legend data), data⟩

/-- Changes the parameters. -/
def setParams (chart : Chart kind) (params : Params α) : Chart kind :=
  refreshAxes { chart with sheet := chart.sheet.setParams params }

/-- Changes the data. -/
def setData (chart : Chart kind) (data : δ) : Chart kind :=
  refreshAxes ⟨chart.sheet.setLegend (kind.legend data), data⟩

/-- Draws the data. -/
def paint (chart : Chart kind) (frame : Frame α) : Frame α :=
  match chart.sheet.layout with
  | none => frame
  | some layout =>
    if layout.plot.isDegenerate then frame
    else kind.paint chart.data layout chart.sheet.yAxis.range frame

/-- The frame of the chart; it is empty without pixels. -/
def frame (chart : Chart kind) (measure : TextMeasure α) : Chart kind × Frame α :=
  match chart.sheet.beginFrame measure with
  | (sheet, none) => ({ chart with sheet }, sheet.emptyFrame)
  | (sheet, some frame) =>
    let chart := { chart with sheet }
    (chart, sheet.finishFrame (chart.paint frame))

/-- Hands the frame to `draw`, which draws on top of what it has drawn, `drawn`. An empty
frame is not handed over. -/
def render {ρ : Type} (chart : Chart kind) (draw : ρ → Frame α → Except ChartError ρ)
    (drawn : ρ) :
    Chart kind × Except ChartError ρ :=
  let (chart, frame) := chart.frame approximateWidth
  (chart, if frame.isEmpty then .ok drawn else draw drawn frame)

end Chart

end LineCharts
