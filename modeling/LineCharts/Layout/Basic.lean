/-
The layout of a chart on a surface.

* `Layout` says where the plot is, how wide its lines are, which steps its axes have, and
  holds the lines and texts of axes, grid and legend.
* `Layout.compute` finds it from parameters, axes and a legend.
* `Layout.paintBackground` and `Layout.paintAxes` draw what is behind the
  data and on top of it.
-/
import LineCharts.Layout.Axes
import LineCharts.Legend
import LineCharts.Palette

namespace LineCharts

variable {α : Type} [Scalar α]

/-- The layout of one chart. -/
structure Layout (α : Type) where
  viewport : Viewport
  palette : Palette α
  metrics : Layout.Metrics α
  plot : Rect α
  stepX : Int
  stepY : Int
  /-- Axis lines and ticks. -/
  axisPath : Path α
  gridPath : Path α
  labels : List (Label α)
  legend : List (Drawing α)
deriving BEq

namespace Layout

/-- The strip for a legend, at the lower end of the surface. -/
def stripOf (m : Metrics α) (params : Params α) (textColor : Color α) : LegendStrip α :=
  let height := m.legendStrip params.legend
  { surfaceWidth := Scalar.ofNat params.width
    top := Scalar.ofNat params.height - height
    height
    fontSize := m.fontSize
    fontFactor := m.fontFactor
    scaleFactor := m.scale
    textOffset := m.textOffset
    textColor }

/-- The layout of a chart with these axes. The legend is left out where the parameters
do not ask for one. -/
def compute (params : Params α) (xAxis yAxis : AxisPlan α) (legend : Option (Legend α))
    (measure : TextMeasure α) : Layout α :=
  let params := params.normalize
  let palette := Palette.derive params.background params.foreground
  let m := Metrics.of params
  let plot := m.plot params xAxis.digits yAxis.digits
  let stepX :=
    chooseStep xAxis.steps xAxis.range.span plot.width (m.labelSpacing xAxis.digits)
  let stepY := chooseStep yAxis.steps yAxis.range.span plot.height m.fontSize
  { viewport := params.viewport
    palette
    metrics := m
    plot
    stepX
    stepY
    axisPath := yAxisPath (xAxisPath .empty m plot xAxis stepX) m plot yAxis (max stepY 1)
    gridPath := yGridPath .empty m plot yAxis (max stepY 1)
    labels := xLabels m plot palette.text xAxis stepX
      ++ yLabels m plot palette.text yAxis (max stepY 1)
    legend := match legend with
      | some legend =>
        if params.legend then legend.layout (stripOf m params palette.text) measure else []
      | none => [] }

/-- Device pixels for one carrier or period of `count`. -/
def scaleX (layout : Layout α) (count : Nat) : α :=
  layout.plot.width / Scalar.ofNat (max count 1)

/-- Draws the surface, the plot unless it has no area, and the grid. -/
def paintBackground (layout : Layout α) (frame : Frame α) : Frame α :=
  let surface : Rect α :=
    ⟨0.0, 0.0, Scalar.ofNat layout.viewport.width, Scalar.ofNat layout.viewport.height⟩
  let frame := frame.pushRect ⟨surface, layout.palette.background⟩
  let frame := if layout.plot.isDegenerate then frame
    else frame.pushRect ⟨layout.plot, layout.palette.graph⟩
  frame.pushStroke
    ⟨layout.gridPath, .identity, layout.palette.grid, layout.metrics.stroke, .butt⟩

/-- Draws axes, labels and legend. -/
def paintAxes (layout : Layout α) (frame : Frame α) : Frame α :=
  let frame := frame.pushStroke
    ⟨layout.axisPath, .identity, layout.palette.text, layout.metrics.stroke, .square⟩
  let frame := layout.labels.foldl Frame.pushText frame
  layout.legend.foldl Frame.push frame

end Layout

end LineCharts
