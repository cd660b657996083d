/-
Axes on a plot: their lines and ticks, the grid and the labels.

* `Layout.tickX` and `Layout.tickY` say where a value has its tick.
* `Layout.xAxisPath` and `Layout.yAxisPath` draw an axis, `Layout.yGridPath` the grid.
* `Layout.xLabels` and `Layout.yLabels` write the labels.

Design notes. Ticks are at whole pixels, and lines are moved by half their width from there,
so that they cover whole pixels.
-/
import LineCharts.Axis.Plan
import LineCharts.Frame.Basic
import LineCharts.Layout.Metrics

namespace LineCharts.Layout

variable {α : Type} [Scalar α]

/-- Appends a line between two points. -/
def line (path : Path α) (x₁ y₁ x₂ y₂ : α) : Path α := (path.moveTo x₁ y₁).lineTo x₂ y₂

/-- Where a value of the horizontal axis has its tick. -/
def tickX (m : Metrics α) (plot : Rect α) (axis : AxisPlan α) (value : Int) : α :=
  plot.x - m.half + Scalar.round (plot.width * axis.fraction (Scalar.ofInt value))

/-- Where a value of the vertical axis has its tick. -/
def tickY (m : Metrics α) (plot : Rect α) (axis : AxisPlan α) (value : Int) : α :=
  plot.y + plot.height + m.half
    - Scalar.round (plot.height * axis.fraction (Scalar.ofInt value))

/-- Appends the line of the horizontal axis and its ticks. -/
def xAxisPath (path : Path α) (m : Metrics α) (plot : Rect α) (axis : AxisPlan α)
    (step : Int) :
    Path α :=
  let base := plot.y + plot.height + m.half
  let outer := plot.y + plot.height + Scalar.round (2.0 * m.scale) + m.half
  let inner := plot.y + plot.height + Scalar.round m.scale + m.half
  let path := line path (plot.x - m.half) base (plot.x - m.half + plot.width) base
  (axis.ticks step).foldl (fun path value =>
    let x := tickX m plot axis value
    line path x outer x inner) path

/-- The labels of the horizontal axis. -/
def xLabels (m : Metrics α) (plot : Rect α) (color : Color α) (axis : AxisPlan α)
    (step : Int) :
    List (Label α) :=
  let y := plot.y + plot.height + (2.0 + 8.0 * m.fontFactor) * m.scale + m.textOffset
  (axis.ticks step).map fun value =>
    ⟨axis.format.text α value step axis.labelEnd, tickX m plot axis value, y, m.fontSize,
      color, .center, 1.0⟩

/-- The values of the small ticks of a vertical axis: half a step below each of its ticks, and
one more behind the last, within the values that may have a tick. A step of 1 has none. -/
def minorTicks (axis : AxisPlan α) (step : Int) : List Int :=
  let half := step / 2
  if half ≤ 0 then []
  else
    let first := ((axis.ticks step).head?.getD axis.labelStart) - half
    let count := if axis.labelEnd < first then 0
      else ((axis.labelEnd - first) / step + 1).toNat
    ((List.range count).map fun (i : Nat) => first + i * step).filter (axis.labelStart ≤ ·)

/-- Appends the line of the vertical axis, its small ticks and its ticks. -/
def yAxisPath (path : Path α) (m : Metrics α) (plot : Rect α) (axis : AxisPlan α)
    (step : Int) :
    Path α :=
  let x := plot.x
  let inner := x - Scalar.round m.scale - m.half
  let major := x - Scalar.round (4.0 * m.scale) - m.half
  let minor := x - Scalar.round (2.0 * m.scale) - m.half
  let tick (outer : α) (path : Path α) (value : Int) : Path α :=
    let y := tickY m plot axis value
    line path outer y inner y
  let path := line path (x - m.half) (plot.y + m.half) (x - m.half)
    (plot.y + plot.height + m.half)
  let path := (minorTicks axis step).foldl (tick minor) path
  (axis.ticks step).foldl (tick major) path

/-- Lines across the plot at the ticks of the vertical axis, except at its lower end. -/
def yGridPath (path : Path α) (m : Metrics α) (plot : Rect α) (axis : AxisPlan α)
    (step : Int) :
    Path α :=
  let inside := (axis.ticks step).filter fun value =>
    (0.01 : α) < axis.fraction (Scalar.ofInt value)
  inside.foldl (fun path value =>
    let y := tickY m plot axis value
    line path (plot.x + m.half) y (plot.x + plot.width - m.half) y) path

/-- Labels with three digits or more are compressed. -/
def yLabelScale (axis : AxisPlan α) : α :=
  if 100 ≤ max axis.labelStart.natAbs axis.labelEnd.natAbs then compressedScale else 1.0

/-- The labels of the vertical axis. -/
def yLabels (m : Metrics α) (plot : Rect α) (color : Color α) (axis : AxisPlan α)
    (step : Int) :
    List (Label α) :=
  let x := plot.x - (5.0 + 5.5 * m.fontFactor) * m.scale
  (axis.ticks step).map fun value =>
    ⟨axis.format.text α value step axis.labelEnd, x, tickY m plot axis value + m.textOffset,
      m.fontSize, color, .right, yLabelScale axis⟩

end LineCharts.Layout
