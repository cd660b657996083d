/-
What the charts along the carriers of a line share.

* `Carriers.extent` is the number of carriers and their spacing, also
  where there is no snapshot.
* `Carriers.paintBands` draws the bands behind a trace.
* `Carriers.paintArea` draws both directions of a series as filled areas.
-/
import LineCharts.BandShades
import LineCharts.Chart.Basic
import LineCharts.Snapshot.Bins
import LineCharts.Trace.Fill

namespace LineCharts.Carriers

variable {α : Type} [Scalar α]

/-- The width of a label on a vertical axis. -/
def labelDigits : α := 3.75

/-- The number of carriers and their spacing. -/
def extent : Option (Bins α) → Nat × α
  | some bins => (bins.binCount, bins.carrierSpacing)
  | none => (Bins.defaultBinCount, Bins.defaultCarrierSpacing)

/-- The axis of carrier numbers. -/
def numbers (bins : Option (Bins α)) : AxisPlan α := binAxis (extent bins).1

/-- The axis of frequencies. -/
def frequencies (bins : Option (Bins α)) : AxisPlan α :=
  frequencyAxis (extent bins).1 (extent bins).2

/-- The samples of both directions. -/
def samples (series : PerDirection (CarrierSeries α)) : List (List (Option α)) :=
  [series.down.samples, series.up.samples]

/-- The range that a rule gives for a series, if there is a snapshot. -/
def rangeOf (rule : LimitRule α) (series : Bins α → PerDirection (CarrierSeries α))
    (bins : Option (Bins α)) (dynamic : Bool) : AxisRange α :=
  match bins with
  | some bins => rule.resolve dynamic (samples (series bins))
  | none => rule.fixed

/-- Draws the bands of a snapshot. -/
def paintBands (bins : Bins α) (layout : Layout α) (colored : Bool) (frame : Frame α) :
    Frame α :=
  (BandShades.build bins.bands bins.binCount layout).paint frame layout colored

/-- The number of decimal places of a trace. -/
def precision : Int := 1

/-- The heights of a range on a plot, for samples within the window of a rule. -/
def areaScale (rule : LimitRule α) (plot : Rect α) (range : AxisRange α) :
    Trace.FillScale α :=
  { scaleY := plot.height / range.span
    offsetY := range.bottom
    maxY := range.top
    validMin := rule.validMin
    validMax := rule.validMax }

/-- The areas of both directions. -/
def areaPath (series : PerDirection (CarrierSeries α)) (scale : Trace.FillScale α) : Path α :=
  Trace.fill (Trace.fill (.withPrecision precision) series.down scale) series.up scale

/-- Draws the areas of both directions in gray. -/
def paintArea (rule : LimitRule α) (bins : Bins α) (series : PerDirection (CarrierSeries α))
    (layout : Layout α) (range : AxisRange α) (frame : Frame α) : Frame α :=
  let plot := layout.plot
  frame.pushFill ⟨areaPath series (areaScale rule plot range),
    .upright plot.x plot.bottom (layout.scaleX bins.binCount) 1.0, layout.palette.neutralFill⟩

end LineCharts.Carriers
