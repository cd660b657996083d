/-
The chart of bit loading: how many bits each carrier holds.

* `BitLoading.kind` is the kind of chart.
* `BitLoading.paint` draws bands, pilot tones and the polygons of both directions.
-/
import LineCharts.Chart.Carriers
import LineCharts.Trace.Pilot

namespace LineCharts.BitLoading

variable {α : Type} [Scalar α]

/-- The upper end of the axis where it does not follow the data. -/
def fixedTop : α := 15.166666667

/-- The axis that follows the data reaches at least as many bits. -/
def minRange : α := 4.0

/-- Steps of the vertical axis. -/
def steps : List Int := [1, 2]

/-- Names the colours of directions and pilot tones. -/
def legend : Legend α :=
  ⟨"Bitloading (bits per carrier)",
    [⟨Palette.blue, "Downstream"⟩, ⟨Palette.green, "Upstream"⟩, ⟨Palette.red, "Pilot tones"⟩]⟩

/-- The range of the vertical axis. -/
def range (bins : Option (Bins α)) (dynamic : Bool) : AxisRange α :=
  match bins with
  | some bins => bitsRange fixedTop minRange dynamic (Carriers.samples bins.bits)
  | none => bitsRange fixedTop minRange false []

/-- The width of the line of a pilot tone, in carriers: one carrier, and at least
one and a half pixels. -/
def pilotWidth (scaleX : α) : α := if scaleX < 1.5 then 1.5 / scaleX else 1.0

/-- Draws bands, pilot tones, and the polygons of both directions, the one of
`Direction.down` on top. -/
def paint (bins : Bins α) (layout : Layout α) (range : AxisRange α) (frame : Frame α) :
    Frame α :=
  let plot := layout.plot
  let palette := layout.palette
  let scaleX := layout.scaleX bins.binCount
  let scaleY := plot.height / range.top
  let transform : Transform α := .upright plot.x plot.bottom scaleX 1.0
  let frame := Carriers.paintBands bins layout false frame
  let frame :=
    frame.pushStroke ⟨Trace.pilotTones .empty bins.pilotTones plot.height, transform,
      palette.pilotTones, pilotWidth scaleX * layout.metrics.scale, .butt⟩
  let frame := frame.pushFill
    ⟨Trace.steps .empty bins.bits.up scaleY, transform, palette.up⟩
  frame.pushFill ⟨Trace.steps .empty bins.bits.down scaleY, transform, palette.down⟩

/-- Bit loading along the carrier numbers. -/
def kind : ChartKind α (Option (Bins α)) where
  extent := Carriers.extent
  xAxis := Carriers.numbers
  yAxis bins dynamic := .ofRange (range bins dynamic) steps Carriers.labelDigits .integer
  legend _ := legend
  paint
    | some bins, layout, range, frame => paint bins layout range frame
    | none, _, _, frame => frame

end LineCharts.BitLoading
