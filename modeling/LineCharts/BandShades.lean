/-
Shades behind the bands of a line, and lines at the edges of the bands.

* `BandShades` holds the shades of both directions and the lines between bands.
* `BandShades.build` finds them for bands in the order of their start.
* `BandShades.paint` draws them.

Design notes. The edges of two neighbours that come as close as one line width share one line,
in the middle between them. A shade is opened at the left edge of its band and closed when the
edge to the next band is known.
-/
import LineCharts.Layout.Basic
import LineCharts.Snapshot.Band

namespace LineCharts

variable {α : Type} [Scalar α]

/-- The shades of bands and the lines between them. -/
structure BandShades (α : Type) where
  fills : PerDirection (Path α)
  separators : Path α
deriving BEq

namespace BandShades

/-- No shades. -/
def empty : BandShades α := ⟨.both .empty, .empty⟩

/-- Opens a shade at its left edge. -/
def openAt (shades : BandShades α) (plot : Rect α) (direction : Direction) (x : α) :
    BandShades α :=
  let opened (path : Path α) : Path α := (path.moveTo x plot.bottom).lineTo x plot.y
  { shades with fills := shades.fills.modify direction opened }

/-- Closes a shade at its right edge. -/
def closeAt (shades : BandShades α) (plot : Rect α) (direction : Direction) (x : α) :
    BandShades α :=
  let closed (path : Path α) : Path α := ((path.lineTo x plot.y).lineTo x plot.bottom).close
  { shades with fills := shades.fills.modify direction closed }

/-- Draws a line between bands. -/
def separate (shades : BandShades α) (plot : Rect α) (half x : α) : BandShades α :=
  { shades with
    separators := (shades.separators.moveTo x (plot.bottom - half)).lineTo x (plot.y + half) }

/-- The pixel left of the middle of a carrier. -/
def edgeStart (layout : Layout α) (scale : α) (bin : Nat) : α :=
  layout.plot.x + Scalar.floor ((Scalar.ofNat bin + 0.5) * scale)

/-- The pixel right of the middle of a carrier. -/
def edgeEnd (layout : Layout α) (scale : α) (bin : Nat) : α :=
  layout.plot.x + Scalar.ceil ((Scalar.ofNat bin + 0.5) * scale)

/-- The line that two neighbours share. -/
def edgeBetween (layout : Layout α) (scale : α) (before after : Nat) : α :=
  let centre := (Scalar.ofNat after + Scalar.ofNat before) / 2.0
  layout.plot.x + Scalar.floor ((centre + 0.5) * scale) + layout.metrics.half

/-- Takes one band behind another. -/
def next (layout : Layout α) (scale : α) (shades : BandShades α) (before after : Band) :
    BandShades α :=
  let plot := layout.plot
  let half := layout.metrics.half
  let stop := edgeEnd layout scale before.stop
  let start := edgeStart layout scale after.start
  if start - stop ≤ layout.metrics.stroke then
    let x := edgeBetween layout scale before.stop after.start
    ((shades.separate plot half x).closeAt plot before.direction x).openAt plot
      after.direction x
  else
    let shades := (shades.separate plot half (stop - half)).separate plot half (start + half)
    (shades.closeAt plot before.direction stop).openAt plot after.direction start

/-- Takes all bands behind `before`, and closes the last. -/
def follow (layout : Layout α) (scale : α) (shades : BandShades α) (before : Band) :
    List Band → BandShades α
  | [] =>
    let stop := edgeEnd layout scale before.stop
    let half := layout.metrics.half
    (shades.closeAt layout.plot before.direction stop).separate layout.plot half (stop - half)
  | after :: rest => follow layout scale (next layout scale shades before after) after rest

/-- The shades of some bands of a line with `binCount` carriers. -/
def build (bands : List Band) (binCount : Nat) (layout : Layout α) : BandShades α :=
  match bands with
  | [] => empty
  | first :: rest =>
    let scale := layout.scaleX binCount
    let start := edgeStart layout scale first.start
    let half := layout.metrics.half
    let shades := (empty.openAt layout.plot first.direction start).separate layout.plot half
      (start + half)
    follow layout scale shades first rest

/-- The opacity of a shade. -/
def fillAlpha : α := 0.075

/-- The opacity of a line between bands. -/
def strokeAlpha : α := 0.1

/-- Draws the shades, in the colours of the directions or in gray, and the lines. -/
def paint (shades : BandShades α) (frame : Frame α) (layout : Layout α) (colored : Bool) :
    Frame α :=
  let palette := layout.palette
  let down := if colored then palette.down else palette.neutralFill
  let up := if colored then palette.up else palette.neutralFill
  let frame := frame.pushFill ⟨shades.fills.up, .identity, up.withAlpha fillAlpha⟩
  let frame := frame.pushFill ⟨shades.fills.down, .identity, down.withAlpha fillAlpha⟩
  frame.pushStroke ⟨shades.separators, .identity, palette.neutralStroke.withAlpha strokeAlpha,
    layout.metrics.stroke, .square⟩

end BandShades

end LineCharts
