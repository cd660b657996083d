/-
Legends: the title of a chart and a swatch for each kind of trace, in one centred line.

* `Legend` is what a legend says.
* `TextMeasure` says how wide a text is; `approximateWidth` is one that needs no font.
* `Legend.layout` places a legend on a strip of the surface.

Design notes. The width of the line is measured first (`Legend.width`), then everything is
placed from left to right. A title without width takes no place, and no gap follows it; an
empty text of an item is not drawn.
-/
import LineCharts.Frame.Basic

namespace LineCharts

variable {α : Type} [Scalar α]

/-- The width of a text at a font size, in pixels. -/
abbrev TextMeasure (α : Type) := String → α → α

/-- The width of the average character, in font sizes. -/
def averageAdvance : α := 0.55

/-- The width of a text whose characters are all of average width. -/
def approximateWidth : TextMeasure α :=
  fun text size => Scalar.ofNat text.length * size * averageAdvance

/-- A kind of trace. -/
structure LegendItem (α : Type) where
  color : Color α
  text : String
deriving BEq

/-- A title and the kinds of traces. -/
structure Legend (α : Type) where
  title : String
  items : List (LegendItem α)
deriving BEq

/-- Where a legend stands, in device pixels. -/
structure LegendStrip (α : Type) where
  surfaceWidth : α
  top : α
  height : α
  fontSize : α
  fontFactor : α
  scaleFactor : α
  /-- From the middle of a line of text to its base line. -/
  textOffset : α
  textColor : Color α
deriving BEq

namespace LegendStrip

/-- The side of a swatch. -/
def swatch (strip : LegendStrip α) : α :=
  max (Scalar.round (8.0 * strip.fontFactor * strip.scaleFactor)) 1.0

/-- The gap in front of an item. -/
def itemGap (strip : LegendStrip α) : α := 12.0 * strip.fontFactor * strip.scaleFactor

/-- The gap behind a swatch. -/
def swatchGap (strip : LegendStrip α) : α := 4.0 * strip.fontFactor * strip.scaleFactor

/-- The middle of the strip. -/
def middle (strip : LegendStrip α) : α := strip.top + strip.height / 2.0

/-- A text on the strip that starts at `x`. -/
def label (strip : LegendStrip α) (text : String) (x : α) : Label α :=
  ⟨text, x, strip.middle + strip.textOffset, strip.fontSize, strip.textColor, .left, 1.0⟩

end LegendStrip

namespace Legend

/-- The width of the title; none without a title. -/
def titleWidth (legend : Legend α) (strip : LegendStrip α) (measure : TextMeasure α) : α :=
  if legend.title.isEmpty then 0.0 else measure legend.title strip.fontSize

/-- The items with the widths of their texts. -/
def measuredItems (legend : Legend α) (strip : LegendStrip α) (measure : TextMeasure α) :
    List (LegendItem α × α) :=
  legend.items.map fun item => (item, measure item.text strip.fontSize)

/-- Adds the widths of items to `total`; `gap` says whether a gap is in front of the first. -/
def addItems (strip : LegendStrip α) (gap : Bool) (total : α) : List (LegendItem α × α) → α
  | [] => total
  | (_, width) :: rest =>
    let total := if gap then total + strip.itemGap else total
    addItems strip true (total + (strip.swatch + strip.swatchGap + width)) rest

/-- The width of the line. -/
def width (legend : Legend α) (strip : LegendStrip α) (measure : TextMeasure α) : α :=
  let title := legend.titleWidth strip measure
  addItems strip (0.0 < title) title (legend.measuredItems strip measure)

/-- Places items from `cursor` on; `gap` says whether a gap is in front of the first. -/
def placeItems (strip : LegendStrip α) (gap : Bool) (cursor : α) :
    List (LegendItem α × α) → List (Drawing α)
  | [] => []
  | (item, width) :: rest =>
    let left := if gap then cursor + strip.itemGap else cursor
    let y := Scalar.round (strip.middle - strip.swatch / 2.0)
    let swatch : FilledRect α :=
      ⟨⟨Scalar.round left, y, strip.swatch, strip.swatch⟩, item.color⟩
    let text := left + (strip.swatch + strip.swatchGap)
    let label := if item.text.isEmpty then [] else [.text (strip.label item.text text)]
    .rect swatch :: label ++ placeItems strip true (text + width) rest

/-- Where the line starts, so that it stands in the middle. -/
def lineStart (legend : Legend α) (strip : LegendStrip α) (measure : TextMeasure α) : α :=
  Scalar.round (max ((strip.surfaceWidth - legend.width strip measure) / 2.0) 0.0)

/-- Places a legend on a strip. -/
def layout (legend : Legend α) (strip : LegendStrip α) (measure : TextMeasure α) :
    List (Drawing α) :=
  let title := legend.titleWidth strip measure
  let start := legend.lineStart strip measure
  let items := legend.measuredItems strip measure
  if 0.0 < title then
    .text (strip.label legend.title start) :: placeItems strip true (start + title) items
  else placeItems strip false start items

end Legend

end LineCharts
