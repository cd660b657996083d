/-
Sizes of a layout, in device pixels.

* `Layout.Metrics` are the sizes that everything else is measured in, `Layout.Metrics.of`
  finds them from parameters.
* `Layout.Metrics.plot` is the place for the data.

Design notes. Margins and the plot are at whole pixels.
-/
import LineCharts.Params

namespace LineCharts.Layout

variable {α : Type} [Scalar α]

/-- The font size of a chart on the reference surface. -/
def baseFontSize : α := 10.5

/-- The width of a digit at this size. -/
def digitWidth : α := 23.0 / 3.75

/-- The width of the reference surface. -/
def referenceWidth : α := 554.0

/-- The height of the reference surface. -/
def referenceHeight : α := 114.0

/-- The height of the strip for a legend, at the base font size. -/
def legendStripHeight : α := 18.0

/-- How much wide labels of a vertical axis are compressed. -/
def compressedScale : α := 0.7

/-- Sizes that everything else is measured in. -/
structure Metrics (α : Type) where
  /-- Device pixels for one pixel of a layout. -/
  scale : α
  /-- The font size in base font sizes. -/
  fontFactor : α
  /-- The font size in device pixels. -/
  fontSize : α
  /-- The width of lines. -/
  stroke : α
deriving BEq

/-- The sizes that parameters lead to. A font size that is not given grows with the surface,
from the base size to 1.35 times of it. -/
def Metrics.of (params : Params α) : Metrics α :=
  let scale := params.scaleFactor
  let stroke := if 1.0 < scale then Scalar.round scale else 1.0
  if 0.0 < params.fontSize then
    ⟨scale, params.fontSize / baseFontSize, params.fontSize * scale, stroke⟩
  else
    let strip := if params.legend then legendStripHeight else 0.0
    let factor := Scalar.clamp 1.0 1.35
      (min (Scalar.ofNat params.width / scale / referenceWidth)
        ((Scalar.ofNat params.height / scale - strip) / referenceHeight))
    ⟨scale, factor, baseFontSize * factor * scale, stroke⟩

namespace Metrics

/-- The width of lines grows with the scale, in whole pixels. -/
theorem stroke_of (params : Params α) : (Metrics.of params).stroke =
    if 1.0 < params.scaleFactor then Scalar.round params.scaleFactor else 1.0 := by
  rw [Metrics.of]
  split
  · rfl
  · rfl

/-- From the middle of a line of text to its base line. -/
def textOffset (m : Metrics α) : α := 3.5 * m.fontFactor * m.scale

/-- Half the width of a line. -/
def half (m : Metrics α) : α := 0.5 * m.stroke

/-- The room for a label of a horizontal axis. -/
def labelSpacing (m : Metrics α) (digits : α) : α :=
  (digits * digitWidth + 4.0) * m.fontFactor * m.scale

/-- The height of the strip for a legend. -/
def legendStrip (m : Metrics α) (legend : Bool) : α :=
  if legend then Scalar.round (legendStripHeight * m.fontFactor * m.scale) else 0.0

/-- The place for the data: the surface without the labels of the vertical axis on the left,
half a label of the horizontal axis on the right, and labels and legend below. -/
def plot (m : Metrics α) (params : Params α) (xDigits yDigits : α) : Rect α :=
  let ff := m.fontFactor
  let left := Scalar.round ((yDigits * digitWidth * ff + 5.0) * m.scale)
  let top := Scalar.round (4.0 * ff * m.scale)
  let right := Scalar.round (((xDigits * digitWidth / 2.0 + 2.75) * ff - 1.0) * m.scale)
  let bottom := Scalar.round ((14.0 * ff + 5.0) * m.scale)
  ⟨left, top, max (Scalar.ofNat params.width - left - right) 0.0,
    max (Scalar.ofNat params.height - top - bottom - m.legendStrip params.legend) 0.0⟩

end Metrics

end LineCharts.Layout
