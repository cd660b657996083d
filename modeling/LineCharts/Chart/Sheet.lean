/-
The sheet that a chart is drawn on: parameters, axes and legend, and the layout they lead to.

* `Sheet` keeps the layout until something changes that it depends on.
* `Sheet.setParams`, `Sheet.setXAxis`, `Sheet.setYAxis` and `Sheet.setLegend` change one part.
  What is equal to the part that is there changes nothing.
* `Sheet.updateShape` remembers what the horizontal axis depends on.
* `Sheet.beginFrame` and `Sheet.finishFrame` draw what is behind the data
  and what is on top of it.

Design notes. A sheet without a layout is *stale*. Only a surface with pixels gets a layout. A
legend counts only while it is shown: a change of one that is hidden keeps the layout.
-/
import LineCharts.Layout.Basic

namespace LineCharts

variable {α : Type} [Scalar α]

/-- What the horizontal axis of a chart depends on. -/
structure Shape (α : Type) where
  /-- Carriers or periods. -/
  domain : Nat
  /-- From one carrier or period to the next. -/
  unit : α
  dynamic : Bool

namespace Shape

/-- Two units are the same: equal, or both no numbers. -/
def sameUnit (a b : α) : Bool := a == b || (!(a == a) && !(b == b))

instance : BEq (Shape α) where
  beq a b := a.domain == b.domain && sameUnit a.unit b.unit && a.dynamic == b.dynamic

end Shape

/-- Everything of a chart but its data. -/
structure Sheet (α : Type) where
  params : Params α
  shape : Option (Shape α)
  xAxis : AxisPlan α
  yAxis : AxisPlan α
  legend : Legend α
  /-- The layout, if it is up to date. -/
  layout : Option (Layout α)
  /-- How many layouts there were. -/
  generation : Nat

namespace Sheet

/-- A sheet that has no layout yet. -/
def new (params : Params α) (xAxis yAxis : AxisPlan α) (legend : Legend α) : Sheet α :=
  { params := params.normalize
    shape := none
    xAxis
    yAxis
    legend
    layout := none
    generation := 0 }

/-- The layout has to be computed for the next frame. -/
def isStale (sheet : Sheet α) : Bool := sheet.layout.isNone

/-! ### Changes -/

/-- Changes the parameters. -/
def setParams (sheet : Sheet α) (params : Params α) : Sheet α :=
  let params := params.normalize
  if params == sheet.params then sheet else { sheet with params, layout := none }

/-- Changes the horizontal axis. -/
def setXAxis (sheet : Sheet α) (xAxis : AxisPlan α) : Sheet α :=
  if xAxis == sheet.xAxis then sheet else { sheet with xAxis, layout := none }

/-- Changes the vertical axis. -/
def setYAxis (sheet : Sheet α) (yAxis : AxisPlan α) : Sheet α :=
  if yAxis == sheet.yAxis then sheet else { sheet with yAxis, layout := none }

/-- Changes the legend. -/
def setLegend (sheet : Sheet α) (legend : Legend α) : Sheet α :=
  if legend == sheet.legend then sheet
  else { sheet with legend, layout := if sheet.params.legend then none else sheet.layout }

/-- Remembers the shape, and says whether it is another one than before. -/
def updateShape (sheet : Sheet α) (shape : Shape α) : Sheet α × Bool :=
  if sheet.shape == some shape then (sheet, false)
  else ({ sheet with shape := some shape }, true)

/-! ### What makes a sheet stale

A part that differs from the one that is there does; of the legend only while it is shown. -/

theorem isStale_setParams (sheet : Sheet α) (params : Params α) :
    (sheet.setParams params).isStale =
      (sheet.isStale || !(params.normalize == sheet.params)) := by
  simp only [setParams, isStale]
  split <;> simp_all

theorem isStale_setXAxis (sheet : Sheet α) (xAxis : AxisPlan α) :
    (sheet.setXAxis xAxis).isStale = (sheet.isStale || !(xAxis == sheet.xAxis)) := by
  simp only [setXAxis, isStale]
  split <;> simp_all

theorem isStale_setYAxis (sheet : Sheet α) (yAxis : AxisPlan α) :
    (sheet.setYAxis yAxis).isStale = (sheet.isStale || !(yAxis == sheet.yAxis)) := by
  simp only [setYAxis, isStale]
  split <;> simp_all

theorem isStale_setLegend (sheet : Sheet α) (legend : Legend α) :
    (sheet.setLegend legend).isStale =
      (sheet.isStale || (sheet.params.legend && !(legend == sheet.legend))) := by
  simp only [setLegend, isStale]
  split
  · simp_all
  · cases sheet.params.legend <;> simp_all

/-! ### Frames -/

/-- The layout that parameters, axes and legend lead to. -/
def freshLayout (sheet : Sheet α) (measure : TextMeasure α) : Layout α :=
  let legend := if sheet.params.legend then some sheet.legend else none
  .compute sheet.params sheet.xAxis sheet.yAxis legend measure

/-- Computes the layout of a stale sheet. It says whether the surface has pixels; nothing is
computed if not. -/
def ensureLayout (sheet : Sheet α) (measure : TextMeasure α) : Sheet α × Bool :=
  if !sheet.params.viewport.isValid then (sheet, false)
  else if sheet.isStale then
    ({ sheet with
      layout := some (sheet.freshLayout measure), generation := sheet.generation + 1 }, true)
  else (sheet, true)

/-- On a surface with pixels the layout is up to date afterwards. -/
theorem isStale_ensureLayout {sheet : Sheet α} (h : sheet.params.viewport.isValid = true)
    (measure : TextMeasure α) : (sheet.ensureLayout measure).1.isStale = false := by
  simp only [ensureLayout, h]
  cases hs : sheet.isStale <;> simp_all [isStale]

/-- One layout more is computed exactly for a stale sheet with pixels. -/
theorem generation_ensureLayout (sheet : Sheet α) (measure : TextMeasure α) :
    (sheet.ensureLayout measure).1.generation =
      sheet.generation + if sheet.params.viewport.isValid && sheet.isStale then 1 else 0 := by
  simp only [ensureLayout]
  cases sheet.params.viewport.isValid <;> cases sheet.isStale <;> simp

/-- Nothing on the surface. -/
def emptyFrame (sheet : Sheet α) : Frame α := .empty sheet.params.viewport

/-- Brings the layout up to date and starts a frame with what is behind the data; there is
none without pixels. -/
def beginFrame (sheet : Sheet α) (measure : TextMeasure α) : Sheet α × Option (Frame α) :=
  let (sheet, hasPixels) := sheet.ensureLayout measure
  let started (layout : Layout α) : Frame α := layout.paintBackground (.empty layout.viewport)
  (sheet, if hasPixels then sheet.layout.map started else none)

/-- Draws axes, labels and legend on top of the data. -/
def finishFrame (sheet : Sheet α) (frame : Frame α) : Frame α :=
  match sheet.layout with
  | some layout => layout.paintAxes frame
  | none => frame

end Sheet

end LineCharts
