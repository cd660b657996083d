/-
Frames: everything that is drawn for one picture, in order.

* `FilledRect`, `FilledPath`, `StrokedPath`, `Label` and `Layer` are the things to draw.
* `Drawing` is one of them, `Frame` a surface with a chain of them.
* `check` refuses what cannot be drawn, and names the first rule that is broken.

Design notes. The functions that add to a frame leave out fills, strokes and layers without a
single path command. A layer is a buffer of its own: its strokes are blended with each other
first, and in coordinates from its corner.
-/
import LineCharts.Frame.Color
import LineCharts.Geometry.Surface
import LineCharts.Geometry.Transform

namespace LineCharts

/-- Refuses data that breaks a rule. -/
def refuseIf (broken : Bool) (rule : Invalid) : Except ChartError Unit :=
  if broken then .error (.invalid rule) else .ok ()

/-- How a stroke ends. -/
inductive LineCap where
  | butt
  | square
deriving DecidableEq

/-- How a stroke is put onto what a layer holds already. -/
inductive BlendMode where
  | over
  | multiply
deriving DecidableEq

/-- Where a text stands relative to its anchor. -/
inductive TextAlign where
  | left
  | center
  | right
deriving DecidableEq

variable {α : Type} [Scalar α]

/-! ### Things to draw -/

/-- A filled rectangle in device pixels. -/
structure FilledRect (α : Type) where
  rect : Rect α
  color : Color α
deriving BEq

/-- A rectangle has a finite position, and a finite size that is not negative. -/
def FilledRect.check (d : FilledRect α) : Except ChartError Unit := do
  let r := d.rect
  refuseIf (!Scalar.isFinite r.x || !Scalar.isFinite r.y) .rectPosition
  refuseIf (!Scalar.isFinite r.width || !Scalar.isFinite r.height || r.width < 0.0
    || r.height < 0.0) .rectSize
  d.color.check

/-- A path and the transform that takes it to device pixels are finite. -/
def checkGeometry (path : Path α) (transform : Transform α) : Except ChartError Unit := do
  refuseIf (!path.isFinite) .pathCoordinates
  refuseIf (!transform.isFinite) .pathTransform

/-- A filled path. -/
structure FilledPath (α : Type) where
  path : Path α
  transform : Transform α
  color : Color α
deriving BEq

/-- Refuses a fill that is not finite. -/
def FilledPath.check (d : FilledPath α) : Except ChartError Unit := do
  checkGeometry d.path d.transform
  d.color.check

/-- A stroked path. Its line is `width` wide in the units of the path. -/
structure StrokedPath (α : Type) where
  path : Path α
  transform : Transform α
  color : Color α
  width : α
  cap : LineCap
deriving BEq

/-- A stroke is finite and has a positive width. -/
def StrokedPath.check (d : StrokedPath α) : Except ChartError Unit := do
  checkGeometry d.path d.transform
  refuseIf (!Scalar.isFinite d.width || d.width ≤ 0.0) .strokeWidth
  d.color.check

/-- One line of text, anchored at `(x, y)` on its base line and compressed to `scaleX` of its
width. -/
structure Label (α : Type) where
  text : String
  x : α
  y : α
  fontSize : α
  color : Color α
  align : TextAlign
  scaleX : α
deriving BEq

/-- A label has a text, a finite position, and a positive font size and scale. -/
def Label.check (d : Label α) : Except ChartError Unit := do
  refuseIf d.text.isEmpty .emptyText
  refuseIf (!Scalar.isFinite d.x || !Scalar.isFinite d.y) .textCoordinates
  refuseIf (!Scalar.isFinite d.fontSize || d.fontSize ≤ 0.0) .fontSize
  refuseIf (!Scalar.isFinite d.scaleX || d.scaleX ≤ 0.0) .textScale
  d.color.check

/-- A stroke of a layer. -/
structure LayerStroke (α : Type) where
  stroke : StrokedPath α
  blend : BlendMode
deriving BEq

/-- Strokes that are blended in a buffer of the size and at the place of a rectangle. -/
structure Layer (α : Type) where
  rect : Rect α
  strokes : List (LayerStroke α)
deriving BEq

namespace Layer

/-- Greatest number of pixels along one side of a buffer. -/
def maxPixels : Int := 4294967295

/-- A length in whole pixels, rounded up. -/
def pixels (length : α) : Int :=
  Scalar.toInt (min (Scalar.ceil (max length 0.0)) (Scalar.ofInt maxPixels))

/-- The size of the buffer. -/
def pixelSize (d : Layer α) : Int × Int := (pixels d.rect.width, pixels d.rect.height)

/-- A layer has finite bounds of a size that is not negative, and
strokes that can be drawn. -/
def check (d : Layer α) : Except ChartError Unit := do
  let r := d.rect
  refuseIf (!([r.x, r.y, r.width, r.height].all Scalar.isFinite) || r.width < 0.0
    || r.height < 0.0) .layerBounds
  d.strokes.forM fun s => s.stroke.check

end Layer

/-- One thing to draw. -/
inductive Drawing (α : Type) where
  | rect (d : FilledRect α)
  | fill (d : FilledPath α)
  | stroke (d : StrokedPath α)
  | text (d : Label α)
  | layer (d : Layer α)
deriving BEq

/-- Refuses what cannot be drawn. -/
def Drawing.check : Drawing α → Except ChartError Unit
  | .rect d => d.check
  | .fill d => d.check
  | .stroke d => d.check
  | .text d => d.check
  | .layer d => d.check

/-! ### Frames -/

/-- A surface and what is drawn on it, in order. -/
structure Frame (α : Type) where
  viewport : Viewport
  drawings : Array (Drawing α)
deriving BEq

namespace Frame

/-- Nothing to draw. -/
def empty (viewport : Viewport) : Frame α := ⟨viewport, #[]⟩

/-- Draws one more thing. -/
def push (frame : Frame α) (d : Drawing α) : Frame α :=
  { frame with drawings := frame.drawings.push d }

/-- Draws a rectangle. -/
def pushRect (frame : Frame α) (d : FilledRect α) : Frame α := frame.push (.rect d)

/-- Draws a fill, unless its path is empty. -/
def pushFill (frame : Frame α) (d : FilledPath α) : Frame α :=
  if d.path.isEmpty then frame else frame.push (.fill d)

/-- Draws a stroke, unless its path is empty. -/
def pushStroke (frame : Frame α) (d : StrokedPath α) : Frame α :=
  if d.path.isEmpty then frame else frame.push (.stroke d)

/-- Draws a text. -/
def pushText (frame : Frame α) (d : Label α) : Frame α := frame.push (.text d)

/-- Draws a layer, unless all its paths are empty. -/
def pushLayer (frame : Frame α) (d : Layer α) : Frame α :=
  if d.strokes.all fun s => s.stroke.path.isEmpty then frame else frame.push (.layer d)

/-- Nothing is drawn. -/
def isEmpty (frame : Frame α) : Bool := frame.drawings.isEmpty

/-- Refuses a surface without pixels, and the first thing that cannot be drawn. -/
def check (frame : Frame α) : Except ChartError Unit := do
  if !frame.viewport.isValid then
    throw (.emptySurface frame.viewport.width frame.viewport.height)
  frame.drawings.toList.forM Drawing.check

/-- The fills, in order. -/
def fills (frame : Frame α) : List (FilledPath α) :=
  frame.drawings.toList.filterMap fun | .fill d => some d | _ => none

/-- The strokes outside of layers, in order. -/
def strokes (frame : Frame α) : List (StrokedPath α) :=
  frame.drawings.toList.filterMap fun | .stroke d => some d | _ => none

/-- The texts, in order. -/
def texts (frame : Frame α) : List (Label α) :=
  frame.drawings.toList.filterMap fun | .text d => some d | _ => none

/-- The layers, in order. -/
def layers (frame : Frame α) : List (Layer α) :=
  frame.drawings.toList.filterMap fun | .layer d => some d | _ => none

end Frame

end LineCharts
