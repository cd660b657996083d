/-
Surfaces and rectangles on them, in device pixels.

* `Viewport` is the size of a surface.
* `Rect` is a rectangle, given by its upper left corner and its size; `y` grows downwards.
-/
import LineCharts.Scalar

namespace LineCharts

/-- The size of a surface in pixels. -/
structure Viewport where
  width : Nat
  height : Nat
deriving DecidableEq

/-- A surface has pixels. -/
def Viewport.isValid (v : Viewport) : Bool := 0 < v.width && 0 < v.height

/-- A rectangle. -/
structure Rect (α : Type) where
  x : α
  y : α
  width : α
  height : α
deriving BEq

namespace Rect

variable {α : Type} [Scalar α]

/-- The empty rectangle at the origin. -/
def empty : Rect α := ⟨0.0, 0.0, 0.0, 0.0⟩

/-- The lower edge. -/
def bottom (r : Rect α) : α := r.y + r.height

/-- The right edge. -/
def right (r : Rect α) : α := r.x + r.width

/-- A rectangle without area. -/
def isDegenerate (r : Rect α) : Bool := !(0.0 < r.width && 0.0 < r.height)

end Rect

end LineCharts
