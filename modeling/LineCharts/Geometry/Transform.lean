/-
Affine maps of the plane.

A transform takes `(x, y)` to `(xx·x + xy·y + x0, yx·x + yy·y + y0)`.

* `Transform.translate` and `Transform.scale` put one more operation in front: what was added
  last acts on a point first.
* `Transform.upright` is the map of charts, whose values grow upwards.
* `Transform.text` is the text form in SVG.
-/
import LineCharts.Geometry.PathData

namespace LineCharts

/-- An affine map. -/
structure Transform (α : Type) where
  xx : α
  yx : α
  xy : α
  yy : α
  x0 : α
  y0 : α
deriving BEq

namespace Transform

variable {α : Type} [Scalar α]

/-- The map that moves no point. -/
def identity : Transform α := ⟨1.0, 0.0, 0.0, 1.0, 0.0, 0.0⟩

/-- First moves by `(tx, ty)`, then applies `t`. -/
def translate (t : Transform α) (tx ty : α) : Transform α :=
  { t with
    x0 := t.x0 + (t.xx * tx + t.xy * ty)
    y0 := t.y0 + (t.yx * tx + t.yy * ty) }

/-- First scales by `sx` and `sy`, then applies `t`. -/
def scale (t : Transform α) (sx sy : α) : Transform α :=
  { t with xx := t.xx * sx, yx := t.yx * sx, xy := t.xy * sy, yy := t.yy * sy }

/-- Takes the origin to `(x, y)` and scales from there, with the second coordinate upwards. -/
def upright (x y sx sy : α) : Transform α := (identity.translate x y).scale sx (-sy)

/-- The image of a point. -/
def apply (t : Transform α) (x y : α) : Point α :=
  ⟨t.xx * x + t.xy * y + t.x0, t.yx * x + t.yy * y + t.y0⟩

/-- All coefficients are those of the identity. -/
def isIdentity (t : Transform α) : Bool := t == identity

/-- The coefficients, column by column. -/
def toList (t : Transform α) : List α := [t.xx, t.yx, t.xy, t.yy, t.x0, t.y0]

/-- All coefficients are finite. -/
def isFinite (t : Transform α) : Bool := t.toList.all Scalar.isFinite

/-- The text form: `matrix(1 0 0 1 0 0)`. -/
def text (t : Transform α) : String :=
  "matrix(" ++ " ".intercalate
    (t.toList.map fun x => String.ofList (PathData.coordinate x)) ++ ")"

end Transform

end LineCharts
