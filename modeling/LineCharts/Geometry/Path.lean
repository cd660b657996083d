/-
Paths of straight lines.

* `PathCommand` is one step of the pen: a jump, a line or the closing of a subpath.
* `Path` is a chain of commands, together with what the pen remembers.
* `Path.moveTo`, `Path.lineTo` and `Path.close` append to a path.

Design notes. Coordinates are rounded to a fixed number of decimal places when they are
appended, and a line to where the pen already is is left out; so equal input gives equal
commands. The pen and the start of its subpath are kept beside the commands and always equal
what following the commands from the origin gives.
-/
import LineCharts.Scalar

namespace LineCharts

/-- A point of the plane. -/
structure Point (α : Type) where
  x : α
  y : α
deriving BEq

/-- Both coordinates are finite. -/
def Point.isFinite {α : Type} [Scalar α] (p : Point α) : Bool :=
  Scalar.isFinite p.x && Scalar.isFinite p.y

/-- One step of the pen. -/
inductive PathCommand (α : Type) where
  | moveTo (p : Point α)
  | lineTo (p : Point α)
  | close
deriving BEq

/-- A chain of commands. -/
structure Path (α : Type) where
  commands : Array (PathCommand α)
  /-- Coordinates are whole multiples of the reciprocal of this. -/
  unit : α
  /-- Where the current subpath starts. -/
  start : Point α
  /-- Where the pen is. -/
  pen : Point α
deriving BEq

namespace Path

variable {α : Type} [Scalar α]

/-- The path without commands, for coordinates of so many decimal places. -/
def withPrecision (digits : Int) : Path α :=
  ⟨#[], Scalar.tenPow digits, ⟨0.0, 0.0⟩, ⟨0.0, 0.0⟩⟩

/-- The number of decimal places where nothing else is asked for. -/
def defaultPrecision : Int := 5

/-- The path without commands. -/
def empty : Path α := withPrecision defaultPrecision

/-- A coordinate to the places of a path whose unit is `unit`. The sum turns a negative zero
into a positive one. -/
@[specialize] def roundTo (unit x : α) : α := Scalar.round (x * unit) / unit + 0.0

/-- A coordinate to the places of this path. -/
@[specialize] def round (path : Path α) (x : α) : α := roundTo path.unit x

/-- Lifts the pen and puts it down at a point, where a subpath starts. -/
@[specialize] def moveTo (path : Path α) (x y : α) : Path α :=
  let p : Point α := ⟨path.round x, path.round y⟩
  { path with commands := path.commands.push (.moveTo p), start := p, pen := p }

/-- Draws a line to a point, unless the pen is there. -/
@[specialize] def lineTo (path : Path α) (x y : α) : Path α :=
  let p : Point α := ⟨path.round x, path.round y⟩
  if p == path.pen then path
  else { path with commands := path.commands.push (.lineTo p), pen := p }

/-- Closes the subpath, which takes the pen back to where it starts. -/
def close (path : Path α) : Path α :=
  { path with commands := path.commands.push .close, pen := path.start }

/-- A line to where the pen is changes nothing. -/
theorem lineTo_eq_self {path : Path α} {x y : α}
    (h : ((⟨path.round x, path.round y⟩ : Point α) == path.pen) = true) :
    path.lineTo x y = path := by
  rw [lineTo]
  exact if_pos h

/-- A line to another point is appended, and takes the pen there. -/
theorem lineTo_eq_push {path : Path α} {x y : α}
    (h : ((⟨path.round x, path.round y⟩ : Point α) == path.pen) = false) :
    path.lineTo x y =
      { path with
        commands := path.commands.push (.lineTo ⟨path.round x, path.round y⟩)
        pen := ⟨path.round x, path.round y⟩ } := by
  rw [lineTo]
  exact if_neg (by simp [h])

/-- No command yet. -/
def isEmpty (path : Path α) : Bool := path.commands.isEmpty

/-- The number of commands. -/
def size (path : Path α) : Nat := path.commands.size

/-- The number of subpaths. -/
def subpathCount (path : Path α) : Nat :=
  (path.commands.filter fun | .moveTo _ => true | _ => false).size

/-- All coordinates are finite. -/
def isFinite (path : Path α) : Bool :=
  path.commands.all fun
    | .moveTo p => p.isFinite
    | .lineTo p => p.isFinite
    | .close => true

end Path

end LineCharts
