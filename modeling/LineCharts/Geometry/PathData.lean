/-
The text form of paths in SVG.

A command is a letter with its coordinates: `M` jumps, `L`, `H` and `V` draw lines, `z` closes
a subpath. A small letter takes the coordinates from where the pen is.

* `PathData.coordinate` writes one number as short as possible.
* `PathData.segment` writes one command in its shorter form, absolute or relative.
* `Path.data` is the text of a path.

Design notes. Two numbers need a blank between them only where the second could be read as a
part of the first: not before a sign, nor before a point if the first number has one already.
-/
import LineCharts.Geometry.Path

namespace LineCharts

namespace PathData

variable {α : Type} [Scalar α]

/-- Leaves out a zero in front of the point: `.5`, `-.5`. -/
def dropLeadingZero : List Char → List Char
  | '0' :: '.' :: rest => '.' :: rest
  | '-' :: '0' :: '.' :: rest => '-' :: '.' :: rest
  | cs => cs

/-- A number in its shortest form; a negative zero is written as zero. -/
@[specialize] def coordinate (x : α) : List Char :=
  dropLeadingZero (Scalar.text (x + 0.0)).toList

/-- Two numbers, with a blank between them where it is needed. -/
def pair (x y : List Char) : List Char :=
  let apart := match y with
    | '-' :: _ => false
    | '.' :: _ => !x.contains '.'
    | _ => true
  if apart then x ++ ' ' :: y else x ++ y

/-- A letter with two coordinates. -/
@[specialize] def twoCoordinates (letter : Char) (x y : α) : List Char :=
  letter :: pair (coordinate x) (coordinate y)

/-- The second text if it is shorter than the first, else the first. -/
def shorter (first second : List Char) : List Char :=
  if second.length < first.length then second else first

/-- What a reader of the text remembers: where the subpath starts and where the pen is. -/
structure Pen (α : Type) where
  start : Point α
  position : Point α
deriving BEq

/-- The pen before the first command. -/
def Pen.origin : Pen α := ⟨⟨0.0, 0.0⟩, ⟨0.0, 0.0⟩⟩

/-- The pen after a command. -/
def Pen.after (pen : Pen α) : PathCommand α → Pen α
  | .moveTo p => ⟨p, p⟩
  | .lineTo p => ⟨pen.start, p⟩
  | .close => ⟨pen.start, pen.start⟩

/-- The text of one command. Relative coordinates are rounded like those of the path. -/
@[specialize] def segment (unit : α) (pen : Pen α) : PathCommand α → List Char
  | .moveTo p =>
    shorter (twoCoordinates 'M' p.x p.y)
      (twoCoordinates 'm' (Path.roundTo unit (p.x - pen.position.x))
        (Path.roundTo unit (p.y - pen.position.y)))
  | .lineTo p =>
    let dx := Path.roundTo unit (p.x - pen.position.x)
    let dy := Path.roundTo unit (p.y - pen.position.y)
    if dy == 0.0 then shorter ('H' :: coordinate p.x) ('h' :: coordinate dx)
    else if dx == 0.0 then shorter ('V' :: coordinate p.y) ('v' :: coordinate dy)
    else shorter (twoCoordinates 'L' p.x p.y) (twoCoordinates 'l' dx dy)
  | .close => ['z']

/-- The text of a chain of commands. -/
@[specialize] def text (unit : α) (pen : Pen α) : List (PathCommand α) → List Char
  | [] => []
  | c :: rest => segment unit pen c ++ text unit (pen.after c) rest

end PathData

/-- The text of a path. -/
@[specialize] def Path.data {α : Type} [Scalar α] (path : Path α) : String :=
  String.ofList (PathData.text path.unit .origin path.commands.toList)

end LineCharts
