/-
Pictures of frames, and counts of what is in them.

* `Frame.markup` is the SVG document of a frame, piece by piece.
* `Picture` holds the document of the last frame that could be drawn.
* `Tally` draws nothing: it counts frames and what the last one held.
* `afterFrame` is what one of them is after a frame.
* `InPlace` are programs that write into one of them; `Picture.draw` and
  `Tally.draw` draw a frame so.
* `handOver` hands frames over one after the other.

Design notes. Both take the same frames and refuse the same ones. A frame that is refused
leaves them as they were.
-/
import LineCharts.Frame.Basic
import LineCharts.Frame.Markup

namespace LineCharts

variable {α : Type} [Scalar α]

/-! ### Documents -/

/-- A number as an attribute. -/
def numberAttribute (name : String) (x : α) : String × String :=
  (name, String.ofList (PathData.coordinate x))

/-- The attribute of a transform; the identity needs none. -/
def transformAttribute (t : Transform α) : List (String × String) :=
  if t.isIdentity then [] else [("transform", t.text)]

/-- The markup of a rectangle. -/
def FilledRect.markup (d : FilledRect α) : Markup :=
  .single "rect" [numberAttribute "x" d.rect.x, numberAttribute "y" d.rect.y,
    numberAttribute "width" d.rect.width, numberAttribute "height" d.rect.height,
    ("fill", d.color.css)]

/-- The markup of a fill. -/
def FilledPath.markup (d : FilledPath α) : Markup :=
  .single "path"
    ([("d", d.path.data)] ++ transformAttribute d.transform ++ [("fill", d.color.css)])

/-- The name of a cap. -/
def LineCap.name : LineCap → String
  | .butt => "butt"
  | .square => "square"

/-- The markup of a stroke. -/
def StrokedPath.markup (d : StrokedPath α) (blend : BlendMode) : Markup :=
  .single "path"
    ([("d", d.path.data)] ++ transformAttribute d.transform
      ++ [("fill", "none"), ("stroke", d.color.css), numberAttribute "stroke-width" d.width,
        ("stroke-linecap", d.cap.name)]
      ++ match blend with
        | .over => []
        | .multiply => [("style", "mix-blend-mode:multiply")])

/-- The fonts of all texts. -/
def fontFamily : String := "Arial,Helvetica,sans-serif"

/-- The name of an alignment. -/
def TextAlign.anchor : TextAlign → String
  | .left => "start"
  | .center => "middle"
  | .right => "end"

/-- The map that compresses a text and leaves its anchor where it is. -/
def Label.compression (d : Label α) : Transform α :=
  ((Transform.identity.translate d.x 0.0).scale d.scaleX 1.0).translate (-d.x) 0.0

/-- The markup of a text. -/
def Label.markup (d : Label α) : List Markup :=
  let transform := if d.scaleX == 1.0 then [] else transformAttribute d.compression
  [.opening "text"
      ([numberAttribute "x" d.x, numberAttribute "y" d.y, ("font-family", fontFamily),
        numberAttribute "font-size" d.fontSize, ("fill", d.color.css),
        ("text-anchor", d.align.anchor)] ++ transform),
    .text d.text, .closing "text"]

/-- The markup of a layer: a surface of its own, which cuts its strokes off at its bounds. -/
def Layer.markup (d : Layer α) : List Markup :=
  let (width, height) := d.pixelSize
  [.opening "svg" [numberAttribute "x" d.rect.x, numberAttribute "y" d.rect.y,
      ("width", toString width), ("height", toString height), ("style", "isolation:isolate")]]
    ++ d.strokes.map (fun s => s.stroke.markup s.blend) ++ [.closing "svg"]

/-- The markup of one thing to draw. -/
def Drawing.markup : Drawing α → List Markup
  | .rect d => [d.markup]
  | .fill d => [d.markup]
  | .stroke d => [d.markup .over]
  | .text d => d.markup
  | .layer d => d.markup

/-- The markup of a frame. -/
def Frame.markup (frame : Frame α) : List Markup :=
  let width := toString frame.viewport.width
  let height := toString frame.viewport.height
  [.opening "svg" [("xmlns", "http://www.w3.org/2000/svg"), ("width", width),
      ("height", height), ("viewBox", "0 0 " ++ width ++ " " ++ height)]]
    ++ frame.drawings.toList.flatMap Drawing.markup ++ [.closing "svg"]

/-- The last frame drawn, as a document; empty before the first. -/
structure Picture where
  document : String := ""
deriving DecidableEq

/-- Draws a frame. -/
def Picture.render (_ : Picture) (frame : Frame α) : Except ChartError Picture := do
  frame.check
  return ⟨Markup.document frame.markup⟩

/-! ### Counts -/

/-- How many frames there were, and what was in the last one. -/
structure Tally where
  frames : Nat := 0
  /-- Fills, rectangles included. -/
  fills : Nat := 0
  strokes : Nat := 0
  texts : Nat := 0
  layers : Nat := 0
deriving DecidableEq

/-- Counts one thing to draw. -/
def Tally.count (t : Tally) : Drawing α → Tally
  | .rect _ => { t with fills := t.fills + 1 }
  | .fill _ => { t with fills := t.fills + 1 }
  | .stroke _ => { t with strokes := t.strokes + 1 }
  | .text _ => { t with texts := t.texts + 1 }
  | .layer _ => { t with layers := t.layers + 1 }

/-- Counts a frame. -/
def Tally.render (t : Tally) (frame : Frame α) : Except ChartError Tally := do
  frame.check
  return frame.drawings.foldl Tally.count { frames := t.frames + 1 }

/-! ### Refused frames -/

/-- What is there after a frame: what came of it, and what was there
`before` if it was refused. -/
def afterFrame {ρ : Type} (before : ρ) : Except ChartError ρ → ρ
  | .ok after => after
  | .error _ => before

/-! ### In place -/

/-- A program that writes into what a renderer holds. What it has written is
there also if it fails. -/
abbrev InPlace (ρ : Type) := ExceptT ChartError (StateM ρ)

/-- Draws a frame in place of the last one. -/
def Picture.draw (frame : Frame α) : InPlace Picture Unit := do
  frame.check
  set (⟨Markup.document frame.markup⟩ : Picture)

/-- Nothing of the last frame is counted any more. -/
def Tally.cleared (t : Tally) : Tally := { frames := t.frames }

/-- Counts a frame in place: first the counts of the last one are cleared,
then each thing counts. -/
def Tally.draw (frame : Frame α) : InPlace Tally Unit := do
  frame.check
  modify Tally.cleared
  frame.drawings.toList.forM fun d => modify (·.count d)
  modify fun t => { t with frames := t.frames + 1 }

/-- Hands frames over one after the other, whatever comes of them. -/
def handOver {ρ : Type} (draw : Frame α → InPlace ρ Unit) (frames : List (Frame α)) :
    StateM ρ (List (Except ChartError Unit)) :=
  frames.mapM fun frame => (draw frame).run

end LineCharts
