/-
What the user of a chart chooses.

* `Params` holds size, font, colours and switches, `Params.default` what they are at first.
* `Params.normalize` replaces numbers that cannot be used.
* `Params.read` reads parameters from JSON, where each may be missing;
  `Params.json` writes them.
-/
import LineCharts.Frame.Color
import LineCharts.Geometry.Surface
import LineCharts.Json.Reader

namespace LineCharts

/-- The choices of a user. -/
structure Params (α : Type) where
  /-- Width of the surface in device pixels. -/
  width : Nat
  /-- Height of the surface in device pixels. -/
  height : Nat
  /-- Device pixels for one pixel of a layout. -/
  scaleFactor : α
  /-- Size of the font in pixels of a layout; zero lets it grow with the surface. -/
  fontSize : α
  background : Color α
  foreground : Color α
  legend : Bool
  /-- Axes follow the data where they can. -/
  dynamic : Bool
deriving BEq

namespace Params

variable {α : Type} [Scalar α]

/-- The scale where there is no usable one. -/
def defaultScale : α := 1.0

/-- Black on white, without a legend. -/
def default : Params α where
  width := 560
  height := 114
  scaleFactor := defaultScale
  fontSize := 0.0
  background := .solid 1.0 1.0 1.0
  foreground := .solid 0.0 0.0 0.0
  legend := false
  dynamic := false

/-- The default with a legend, and higher by its strip. -/
def withLegend : Params α := { default with height := 132, legend := true }

/-- A scale that is not finite and positive becomes 1, a font size that is not finite or is
negative becomes 0. -/
def normalize (p : Params α) : Params α :=
  { p with
    scaleFactor :=
      if !Scalar.isFinite p.scaleFactor || p.scaleFactor ≤ 0.0 then defaultScale
      else p.scaleFactor
    fontSize := if !Scalar.isFinite p.fontSize || p.fontSize < 0.0 then 0.0 else p.fontSize }

/-- The surface. -/
def viewport (p : Params α) : Viewport := ⟨p.width, p.height⟩

/-! ### JSON -/

/-- Greatest width and height of a surface. -/
def maxPixels : Nat := 4294967295

/-- The colour in a JSON value. -/
def colorOfJson? (v : Json) : Option (Color Float) := do
  let [red, green, blue, alpha] ← v.record? ["red", "green", "blue", "alpha"] | none
  let channel := Json.required Json.float?
  return ⟨← channel red, ← channel green, ← channel blue, ← channel alpha⟩

/-- The parameters in a JSON value. -/
def ofJson? (v : Json) : Option (Params Float) := do
  let [width, height, scaleFactor, fontSize, background, foreground, legend, dynamic] ←
    v.record? ["width", "height", "scale_factor", "font_size", "color_background",
    "color_foreground",
      "legend", "prefer_dynamic_axis_limits"] | none
  let d : Params Float := default
  return {
    width := ← Json.optional d.width (Json.nat? maxPixels) width
    height := ← Json.optional d.height (Json.nat? maxPixels) height
    scaleFactor := ← Json.optional d.scaleFactor Json.float? scaleFactor
    fontSize := ← Json.optional d.fontSize Json.float? fontSize
    background := ← Json.optional d.background colorOfJson? background
    foreground := ← Json.optional d.foreground colorOfJson? foreground
    legend := ← Json.optional d.legend Json.bool? legend
    dynamic := ← Json.optional d.dynamic Json.bool? dynamic }

/-- Reads parameters. -/
def read (text : String) : Except ChartError (Params Float) :=
  match (Json.read? text).bind ofJson? with
  | some p => .ok p
  | none => .error .malformedJson

/-- A double in JSON: positional with a point from 0.00001 to below 10 ^ 16, else with an
exponent. A number that is not finite has no form but `null`. -/
def numberText (x : Float) : String :=
  if !x.isFinite then "null"
  else
    let d := Decimal.shortest .toEven x.toBits
    if d.coefficient = 0 || (-5 ≤ d.leading && d.leading < 16) then
      if 0 ≤ d.exponent then d.plain ++ ".0" else d.plain
    else d.scientific

/-- An object in JSON, without blanks. -/
def objectText (fields : List (String × String)) : String :=
  "\x7b" ++ ",".intercalate (fields.map fun (key, v) => "\"" ++ key ++ "\":" ++ v) ++ "\x7d"

/-- A colour in JSON. -/
def colorText (c : Color Float) : String :=
  objectText [("red", numberText c.red), ("green", numberText c.green),
    ("blue", numberText c.blue), ("alpha", numberText c.alpha)]

/-- Parameters in JSON. -/
def json (p : Params Float) : String :=
  objectText [("width", toString p.width), ("height", toString p.height),
    ("scale_factor", numberText p.scaleFactor), ("font_size", numberText p.fontSize),
    ("color_background", colorText p.background),
      ("color_foreground", colorText p.foreground),
    ("legend", toString p.legend), ("prefer_dynamic_axis_limits", toString p.dynamic)]

end Params

end LineCharts
