/-
Why a snapshot is refused or a frame is not drawn.

* `Invalid` names each rule on data that can be broken.
* `ChartError` adds surfaces without pixels and text that is no JSON of the expected shape.
* `ChartError.message` is the wording.
-/
import LineCharts.Instant

namespace LineCharts

/-- A broken rule on data. -/
inductive Invalid where
  | noBins
  | carrierSpacing
  | endTime (cause : Instant.ReadError)
  | counterNotText (key : String)
  | periodLength (seconds : Int)
  | colorChannel (name : String)
  | rectPosition
  | rectSize
  | pathCoordinates
  | pathTransform
  | strokeWidth
  | emptyText
  | textCoordinates
  | fontSize
  | textScale
  | layerBounds
deriving DecidableEq

/-- What is said about a broken rule. -/
def Invalid.message : Invalid → String
  | .noBins => "bin snapshot must declare a non-zero BinCount"
  | .carrierSpacing => "bin snapshot carrier spacing must be finite and > 0"
  | .endTime cause => "EndTime: " ++ cause.message
  | .counterNotText key => key ++ " must be an encoded string"
  | .periodLength seconds =>
    "PeriodLength " ++ toString seconds ++ " seconds is out of range"
  | .colorChannel name => "color channel `" ++ name ++ "` must be finite and in [0, 1]"
  | .rectPosition => "rect position must be finite"
  | .rectSize => "rect size must be finite and >= 0"
  | .pathCoordinates => "path coordinates must be finite"
  | .pathTransform => "path transform must be finite"
  | .strokeWidth => "stroke width must be finite and > 0"
  | .emptyText => "text primitive must not be empty"
  | .textCoordinates => "text coordinates must be finite"
  | .fontSize => "font size must be finite and > 0"
  | .textScale => "text scale must be finite and > 0"
  | .layerBounds => "scratch layer bounds must be finite and >= 0"

/-- Why there is no snapshot or no drawing. -/
inductive ChartError where
  /-- A surface of this width and height has no pixels. -/
  | emptySurface (width height : Nat)
  | invalid (cause : Invalid)
  | malformedJson
deriving DecidableEq

/-- What is said about an error. -/
def ChartError.message : ChartError → String
  | .emptySurface width height =>
    "invalid viewport size: width=" ++ toString width ++ ", height=" ++ toString height
  | .invalid cause => "invalid data: " ++ cause.message
  | .malformedJson => "malformed snapshot"

end LineCharts
