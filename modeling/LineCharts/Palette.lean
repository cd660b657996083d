/-
The colours of a chart.

* `Palette.derive` finds grays that stand out from the background.
* `Palette.green`, `Palette.blue` and `Palette.red` are the accents.
-/
import LineCharts.Frame.Color

namespace LineCharts

/-- The colours of one chart. -/
structure Palette (α : Type) where
  background : Color α
  text : Color α
  graph : Color α
  grid : Color α
  neutralFill : Color α
  neutralStroke : Color α
  up : Color α
  down : Color α
  pilotTones : Color α
  leastStroke : Color α
  greatestStroke : Color α
deriving BEq

namespace Palette

variable {α : Type} [Scalar α]

/-- The accent of the direction up. -/
def green : Color α := ⟨96.0 / 255.0, 192.0 / 255.0, 0.0, 0.75⟩

/-- The accent of the direction down. -/
def blue : Color α := ⟨0.0, 127.0 / 255.0, 1.0, 0.75⟩

/-- The accent of pilot tones and of errors that were not corrected. -/
def red : Color α := ⟨204.0 / 255.0, 94.0 / 255.0, 82.0 / 255.0, 0.75⟩

/-- The gray of a level from 0 to 255. -/
def gray (level alpha : α) : Color α :=
  let channel := Scalar.clamp 0.0 255.0 (Scalar.round level) / 255.0
  ⟨channel, channel, channel, alpha⟩

/-- The level of the plot, a little off the brightness of what is behind it. -/
def graphLevel (brightness : α) : α :=
  if 223.0 < brightness then brightness - 20.0
  else if 127.0 < brightness then 255.0 - (223.0 - brightness) / 2.0
  else if 31.0 < brightness then (brightness - 32.0) / 2.0
  else brightness + 20.0

/-- The colours on a background, with texts in the foreground. What is behind a background
that is mostly transparent is taken to be the opposite of the foreground. The grid is off the
plot in the direction of the foreground. -/
def derive (background foreground : Color α) : Palette α :=
  let behind := background.brightness
  let front := foreground.brightness
  let brightness := if background.alpha < 0.75 then 255.0 - front else behind
  let graph := graphLevel brightness
  let grid := if front < behind then max (graph - 20.0) 0.0 else min (graph + 20.0) 255.0
  let neutral := if 127.0 < brightness then 95.0 else 159.0
  { background
    text := foreground
    graph := gray graph 1.0
    grid := gray grid 1.0
    neutralFill := gray neutral 0.6
    neutralStroke := gray neutral 0.75
    up := green
    down := blue
    pilotTones := red
    leastStroke := blue
    greatestStroke := green }

end Palette

end LineCharts
