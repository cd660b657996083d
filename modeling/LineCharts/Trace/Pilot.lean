/-
Marks for pilot tones.

Traces are in units of carriers across and in pixels up from the base line. A pilot tone is
one line through the middle of its carrier.
-/
import LineCharts.Geometry.Path

namespace LineCharts.Trace

variable {α : Type} [Scalar α]

/-- Appends a line of the given height for each tone. -/
@[specialize] def pilotTones (path : Path α) (tones : List Nat) (height : α) : Path α :=
  tones.foldl (fun path tone =>
    let x := Scalar.ofNat tone + 0.5
    (path.moveTo x 0.0).lineTo x height) path

end LineCharts.Trace
