/-
Bands: carriers next to each other that transmit in one direction.

* `Band` is one band, `Band.read` reads it from JSON.
* `Band.merge` puts the bands of both directions in order.
-/
import LineCharts.ChartError
import LineCharts.Json.Reader
import LineCharts.Snapshot.Direction

namespace LineCharts

/-- The carriers from `start` to `stop`, which is included. -/
structure Band where
  start : Nat
  stop : Nat
  direction : Direction
deriving DecidableEq

namespace Band

/-- The first and the last carrier of a band, as they stand in a snapshot. -/
def edges? (v : Json) : Option (Nat × Nat) := do
  let [start, stop] ← v.record? ["Start", "End"] | none
  return (← Json.required Json.word? start, ← Json.required Json.word? stop)

/-- The bands of a snapshot: those of both directions in the order of their start, the one of
`Direction.down` first if two start together. -/
def merge (edges : PerDirection (List (Nat × Nat))) : List Band :=
  let ofEdges (direction : Direction) :=
    List.map fun (start, stop) => Band.mk start stop direction
  (ofEdges .down edges.down ++ ofEdges .up edges.up).mergeSort
    fun a b => a.start ≤ b.start

/-- A band by itself, with its direction. -/
def ofJson? (v : Json) : Option Band := do
  let [start, stop, direction] ← v.record? ["start", "end", "direction"] | none
  return ⟨← Json.required Json.word? start, ← Json.required Json.word? stop,
    ← Json.required (Json.choice? Direction.ofName?) direction⟩

/-- Reads a band by itself. -/
def read (text : String) : Except ChartError Band :=
  match (Json.read? text).bind ofJson? with
  | some band => .ok band
  | none => .error .malformedJson

end Band

end LineCharts
