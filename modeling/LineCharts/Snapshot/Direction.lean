/-
Directions of transmission.

* `Direction` says which way, `Direction.ofName?` reads its name.
* `PerDirection` holds the same thing for both; `PerDirection.ofJson?` reads it from JSON.
-/
import LineCharts.Json.Value

namespace LineCharts

/-- Which way a carrier or a counter transmits. -/
inductive Direction where
  /-- From the network to the subscriber. -/
  | down
  /-- From the subscriber to the network. -/
  | up
deriving DecidableEq

namespace Direction

/-- The name of a direction in JSON. -/
def name : Direction → String
  | down => "Downstream"
  | up => "Upstream"

/-- Both directions. -/
def all : List Direction := [down, up]

/-- The direction of that name. -/
def ofName? (s : String) : Option Direction := all.find? (·.name == s)

end Direction

/-- The same thing for both directions. -/
structure PerDirection (σ : Type) where
  down : σ
  up : σ
deriving BEq

namespace PerDirection

variable {σ : Type}

/-- Equal things for both directions. -/
def both (x : σ) : PerDirection σ := ⟨x, x⟩

/-- Changes the thing of one direction. -/
def modify (p : PerDirection σ) (direction : Direction) (f : σ → σ) : PerDirection σ :=
  match direction with
  | .down => { p with down := f p.down }
  | .up => { p with up := f p.up }

/-- Values for both directions, each `default` if it is missing. -/
def ofJson? (default : σ) (read? : Json → Option σ) (v : Json) : Option (PerDirection σ) := do
  let [down, up] ← v.record? (Direction.all.map Direction.name) | none
  return ⟨← Json.optional default read? down, ← Json.optional default read? up⟩

end PerDirection

end LineCharts
