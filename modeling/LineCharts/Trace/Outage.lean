/-
Shading of the periods in which no counter has a sample.

* `covered` says for each period that all series reach whether one of them has a sample.
* `Trace.outages` appends a rectangle of height one for each run of periods without any.
-/
import LineCharts.Geometry.Path

namespace LineCharts.Trace

variable {α : Type} [Scalar α]

/-- Whether some series has a sample, for each period that all of them reach. -/
def covered {σ : Type} : List (List (Option σ)) → List Bool
  | [] => []
  | [samples] => samples.map Option.isSome
  | samples :: rest =>
    List.zipWith (fun sample b => sample.isSome || b) samples (covered rest)

/-- Ends a rectangle at the period `index`. -/
@[specialize] def closeOutage (path : Path α) (index : Nat) : Path α :=
  let x : α := Scalar.ofNat index
  ((path.lineTo x 1.0).lineTo x 0.0).close

/-- Takes the period number `index`, after one with samples (`last`) or without. -/
@[specialize] def nextOutage (path : Path α) (last here : Bool) (index : Nat) : Path α :=
  let x : α := Scalar.ofNat index
  if last && !here then (path.moveTo x 0.0).lineTo x 1.0
  else if !last && here then closeOutage path index
  else path

/-- Appends the rectangles of the periods without samples. -/
@[specialize] def outages {σ : Type} (path : Path α) (series : List (List (Option σ))) :
    Path α :=
  let flags := covered series
  let (path, last) := flags.zipIdx.foldl
    (fun (path, last) (here, i) => (nextOutage path last here i, here)) (path, true)
  if last then path else closeOutage path flags.length

end LineCharts.Trace
