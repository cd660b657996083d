/-
The outline of bit loading: a polygon for each run of positive samples, with an upright edge
wherever the value changes.

* `Steps` is the state between two samples, `Steps.next` takes one sample.
* `Trace.steps` appends the polygons of a series.

Design notes. A corner is drawn when the value changes, at the height of the value before. The
state starts as if behind a zero sample. Heights are whole pixels.
-/
import LineCharts.Geometry.Path
import LineCharts.Snapshot.CarrierSeries

namespace LineCharts.Trace

variable {α : Type} [Scalar α]

/-- The width of a group of carriers; a group has at least one. -/
@[specialize] def groupWidth (groupSize : Nat) : α := Scalar.ofNat (max groupSize 1)

/-- What earlier samples leave behind. -/
structure Steps (α : Type) where
  path : Path α
  /-- A polygon is open. -/
  inside : Bool
  last : Option α
  /-- The height of the last value drawn. -/
  height : α

/-- The state in front of the first sample. -/
def Steps.start (path : Path α) : Steps α := ⟨path, false, some 0.0, 0.0⟩

/-- Ends a polygon at `x`: along the top, down to the base line, and back. -/
@[specialize] def closeDown (path : Path α) (x height : α) : Path α :=
  ((path.lineTo x height).lineTo x 0.0).close

/-- Takes the sample number `index`. -/
@[specialize] def Steps.next (width scaleY : α) (s : Steps α) (sample : Option α)
    (index : Nat) :
    Steps α :=
  let value := sample.filter (0.0 < ·)
  let changed := !(s.last == sample)
  let x := Scalar.ofNat index * width
  match value with
  | none =>
    ⟨if s.inside then closeDown s.path x s.height else s.path, false, sample, s.height⟩
  | some bits =>
    let path := if s.inside then s.path else s.path.moveTo x 0.0
    if changed then
      let y := Scalar.round (bits * scaleY)
      let path := if s.inside then path.lineTo x s.height else path
      ⟨path.lineTo x y, true, sample, y⟩
    else ⟨path, true, sample, s.height⟩

/-- Closes a polygon that is open behind the last sample. -/
@[specialize] def Steps.finish (width : α) (s : Steps α) (count : Nat) : Path α :=
  if s.inside then closeDown s.path (Scalar.ofNat count * width) s.height else s.path

/-- Appends the polygons of a series. -/
@[specialize] def steps (path : Path α) (series : CarrierSeries α) (scaleY : α) : Path α :=
  let width := groupWidth series.groupSize
  let s := series.samples.zipIdx.foldl (fun s (sample, i) => s.next width scaleY sample i)
    (Steps.start path)
  s.finish width series.samples.length

end LineCharts.Trace
