/-
Filled areas under a series: a polygon for each run of samples that can be drawn, with slopes
between the centres of neighbouring groups.

* `FillScale` maps values to heights and says which values are drawn.
* `Fill` is the state between two samples, `Fill.next` takes one sample.
* `Trace.fill` appends the polygons of a series.

Design notes. Between equal samples nothing is drawn. The centre of a group is drawn when its
value differs from the one before; when the value after it differs, the centre has to be drawn
late, unless that was done already (`drawn`).
-/
import LineCharts.Trace.Steps

namespace LineCharts.Trace

variable {α : Type} [Scalar α]

/-- From values to heights. Values up to `offsetY` and those outside the window are not drawn;
heights end at the height of `maxY`. -/
structure FillScale (α : Type) where
  scaleY : α
  offsetY : α
  maxY : α
  validMin : α
  validMax : α
deriving BEq

namespace FillScale

/-- The value is drawn. -/
@[specialize] def draws (scale : FillScale α) (v : α) : Bool :=
  scale.offsetY < v && Scalar.within scale.validMin scale.validMax v

/-- The height of a value. -/
@[specialize] def height (scale : FillScale α) (v : α) : α :=
  (min scale.maxY v - scale.offsetY) * scale.scaleY

end FillScale

/-- What earlier samples leave behind. -/
structure Fill (α : Type) where
  path : Path α
  /-- A polygon is open. -/
  inside : Bool
  /-- The centre of the last group has been drawn. -/
  drawn : Bool
  last : Option α
  /-- The height of the last value. -/
  height : α

/-- The state in front of the first sample. -/
def Fill.start (path : Path α) (scale : FillScale α) : Fill α :=
  ⟨path, false, false, some scale.offsetY, 0.0⟩

/-- Takes the sample number `index`. -/
@[specialize] def Fill.next (width : α) (scale : FillScale α) (s : Fill α) (sample : Option α)
    (index : Nat) : Fill α :=
  let value := sample.filter scale.draws
  let changed := !(s.last == sample)
  let centre := (Scalar.ofNat index + 0.5) * width
  let edge := centre - 0.5 * width
  match value with
  | none =>
    ⟨if s.inside then closeDown s.path edge s.height else s.path, false, false,
      sample, s.height⟩
  | some v =>
    let y := scale.height v
    let path := if s.inside then s.path else (s.path.moveTo edge 0.0).lineTo edge y
    if changed then
      if s.inside then
        let path := if s.drawn then path else path.lineTo (centre - width) s.height
        ⟨path.lineTo centre y, true, true, sample, y⟩
      else ⟨path, true, false, sample, y⟩
    else ⟨path, true, false, sample, s.height⟩

/-- Closes a polygon that is open behind the last sample. -/
@[specialize] def Fill.finish (width : α) (s : Fill α) (count : Nat) : Path α :=
  if s.inside then closeDown s.path (Scalar.ofNat count * width) s.height else s.path

/-- Appends the polygons of a series. -/
@[specialize] def fill (path : Path α) (series : CarrierSeries α) (scale : FillScale α) :
    Path α :=
  let width := groupWidth series.groupSize
  let s := series.samples.zipIdx.foldl (fun s (sample, i) => s.next width scale sample i)
    (Fill.start path scale)
  s.finish width series.samples.length

end LineCharts.Trace
