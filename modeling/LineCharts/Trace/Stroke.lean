/-
Stroked traces: an open line for each segment of samples that can be drawn, from the left edge
of its first group over the centres to the right edge of its last.

* `StrokeScale` maps values to heights.
* `Stroke` is the state of one trace between two samples, `Stroke.next` takes one sample.
* `Trace.extremes` appends the two traces of least and greatest samples, `Trace.hlog` the
  trace of a channel characteristic, `Trace.counts` the trace of a counter.

Design notes. The caller of `Stroke.next` says how high a sample is drawn, if at all, and
whether the trace breaks in front of it. Heights are multiplied by `postScaleY` when they are
drawn, so that a transform can scale both axes alike and leave the line width as it is.
-/
import LineCharts.Trace.Steps
import LineCharts.Snapshot.History

namespace LineCharts.Trace

variable {α : Type} [Scalar α]

/-- From values to heights; they end at the height of `maxY`. -/
structure StrokeScale (α : Type) where
  scaleY : α
  offsetY : α
  maxY : α
  postScaleY : α
deriving BEq

/-- What earlier samples leave behind. -/
structure Stroke (α : Type) where
  path : Path α
  width : α
  postScaleY : α
  /-- A segment is open. -/
  inside : Bool
  /-- The centre of the last group has been drawn. -/
  drawn : Bool
  last : Option α
  /-- The height of the last value. -/
  height : α

namespace Stroke

/-- The state in front of the first sample, as if `last` stood before it. -/
def start (path : Path α) (width postScaleY : α) (last : Option α) : Stroke α :=
  ⟨path, width, postScaleY, false, false, last, 0.0⟩

/-- Takes the sample number `index`, drawn at the height `y?`; with `breaks` the trace is
broken in front of it. -/
@[specialize] def next (s : Stroke α) (sample y? : Option α) (breaks : Bool) (index : Nat) :
    Stroke α :=
  let changed := !(s.last == sample)
  let centre := (Scalar.ofNat index + 0.5) * s.width
  let edge := centre - 0.5 * s.width
  let path :=
    if (s.inside && y?.isNone) || breaks then s.path.lineTo edge (s.height * s.postScaleY)
    else s.path
  match y? with
  | none => { s with path, inside := false, drawn := false, last := sample }
  | some y =>
    let begins := !s.inside || breaks
    let path := if begins then path.moveTo edge (y * s.postScaleY) else path
    let height := if begins then y else s.height
    if changed then
      if begins then { s with
        path, inside := true, drawn := false, last := sample, height := y }
      else
        let path := if s.drawn then path
          else path.lineTo (centre - s.width) (height * s.postScaleY)
        let path := path.lineTo centre (y * s.postScaleY)
        { s with path, inside := true, drawn := true, last := sample, height := y }
    else { s with path, inside := true, drawn := false, last := sample, height }

/-- Draws an open segment up to its end behind the last sample. -/
@[specialize] def finish (s : Stroke α) (count : Nat) : Path α :=
  if s.inside then s.path.lineTo (Scalar.ofNat count * s.width) (s.height * s.postScaleY)
  else s.path

end Stroke

/-! ### Least and greatest samples -/

/-- Least signal-to-noise ratio that a measurement gives. -/
def snrValidMin : α := -32.0

/-- Greatest signal-to-noise ratio that a measurement gives. -/
def snrValidMax : α := 95.0

/-- There is a sample and it can be measured. -/
@[specialize] def measurable (sample : Option α) : Bool :=
  sample.any (Scalar.within snrValidMin snrValidMax)

/-- Each least sample with the greatest sample of the same group. -/
def pairUp {σ : Type} : List (Option σ) → List (Option σ) → List (Option σ × Option σ)
  | [], _ => []
  | a :: as, [] => (a, none) :: pairUp as []
  | a :: as, b :: bs => (a, b) :: pairUp as bs

/-- The height of an extreme: half a pixel below its value, and not below the base line. -/
@[specialize] def extremeHeight (scale : StrokeScale α) (v : α) : α :=
  max ((min scale.maxY v - scale.offsetY) * scale.scaleY - 0.5) 0.0

/-- Takes the two samples of a group. Both are drawn if one of them can be measured. -/
@[specialize] def nextExtremes (scale : StrokeScale α) (low high : Stroke α)
    (pair : Option α × Option α) (index : Nat) : Stroke α × Stroke α :=
  let drawn := measurable pair.1 || measurable pair.2
  let y (sample : Option α) := (sample.filter fun _ => drawn).map (extremeHeight scale)
  (low.next pair.1 (y pair.1) false index, high.next pair.2 (y pair.2) false index)

/-- Appends the trace of the least samples to the first path and that of the greatest
samples to the second. -/
@[specialize] def extremes (lowPath highPath : Path α) (series : Extremes α)
    (scale : StrokeScale α) : Path α × Path α :=
  let width := groupWidth series.groupSize
  let start (path : Path α) := Stroke.start path width scale.postScaleY (some 0.0)
  let (low, high) := (pairUp series.least series.greatest).zipIdx.foldl
    (fun (low, high) (pair, i) => nextExtremes scale low high pair i)
    (start lowPath, start highPath)
  (low.finish series.least.length, high.finish series.least.length)

/-! ### Channel characteristic -/

/-- Least channel characteristic that a measurement gives. -/
def hlogValidMin : α := -96.2

/-- Greatest channel characteristic that a measurement gives. -/
def hlogValidMax : α := 6.0

/-- Two neighbours that differ by this much or more are not joined. -/
def hlogJump : α := 10.0

/-- The sample that a channel characteristic starts behind, below all that are drawn. -/
def hlogInitial : α := -96.3

/-- Takes one sample of a channel characteristic. -/
@[specialize] def nextHlog (scale : StrokeScale α) (s : Stroke α) (sample : Option α)
    (index : Nat) : Stroke α :=
  let value := sample.filter (Scalar.within hlogValidMin hlogValidMax)
  let breaks := match s.inside, s.last, value with
    | true, some last, some v => hlogJump ≤ Scalar.abs (v - last)
    | _, _, _ => false
  let y (v : α) := max (min scale.maxY v - scale.offsetY) 0.0 * scale.scaleY - 0.5
  s.next sample (value.map y) breaks index

/-- Appends the trace of a channel characteristic. -/
@[specialize] def hlog (path : Path α) (series : CarrierSeries α) (scale : StrokeScale α) :
    Path α :=
  let width := groupWidth series.groupSize
  let s := series.samples.zipIdx.foldl (fun s (sample, i) => nextHlog scale s sample i)
    (Stroke.start path width scale.postScaleY (some hlogInitial))
  s.finish series.samples.length

/-! ### Counters -/

/-- Takes one sample of a counter. -/
@[specialize] def nextCount (scaleY maxY : α) (s : Stroke α) (sample : Option Nat)
    (index : Nat) : Stroke α :=
  let sample : Option α := sample.map Scalar.ofNat
  s.next sample (sample.map fun v => min maxY v * scaleY - 0.5) false index

/-- Appends the trace of a counter, one unit wide for each period. -/
@[specialize] def counts (path : Path α) (samples : List (Option Nat))
    (scaleY maxY postScaleY : α) : Path α :=
  let s := samples.zipIdx.foldl (fun s (sample, i) => nextCount scaleY maxY s sample i)
    (Stroke.start path 1.0 postScaleY none)
  s.finish samples.length

end LineCharts.Trace
