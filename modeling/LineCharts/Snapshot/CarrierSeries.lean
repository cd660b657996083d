/-
Series along the carriers of a line.

* `CarrierSeries` is one series, with one sample per group of carriers.
* `CarrierSeries.ofText` takes its samples from their text form.
-/
import LineCharts.Json.Value
import LineCharts.Series.Decode

namespace LineCharts

/-- One series: sample `i` stands for the carriers from `i · groupSize` on. -/
structure CarrierSeries (α : Type) where
  groupSize : Nat
  samples : List (Option α)
deriving BEq

namespace CarrierSeries

variable {α : Type}

/-- A series whose groups have at least one carrier. -/
def ofSamples (groupSize : Nat) (samples : List (Option α)) : CarrierSeries α :=
  ⟨max groupSize 1, samples⟩

/-- The series of an encoded text. -/
def ofText [Scalar α] (groupSize : Nat) (text : String) : CarrierSeries α :=
  ofSamples groupSize (Series.decode text)

/-- The series without samples. -/
def empty : CarrierSeries α := ofSamples 1 []

/-- A group size and an encoded text. -/
def ofJson? (v : Json) : Option (CarrierSeries Float) := do
  let [groupSize, data] ← v.record? ["GroupSize", "Data"] | none
  let groupSize ← Json.optional 0 Json.word? groupSize
  let data ← Json.optional "" Json.text? data
  return ofText groupSize data

end CarrierSeries

end LineCharts
