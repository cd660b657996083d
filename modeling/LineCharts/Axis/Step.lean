/-
Distances between ticks.

* `chooseStep` takes the first of some candidate steps with which the labels fit, or doubles
  the greatest of them until they fit.
* `firstTick` is the first multiple of a step from a given value on.
-/
import LineCharts.Scalar

namespace LineCharts

variable {α : Type} [Scalar α]

/-- How many labels fit into `pixels` with `spacing` for each, at least one. -/
def labelBudget (pixels spacing : α) : α :=
  if 0.0 < spacing && Scalar.isFinite pixels then max (Scalar.floor (pixels / spacing)) 1.0
  else 1.0

/-- A range divided into such steps stays within the budget. -/
def stepFits (range budget : α) (step : Int) : Bool := range / Scalar.ofInt step ≤ budget

/-- Doubles a step, at least once, until it fits or the doublings are used up. The step stays
within a signed word of 64 bits. -/
def doubleUntil (fits : Int → Bool) : Nat → Int → Int
  | 0, step => step
  | fuel + 1, step =>
    let twice := Scalar.saturate (step * 2)
    if fits twice then twice else doubleUntil fits fuel twice

/-- The greatest of some steps, at least 1. -/
def greatestStep (steps : List Int) : Int := steps.foldl max 1

/-- The step for a range of values on so many pixels. Without a range to divide it is
the first candidate. -/
def chooseStep (steps : List Int) (range pixels spacing : α) : Int :=
  let range := Scalar.abs range
  if !Scalar.isFinite range || range == 0.0 then max (steps.head?.getD 1) 1
  else
    let fits := stepFits range (labelBudget pixels spacing)
    match steps.find? fun step => 0 < step && fits step with
    | some step => step
    | none => doubleUntil fits 64 (greatestStep steps)

/-- The first multiple of `step` that is not below `start`; for a negative step, the last
multiple that is not above. -/
def firstTick (start step : α) : α :=
  if 0.0 < step then Scalar.ceil (start / step) * step + 0.0
  else if step < 0.0 then
    let size := -step
    Scalar.floor (start / size) * size + 0.0
  else start

end LineCharts
