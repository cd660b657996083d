/-
The texts of ticks.

* `LabelFormat` says what the values of an axis are.
* `LabelFormat.text` writes the value of one tick.

Design notes. A time is written in one unit for the whole axis, which the step decides. A
count is written in thousands or millions when the last value of the axis reaches them. Number
and unit are kept apart by a narrow blank at which no line breaks.
-/
import LineCharts.Scalar

namespace LineCharts

/-- What the values of an axis are. -/
inductive LabelFormat where
  /-- Plain integers. -/
  | integer
  /-- Frequencies in kHz, written in MHz. -/
  | frequency
  /-- Times in minutes, written in days, hours or minutes. -/
  | duration
  /-- Counts. -/
  | count
deriving DecidableEq

namespace LabelFormat

/-- Puts a unit behind a number. -/
def withUnit (number unit : String) : String := number ++ "\u202f" ++ unit

variable (α : Type) [Scalar α]

/-- The quotient of two integers, to so many places. -/
def quotient (places : Nat) (n d : Int) : String :=
  Scalar.places places (Scalar.ofInt n / Scalar.ofInt d : α)

/-- A frequency in MHz: one place if that is exact, else two. -/
def frequencyText (khz : Int) : String :=
  if Int.tmod khz 100 = 0 then quotient α 1 khz 1000 else quotient α 2 khz 1000

/-- A time on an axis with ticks `step` minutes apart. -/
def durationText (minutes step : Int) : String :=
  let step := max step 1
  if step % 1440 = 0 then withUnit (toString (Int.tdiv minutes 1440)) "d"
  else if step % 720 = 0 then withUnit (quotient α 1 minutes 1440) "d"
  else if step % 60 = 0 then withUnit (toString (Int.tdiv minutes 60)) "h"
  else if step < 30 then withUnit (toString minutes) "min"
  else if step < 60 then withUnit (quotient α 1 minutes 60) "h"
  else "?"

/-- A count in units of `scale`, with as many places as it takes, two at most. -/
def scaledText (value scale : Int) (unit : String) : String :=
  if Int.tmod value scale = 0 then withUnit (toString (Int.tdiv value scale)) unit
  else if Int.tmod value (scale / 10) = 0 then withUnit (quotient α 1 value scale) unit
  else withUnit (quotient α 2 value scale) unit

/-- A count on an axis up to `last`. -/
def countText (value last : Int) : String :=
  if value = 0 then "0"
  else if 1000000 ≤ last then scaledText α value 1000000 "M"
  else if 1000 ≤ last then scaledText α value 1000 "k"
  else toString value

/-- The text of a tick on an axis with this step and this last value. -/
def text (format : LabelFormat) (value step last : Int) : String :=
  match format with
  | integer => toString value
  | frequency => frequencyText α value
  | duration => durationText α value step
  | count => countText α value last

end LabelFormat

end LineCharts
