/-
Counts of errors and retransmissions, period by period.

* `ErrorLog` holds the counts of equally long periods, the oldest first.
* `ErrorLog.read` reads it from JSON.

Design notes. A counter that a log does not mention has no samples. The series are held in the
order of `Counter.all`.
-/
import LineCharts.Series.Decode
import LineCharts.Snapshot.Counter

namespace LineCharts

/-- Counts of the last periods, the oldest first. -/
structure ErrorLog where
  periodCount : Nat
  /-- Seconds of one period. -/
  periodLength : Int
  endTime : Option Instant
  series : List (Counter × List (Option Nat))
deriving DecidableEq

namespace ErrorLog

/-- A log without periods; a period has five minutes. -/
def empty : ErrorLog := ⟨0, 300, none, []⟩

/-- The samples of a counter. -/
def counter (log : ErrorLog) (c : Counter) : List (Option Nat) :=
  (log.series.lookup c).getD []

/-- The seconds of a day, which a log covers that does not tell its time. -/
def secondsPerDay : Int := 86400

/-- The seconds that all periods cover. A number of periods or a product beyond a signed word
of 64 bits, and a product that is not positive, count as one day. -/
def totalSeconds (log : ErrorLog) : Int :=
  let total := log.periodLength * log.periodCount
  if Scalar.fitsInt64 log.periodCount && Scalar.fitsInt64 total && 0 < total then total
  else secondsPerDay

/-- The minutes that all periods cover. -/
def totalMinutes {α : Type} [Scalar α] (log : ErrorLog) : α :=
  Scalar.ofInt log.totalSeconds / 60.0

/-! ### Reading -/

/-- Greatest length of a period, forwards and backwards: its milliseconds fit into a word. -/
def maxPeriodLength : Int := 9223372036854775

/-- The moment in the field for it: none if it is missing, `null` or an empty text. -/
def endTimeOf : Option String → Except ChartError (Option Instant)
  | none => .ok none
  | some "" => .ok none
  | some text => match Instant.read text with
    | .ok t => .ok (some t)
    | .error cause => .error (.invalid (.endTime cause))

/-- The series of a counter in the remaining fields, of which the last of a name counts. -/
def seriesOf (fields : List (Option String × Json)) (c : Counter) :
    Except ChartError (Option (Counter × List (Option Nat))) :=
  match fields.reverse.lookup (some c.key) with
  | none => .ok none
  | some .null => .ok none
  | some (.text (some text)) => .ok (some (c, Series.decodeCounters text))
  | some _ => .error (.invalid (.counterNotText c.key))

/-- The fields of a log that are no counters. -/
def header : List String := ["PeriodCount", "PeriodLength", "EndTime"]

/-- A text, or `null` for none. -/
def nullableText? : Json → Option (Option String)
  | .null => some none
  | v => v.text?.map some

/-- The log in a JSON value. It is an object, and all its fields are kept: none may hold what
denotes nothing. -/
def ofJson (v : Json) : Except ChartError ErrorLog :=
  match v with
  | .object fields =>
    let parts : Option (Nat × Int × Option String) := do
      let [count, length, endTime] ← v.record? header | none
      let count ← Json.optional 0 Json.word? count
      let length ← Json.optional 0 Json.int? length
      let endTime ← Json.optional none nullableText? endTime
      guard (v.keepable Json.maxDepth)
      return (count, length, endTime)
    match parts with
    | none => .error .malformedJson
    | some (count, length, endTime) => do
      let endTime ← endTimeOf endTime
      let series ← Counter.all.mapM (seriesOf fields)
      if maxPeriodLength < length.natAbs then throw (.invalid (.periodLength length))
      return ⟨count, length, endTime, series.filterMap id⟩
  | _ => .error .malformedJson

/-- Reads a log. -/
def read (text : String) : Except ChartError ErrorLog :=
  match Json.read? text with
  | some v => ofJson v
  | none => .error .malformedJson

end ErrorLog

end LineCharts
