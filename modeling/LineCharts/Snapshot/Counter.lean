/-
Counters of a line.

* `LineEvent` says what is counted, a `Counter` does it for one direction.
* `Counter.all` lists the fourteen counters.
* `Counter.name` is the name of a counter by itself, which `Counter.read` reads; `Counter.key`
  is the field of a log that holds it.
-/
import LineCharts.ChartError
import LineCharts.Json.Reader
import LineCharts.Snapshot.Direction

namespace LineCharts

/-- What is counted. -/
inductive LineEvent where
  /-- A transmission that had to be repeated. -/
  | repeated
  /-- A transmission that a repetition corrected. -/
  | repaired
  /-- A transmission that no repetition corrected. -/
  | lost
  /-- A block that forward error correction (FEC) corrected. -/
  | corrected
  /-- A block whose checksum (CRC) was wrong. -/
  | uncorrected
  /-- A second with errors. -/
  | erroredSecond
  /-- A second with many errors. -/
  | severeSecond
deriving DecidableEq

namespace LineEvent

/-- All events. -/
def all : List LineEvent :=
  [repeated, repaired, lost, corrected, uncorrected, erroredSecond, severeSecond]

/-- The abbreviation in the name of a counter. -/
def name : LineEvent → String
  | repeated => "RtxTx"
  | repaired => "RtxC"
  | lost => "RtxUc"
  | corrected => "Fec"
  | uncorrected => "Crc"
  | erroredSecond => "Es"
  | severeSecond => "Ses"

/-- The abbreviation in the field of a log. -/
def key : LineEvent → String
  | repeated => "RTXTX"
  | repaired => "RTXC"
  | lost => "RTXUC"
  | corrected => "FEC"
  | uncorrected => "CRC"
  | erroredSecond => "ES"
  | severeSecond => "SES"

end LineEvent

/-- Events of one direction. -/
structure Counter where
  event : LineEvent
  direction : Direction
deriving DecidableEq

namespace Counter

/-- All counters, event by event. -/
def all : List Counter :=
  LineEvent.all.flatMap fun event => Direction.all.map fun direction => ⟨event, direction⟩

/-- The name of a counter by itself: `DownstreamFec`. -/
def name (c : Counter) : String := c.direction.name ++ c.event.name

/-- The field of a log that holds the counter: `DownstreamFECCount`. -/
def key (c : Counter) : String := c.direction.name ++ c.event.key ++ "Count"

/-- Each counter is listed. -/
theorem mem_all (c : Counter) : c ∈ all := by
  obtain ⟨event, direction⟩ := c
  cases event <;> cases direction <;> decide

/-- The counter of that name. -/
def ofName? (s : String) : Option Counter := all.find? (·.name == s)

/-- Reads the name of a counter. -/
def read (text : String) : Except ChartError Counter :=
  match (Json.read? text).bind (Json.choice? ofName?) with
  | some counter => .ok counter
  | none => .error .malformedJson

end Counter

end LineCharts
