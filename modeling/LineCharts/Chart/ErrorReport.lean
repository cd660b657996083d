/-
The charts of errors and retransmissions over time.

* `ErrorReport` says which counters one chart shows, `ErrorReport.all` lists the six reports.
* `ErrorReport.kind` is the kind of chart of a report.
* `ErrorReport.paint` shades the periods without samples and draws the traces.

Design notes. Time runs towards the end of the log, so the axis leads from its length down to
zero. The first counter of a report is drawn last. The traces are blended in a layer, so that
both show where they meet.
-/
import LineCharts.Chart.Basic
import LineCharts.Snapshot.ErrorLog
import LineCharts.Trace.Outage
import LineCharts.Trace.Stroke

namespace LineCharts

variable {α : Type} [Scalar α]

/-- A counter of a report. -/
structure ReportTrace (α : Type) where
  counter : Counter
  label : String
  color : Color α

/-- What one chart of errors shows. -/
structure ErrorReport (α : Type) where
  title : String
  traces : List (ReportTrace α)

namespace ErrorReport

/-! ### Reports -/

/-- Retransmissions of one direction. -/
def retransmissions (direction : Direction) : ErrorReport α :=
  ⟨direction.name ++ " retransmissions",
    [⟨⟨.repeated, direction⟩, "Retransmitted (rtx-tx)", Palette.green⟩,
      ⟨⟨.repaired, direction⟩, "Corrected (rtx-c)", Palette.blue⟩,
      ⟨⟨.lost, direction⟩, "Uncorrected (rtx-uc)", Palette.red⟩]⟩

/-- Errors of one direction. -/
def errors (direction : Direction) : ErrorReport α :=
  ⟨direction.name ++ " errors",
    [⟨⟨.corrected, direction⟩, "Corrected (FEC)", Palette.blue⟩,
      ⟨⟨.uncorrected, direction⟩, "Uncorrected (CRC)", Palette.red⟩]⟩

/-- Seconds with errors of one direction. -/
def erroredSeconds (direction : Direction) : ErrorReport α :=
  ⟨direction.name ++ " errored seconds",
    [⟨⟨.erroredSecond, direction⟩, "Errored (ES)", Palette.blue⟩,
      ⟨⟨.severeSecond, direction⟩, "Severely errored (SES)", Palette.red⟩]⟩

/-- All reports. -/
def all : List (ErrorReport α) :=
  [retransmissions, errors, erroredSeconds].flatMap fun report => Direction.all.map report

/-- Names the colours of the counters. -/
def legend (report : ErrorReport α) : Legend α :=
  ⟨report.title, report.traces.map fun trace => ⟨trace.color, trace.label⟩⟩

/-! ### Axes -/

/-- Steps of the time axis, in minutes. -/
def timeSteps : List Int := [1, 2, 5, 10, 20, 30, 60, 120, 180, 360, 720, 1440]

/-- Steps of the axis of counts. -/
def countSteps : List Int :=
  [1, 2, 4, 10, 20, 50, 100, 250, 500, 1000, 2500, 5000, 10000, 25000, 50000, 100000, 250000,
    500000, 1000000, 2500000, 5000000, 10000000, 25000000, 50000000]

/-- The minutes of a day, where there is no log. -/
def dayMinutes : α := 24.0 * 60.0

/-- The axis of minutes before the end of a log. -/
def timeAxis (log : Option ErrorLog) : AxisPlan α :=
  let minutes := match log with
    | some log => log.totalMinutes
    | none => dayMinutes
  .ofRange ⟨minutes, 0.0⟩ timeSteps 5.5 .duration

/-- The axis of counts reaches at least as far. -/
def minCount : Nat := 5

/-- How far the axis of counts reaches, in greatest counts. -/
def headroom : α := 1.05

/-- The samples of the counters of a report. -/
def samples (report : ErrorReport α) (log : ErrorLog) : List (List (Option Nat)) :=
  report.traces.map fun trace => log.counter trace.counter

/-- The greatest count that a report shows. -/
def greatestCount (report : ErrorReport α) (log : Option ErrorLog) : Nat :=
  let counts := match log with
    | some log => (report.samples log).flatMap (List.filterMap id)
    | none => []
  counts.foldl max 0

/-- The axis of counts. -/
def countAxis (report : ErrorReport α) (log : Option ErrorLog) : AxisPlan α :=
  let top := headroom * Scalar.ofNat (max (report.greatestCount log) minCount)
  .ofRange ⟨0.0, top⟩ countSteps 5.0 .count

/-- The number of periods and the seconds of one. -/
def extent : Option ErrorLog → Nat × α
  | some log => (log.periodCount, Scalar.ofInt log.periodLength)
  | none => (0, 0.0)

/-! ### Traces -/

/-- The opacity of the shades of periods without samples. -/
def outageAlpha : α := 0.15

/-- Shades the periods in which no counter of the report has a sample. The shades reach over
the line of the axis. -/
def paintOutages (report : ErrorReport α) (log : ErrorLog) (layout : Layout α)
    (frame : Frame α) :
    Frame α :=
  let plot := layout.plot
  let stroke := layout.metrics.stroke
  frame.pushFill
    ⟨Trace.outages .empty (report.samples log),
      .upright plot.x (plot.bottom + stroke) (layout.scaleX log.periodCount)
        (plot.height + stroke),
      layout.palette.neutralFill.withAlpha outageAlpha⟩

/-- The strokes of a layer, of which the first covers what is below. -/
def blended : List (StrokedPath α) → List (LayerStroke α)
  | [] => []
  | first :: rest => ⟨first, .over⟩ :: rest.map fun stroke => ⟨stroke, .multiply⟩

/-- The trace of one counter. -/
def strokeOf (log : ErrorLog) (layout : Layout α) (top : α) (trace : ReportTrace α) :
    StrokedPath α :=
  let plot := layout.plot
  let scaleX := layout.scaleX log.periodCount
  { path := Trace.counts (.withPrecision 1) (log.counter trace.counter) (plot.height / top)
      top (1.0 / scaleX)
    transform := .upright 0.0 plot.height scaleX scaleX
    color := trace.color
    width := layout.metrics.scale / scaleX
    cap := .butt }

/-- Draws shades and traces. Without periods the samples have no place on the axis. -/
def paint (report : ErrorReport α) (log : ErrorLog) (layout : Layout α) (range : AxisRange α)
    (frame : Frame α) : Frame α :=
  if log.periodCount = 0 then frame
  else (report.paintOutages log layout frame).pushLayer
    ⟨layout.plot, blended (report.traces.reverse.map (strokeOf log layout range.top))⟩

/-- The counters of a report over time. -/
def kind (report : ErrorReport α) : ChartKind α (Option ErrorLog) where
  extent := extent
  xAxis := timeAxis
  yAxis log _ := report.countAxis log
  legend _ := report.legend
  paint
    | some log, layout, range, frame => report.paint log layout range frame
    | none, _, _, frame => frame

end ErrorReport

end LineCharts
