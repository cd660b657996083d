import LineCharts.Scalar.Double
import LineCharts.Scalar.Exact
import LineCharts.Series.Decode
import LineCharts.Series.Encode
import LineCharts.Json.Reader
import LineCharts.Snapshot.History
import LineCharts.Snapshot.ErrorLog
import LineCharts.Geometry.Surface
import LineCharts.Geometry.Transform
import LineCharts.Trace.Pilot
import LineCharts.Trace.Fill
import LineCharts.Trace.Stroke
import LineCharts.Trace.Outage
import LineCharts.Axis.Plan
import LineCharts.Frame.Picture
import LineCharts.Params
import LineCharts.Palette
import LineCharts.Legend
import LineCharts.BandShades
import LineCharts.Chart.Basic
import LineCharts.Chart.BitLoading
import LineCharts.Chart.Characteristic
import LineCharts.Chart.ErrorReport
import LineCharts.Chart.LineNoise
import LineCharts.Chart.SignalToNoise
import LineCharts.Proofs.Axis.Ticks
import LineCharts.Proofs.Chart.Frames
import LineCharts.Proofs.Chart.Kinds
import LineCharts.Proofs.PathData.RoundTrip
import LineCharts.Proofs.Series.Writers
import LineCharts.Proofs.Trace.Fill
import LineCharts.Proofs.Trace.Stroke
import LineCharts.Proofs.Axis.Multiples
import LineCharts.Proofs.Layout.Ticks
import LineCharts.Proofs.Trace.Steps
import LineCharts.Proofs.Frame.Drawings
import LineCharts.Proofs.Chart.Registration
import LineCharts.Proofs.Trace.Vertices
import LineCharts.Proofs.Chart.Tracing
import LineCharts.Proofs.Chart.SubPixel
import LineCharts.Proofs.Markup.Reader
import LineCharts.Proofs.Markup.RoundTrip
import LineCharts.Proofs.Frame.Document
import LineCharts.Proofs.Trace.Groups
import LineCharts.Proofs.Trace.Exchange
import LineCharts.Proofs.Frame.Rules
import LineCharts.Proofs.Frame.Rendering
import LineCharts.Proofs.Trace.Outage
import LineCharts.Proofs.Chart.Ranges
import LineCharts.Proofs.Axis.LeastStep
import LineCharts.Proofs.Layout.MinorTicks
import LineCharts.Proofs.Layout.Labels
import LineCharts.Proofs.Series.Malformed
import LineCharts.Proofs.Chart.Invalidation
import LineCharts.Proofs.Layout.BandShades
import LineCharts.Proofs.Layout.BandOrder
import LineCharts.Proofs.Chart.Containment
import LineCharts.Proofs.Chart.HistoryLegend
import LineCharts.Proofs.Geometry.Pen
import LineCharts.Proofs.Chart.Origin
import LineCharts.Proofs.Layout.LegendLine
import LineCharts.Proofs.Layout.Surface
