/-
Where stroked traces are within half a pixel of the heights of their
samples, in exact arithmetic.

* `Characteristic.tracing`, `SignalToNoise.tracing`, `ErrorReport.tracing` —
  the charts with traces;
* `Characteristic.drawn_tracing` and the like — they draw these traces and no others;
* `Characteristic.follows_traced` and the like — with one scale for both directions;
* `Characteristic.exists_trace_at` and the like — and at all heights of a part of the plot;
* `Chart.sharp_traces` — so they are sharp just with at most 10 pixels
  for a carrier or period.
-/
import LineCharts.Proofs.Chart.Tracing

namespace LineCharts

open Trace (StrokePlan StrokeScale)

/-! ### Channel characteristic -/

namespace Characteristic

/-- The trace of both directions. -/
def traced (bins : Bins Rat) (layout : Layout Rat) (range : AxisRange Rat) : Traced :=
  let scale := layout.strokeScale range bins.binCount
  let scaleX := layout.scaleX bins.binCount
  { stroke := ⟨tracePath bins.hlog scale,
      .upright layout.plot.x layout.plot.bottom scaleX scaleX, layout.palette.neutralStroke,
      layout.metrics.scale / scaleX, .butt⟩
    top := 0
    points := [bins.hlog.down, bins.hlog.up].flatMap fun s =>
      (StrokePlan.hlog s.samples scale).points s.samples.length (max s.groupSize 1) }

/-- The channel characteristic as a chart with traces. -/
def tracing : Tracing (Bins Rat) (Option (Bins Rat)) where
  kind := kind
  data := some
  count := Bins.binCount
  traces bins layout range := [traced bins layout range]
  behind bins layout frame := Carriers.paintBands bins layout true frame
  plot params := Layout.plotFor params carrierLabelDigits Carriers.labelDigits

theorem vertices_tracePath (series : PerDirection (CarrierSeries Rat))
    (scale : StrokeScale Rat) :
    (tracePath series scale).vertices =
      ([series.down, series.up].flatMap fun s =>
        (StrokePlan.hlog s.samples scale).points s.samples.length (max s.groupSize 1)).map
          (Trace.vertex 10 scale.postScaleY) := by
  rw [tracePath, Trace.hlog_eq_lines, Trace.hlog_eq_lines,
    StrokePlan.vertices_draw_tenths _ _ _ (le_max_right _ _) _
      ((StrokePlan.unit_draw _ _ _ _ _).trans Path.unit_tenths),
    StrokePlan.vertices_draw_tenths _ _ _ (le_max_right _ _) _ Path.unit_tenths]
  simp [Path.vertices, Path.withPrecision]

theorem drawn_tracing : tracing.Drawn where
  plot params measure bins dynamic :=
    kind.plot_layout { params with dynamic } (some bins) measure
  shows bins layout range frame _ t ht hpath := by
    rw [List.mem_singleton.mp ht] at hpath ⊢
    exact ⟨_, Frame.mem_pushStroke hpath, List.mem_singleton.mpr rfl⟩
  only bins layout range frame _ := by
    have hbehind : (Carriers.paintBands bins layout true frame).All
        (tracing.Shown bins layout range frame) := fun _ hd => .inl hd
    exact hbehind.pushStroke
      (.inr fun s hs => List.mem_singleton.mp hs ▸ List.mem_singleton.mpr rfl)

theorem follows_traced {bins : Bins Rat} {layout : Layout Rat} {range : AxisRange Rat}
    (hrange : range.Rises) (hheight : 0 < layout.plot.height) :
    (traced bins layout range).Follows layout.plot (layout.scaleX bins.binCount) := by
  refine ⟨vertices_tracePath _ _, fun p => ?_, fun hlow q hq => ?_⟩
  · rw [Traced.deviceY]
    show 0 + ((Transform.upright _ _ _ _).apply p.x p.y).y = _
    rw [Transform.apply_upright, zero_add]
  · obtain ⟨s, _, hq⟩ := List.mem_flatMap.mp hq
    obtain ⟨i, hi⟩ := StrokePlan.exists_height_of_mem_points _ _ _ hq
    obtain ⟨-, h0, h1⟩ := hrange.scaled_mem hheight ((Trace.sampleAt s.samples i).getD 0)
    have hy : q.y = max (min range.top ((Trace.sampleAt s.samples i).getD 0) - range.bottom)
        0 * (layout.plot.height / range.span) - 0.5 := hi
    rw [hy, abs_le]
    constructor <;> linarith

/-- One sample of the first group has all heights of its window, on a fixed axis. -/
theorem exists_trace_at {height y : Rat} (hpos : 0 < height)
    (hlo : 3.8 * height / 107 - 1 / 2 ≤ y) (hhi : y ≤ 106 * height / 107 - 1 / 2)
    (count : Nat) :
    ∃ bins : Bins Rat, bins.binCount = count ∧
      ∀ layout : Layout Rat, layout.plot.height = height →
      ∃ t ∈ tracing.traces bins layout (kind.yAxis (some bins) false).range,
      ∃ q ∈ t.points, q.y = y := by
  let sample : Rat := (y + 1 / 2) * 107 / height - 100
  have hlow : -96.2 ≤ sample := by
    have hle : 3.8 ≤ (y + 1 / 2) * 107 / height := (le_div_iff₀ hpos).mpr (by linarith)
    linarith
  have hhigh : sample ≤ 6 := by
    have hle : (y + 1 / 2) * 107 / height ≤ 106 := (div_le_iff₀ hpos).mpr (by linarith)
    linarith
  let bins : Bins Rat :=
    { Bins.empty with binCount := count, hlog := ⟨⟨1, [some sample]⟩, .empty⟩ }
  have hrange : (kind.yAxis (some bins) false).range = (⟨-100, 7⟩ : AxisRange Rat) := by
    show (⟨-100.0, 7.0⟩ : AxisRange Rat) = _
    norm_num
  refine ⟨bins, rfl, fun layout hlayout => ⟨_, List.mem_singleton.mpr rfl, ?_⟩⟩
  let plan := StrokePlan.hlog [some sample]
    (layout.strokeScale (kind.yAxis (some bins) false).range count)
  have hdrawn : plan.drawn 0 = true := by
    show (decide (-96.2 ≤ sample) && decide (sample ≤ 6)) = true
    rw [decide_eq_true hlow, decide_eq_true hhigh, Bool.and_self]
  obtain ⟨q, hq, hheight⟩ := plan.exists_mem_points 1 (max 1 1) Nat.one_pos hdrawn
  refine ⟨q, List.mem_flatMap.mpr ⟨⟨1, [some sample]⟩, List.mem_cons_self, hq⟩,
    hheight.trans ?_⟩
  show max (min (kind.yAxis (some bins) false).range.top sample -
    (kind.yAxis (some bins) false).range.bottom) 0 *
      (layout.plot.height / (kind.yAxis (some bins) false).range.span) - 0.5 = y
  rw [hrange, hlayout, AxisRange.span, min_eq_right (by linarith), max_eq_left (by linarith)]
  have hexpand : (sample - -100) * (height / (7 - -100)) = y + 1 / 2 := by
    show ((y + 1 / 2) * 107 / height - 100 - -100) * (height / (7 - -100)) = _
    field_simp
    ring
  rw [hexpand]
  norm_num

theorem regular_tracing : tracing.Regular where
  toDrawn := drawn_tracing
  whole params := Layout.exists_height_eq params _ _
  follows bins layout dynamic hplot _ t ht := by
    obtain rfl := List.mem_singleton.mp ht
    exact follows_traced (rises_yAxis (some bins) dynamic)
      (Rect.isDegenerate_eq_false_iff.mp hplot).2
  reaches height count hheight _ :=
    ⟨3.8 * height / 107 - 1 / 2, 106 * height / 107 - 1 / 2, by linarith,
      fun _ hlo hhi => exists_trace_at (by linarith) hlo hhi count⟩

end Characteristic

/-! ### Extremes -/

namespace SignalToNoise

/-- The trace of the extremes of both directions that a function picks. -/
def tracedOf (history : History Rat) (count : Nat) (layout : Layout Rat)
    (range : AxisRange Rat) (path : Path Rat) (color : Color Rat)
    (own other : Extremes Rat → List (Option Rat)) : Traced where
  stroke :=
    ⟨path, .upright 0.0 layout.plot.height (layout.scaleX count) (layout.scaleX count), color,
      layout.metrics.scale / layout.scaleX count, .butt⟩
  top := layout.plot.y
  points := [history.snr.down, history.snr.up].flatMap fun s =>
    (StrokePlan.extremes (own s) (other s) (layout.strokeScale range count)).points
      s.least.length (max s.groupSize 1)

/-- The traces of least and of greatest samples. -/
def traced (history : History Rat) (count : Nat) (layout : Layout Rat)
    (range : AxisRange Rat) :
    List Traced :=
  let paths := extremesPaths history (layout.strokeScale range count)
  [tracedOf history count layout range paths.1 layout.palette.leastStroke Extremes.least
      Extremes.greatest,
    tracedOf history count layout range paths.2 layout.palette.greatestStroke
      Extremes.greatest Extremes.least]

/-- The extremes of the signal-to-noise ratio as a chart with traces. -/
def tracing : Tracing (Bins Rat × History Rat) (Data Rat) where
  kind := kind
  data i := ⟨some i.1, some i.2⟩
  count i := i.1.binCount
  traces i layout range := if i.2.isEmpty then [] else traced i.2 i.1.binCount layout range
  behind i layout frame := Carriers.paintBands i.1 layout true frame
  plot params := Layout.plotFor params carrierLabelDigits Carriers.labelDigits

theorem vertices_extremesPaths (history : History Rat) (scale : StrokeScale Rat) :
    (extremesPaths history scale).1.vertices =
        ([history.snr.down, history.snr.up].flatMap fun s =>
          (StrokePlan.extremes s.least s.greatest scale).points s.least.length
            (max s.groupSize 1)).map (Trace.vertex 10 scale.postScaleY) ∧
      (extremesPaths history scale).2.vertices =
        ([history.snr.down, history.snr.up].flatMap fun s =>
          (StrokePlan.extremes s.greatest s.least scale).points s.least.length
            (max s.groupSize 1)).map (Trace.vertex 10 scale.postScaleY) := by
  let fresh : Path Rat := .withPrecision Carriers.precision
  obtain ⟨hlow, hhigh⟩ := Trace.extremes_eq_lines fresh fresh history.snr.down scale
  obtain ⟨hlow', hhigh'⟩ :=
    Trace.extremes_eq_lines (Trace.extremes fresh fresh history.snr.down scale).1
      (Trace.extremes fresh fresh history.snr.down scale).2 history.snr.up scale
  have hpaths : extremesPaths history scale =
      Trace.extremes (Trace.extremes fresh fresh history.snr.down scale).1
        (Trace.extremes fresh fresh history.snr.down scale).2 history.snr.up scale := rfl
  have hunit (plan : StrokePlan) (count : Nat) (width post : Rat) :
      (plan.draw count width post fresh).unit = 10 :=
    (StrokePlan.unit_draw _ _ _ _ _).trans Path.unit_tenths
  rw [hpaths, hlow', hhigh', hlow, hhigh]
  constructor
  all_goals
    rw [StrokePlan.vertices_draw_tenths _ _ _ (le_max_right _ _) _ (hunit _ _ _ _),
      StrokePlan.vertices_draw_tenths _ _ _ (le_max_right _ _) _ Path.unit_tenths]
    simp [Path.vertices, Path.withPrecision]

/-- A history with samples is drawn on top of the areas. -/
theorem paint_eq (bins : Bins Rat) (history : History Rat) (layout : Layout Rat)
    (range : AxisRange Rat) (frame : Frame Rat) :
    paint ⟨some bins, some history⟩ layout range frame =
      if history.isEmpty then
        Carriers.paintArea limits bins bins.snr layout range
          (Carriers.paintBands bins layout true frame)
      else paintHistory history bins.binCount layout range
        (Carriers.paintArea limits bins bins.snr layout range
          (Carriers.paintBands bins layout true frame)) := by
  have hshown : (⟨some bins, some history⟩ : Data Rat).shownHistory =
      if history.isEmpty then none else some history := by
    cases h : history.isEmpty <;> simp [Data.shownHistory, h]
  rw [paint]
  dsimp only
  rw [hshown]
  cases history.isEmpty <;> rfl

theorem drawn_tracing : tracing.Drawn where
  plot params measure i dynamic :=
    kind.plot_layout { params with dynamic } ⟨some i.1, some i.2⟩ measure
  shows i layout range frame _ t ht hpath := by
    show ∃ d ∈ (paint ⟨some i.1, some i.2⟩ layout range frame).drawings.toList, _
    rw [paint_eq]
    change t ∈ if i.2.isEmpty then [] else traced i.2 i.1.binCount layout range at ht
    split at ht
    case isTrue => exact absurd ht List.not_mem_nil
    case isFalse hempty =>
      rw [if_neg hempty]
      rcases List.mem_pair.mp ht with rfl | rfl
      · exact Frame.exists_strokesFrom_pushLayer List.mem_cons_self hpath
      · exact Frame.exists_strokesFrom_pushLayer
          (List.mem_cons_of_mem _ List.mem_cons_self) hpath
  only i layout range frame _ := by
    have hbehind : (Carriers.paintBands i.1 layout true frame).All
        (tracing.Shown i layout range frame) := fun _ hd => .inl hd
    have harea : (Carriers.paintArea limits i.1 i.1.snr layout range
        (Carriers.paintBands i.1 layout true frame)).All
          (tracing.Shown i layout range frame) :=
      hbehind.pushFill (.inr fun _ hs => absurd hs List.not_mem_nil)
    show (paint ⟨some i.1, some i.2⟩ layout range frame).All _
    rw [paint_eq]
    split
    case isTrue => exact harea
    case isFalse hempty =>
      refine harea.pushLayer (.inr fun s hs => ?_)
      have htraces : tracing.traces i layout range = traced i.2 i.1.binCount layout range :=
        if_neg hempty
      rwa [htraces]

theorem follows_tracedOf {history : History Rat} {count : Nat} {layout : Layout Rat}
    {range : AxisRange Rat} (hrange : range.Rises) (hheight : 0 < layout.plot.height)
    {path : Path Rat} {color : Color Rat} {own other : Extremes Rat → List (Option Rat)}
    (hpath : path.vertices =
      ([history.snr.down, history.snr.up].flatMap fun s =>
      (StrokePlan.extremes (own s) (other s) (layout.strokeScale range count)).points
        s.least.length (max s.groupSize 1)).map
        (Trace.vertex 10 (layout.strokeScale range count).postScaleY)) :
    (tracedOf history count layout range path color own other).Follows layout.plot
      (layout.scaleX count) := by
  refine ⟨hpath, fun p => ?_, fun hone q hq => ?_⟩
  · rw [Traced.deviceY]
    show layout.plot.y + ((Transform.upright _ _ _ _).apply p.x p.y).y = _
    rw [Transform.apply_upright, Rect.bottom]
    ring
  · obtain ⟨s, _, hq⟩ := List.mem_flatMap.mp hq
    obtain ⟨i, hi⟩ := StrokePlan.exists_height_of_mem_points _ _ _ hq
    obtain ⟨hle, -, -⟩ := hrange.scaled_mem hheight ((Trace.sampleAt (own s) i).getD 0)
    have hy : q.y = max ((min range.top ((Trace.sampleAt (own s) i).getD 0) - range.bottom) *
      (layout.plot.height / range.span) - 0.5) 0 := hi
    have hhalf : q.y ≤ 1 / 2 := hy ▸ max_le (by linarith) (by norm_num)
    rw [abs_of_nonneg (hy ▸ le_max_right _ _)]
    exact hhalf

/-- One sample of the first group has all heights of the plot, on a fixed axis. -/
theorem exists_trace_at {height y : Rat} (hpos : 0 < height) (hlo : 0 ≤ y)
    (hhi : y ≤ height - 1 / 2) (count : Nat) :
    ∃ i : Bins Rat × History Rat, i.1.binCount = count ∧
      ∀ layout : Layout Rat, layout.plot.height = height →
        ∃ t ∈ tracing.traces i layout (kind.yAxis ⟨some i.1, some i.2⟩ false).range,
          ∃ q ∈ t.points, q.y = y := by
  let sample : Rat := (y + 1 / 2) * 65 / height
  have hlow : 0 ≤ sample := div_nonneg (by linarith) hpos.le
  have hhigh : sample ≤ 65 := (div_le_iff₀ hpos).mpr (by linarith)
  let history : History Rat := ⟨⟨1, [some sample], [some sample]⟩, .empty⟩
  let bins : Bins Rat := { Bins.empty with binCount := count }
  have hrange : (kind.yAxis ⟨some bins, some history⟩ false).range =
      (⟨0, 65⟩ : AxisRange Rat) := by
    show (⟨0.0, 65.0⟩ : AxisRange Rat) = _
    norm_num
  refine ⟨(bins, history), rfl, fun layout hlayout => ⟨_, List.mem_cons_self, ?_⟩⟩
  let plan := StrokePlan.extremes [some sample] [some sample]
    (layout.strokeScale (kind.yAxis ⟨some bins, some history⟩ false).range count)
  have hdrawn : plan.drawn 0 = true := by
    have hwindow : (decide (-32 ≤ sample) && decide (sample ≤ 95)) = true := by
      rw [decide_eq_true (by linarith), decide_eq_true (by linarith), Bool.and_self]
    show (true && ((decide (-32 ≤ sample) && decide (sample ≤ 95)) || _)) = true
    rw [hwindow]
    rfl
  obtain ⟨q, hq, hheight⟩ := plan.exists_mem_points 1 (max 1 1) Nat.one_pos hdrawn
  refine ⟨q, List.mem_flatMap.mpr ⟨history.snr.down, List.mem_cons_self, hq⟩,
    hheight.trans ?_⟩
  show max ((min (kind.yAxis ⟨some bins, some history⟩ false).range.top sample -
    (kind.yAxis ⟨some bins, some history⟩ false).range.bottom) *
      (layout.plot.height / (kind.yAxis ⟨some bins, some history⟩ false).range.span) - 0.5)
        0 = y
  rw [hrange, hlayout, AxisRange.span, min_eq_right hhigh]
  have hexpand : (sample - 0) * (height / (65 - 0)) = y + 1 / 2 := by
    show ((y + 1 / 2) * 65 / height - 0) * (height / (65 - 0)) = _
    field_simp
    ring
  rw [hexpand, max_eq_left (by linarith)]
  norm_num

theorem regular_tracing : tracing.Regular where
  toDrawn := drawn_tracing
  whole params := Layout.exists_height_eq params _ _
  follows i layout dynamic hplot _ t ht := by
    change t ∈ if i.2.isEmpty then [] else traced i.2 i.1.binCount layout
      (kind.yAxis ⟨some i.1, some i.2⟩ dynamic).range at ht
    split at ht
    case isTrue => exact absurd ht List.not_mem_nil
    case isFalse =>
      have hrange := rises_yAxis ⟨some i.1, some i.2⟩ dynamic
      have hheight := (Rect.isDegenerate_eq_false_iff.mp hplot).2
      obtain ⟨hlow, hhigh⟩ := vertices_extremesPaths i.2
        (layout.strokeScale (kind.yAxis ⟨some i.1, some i.2⟩ dynamic).range i.1.binCount)
      rcases List.mem_pair.mp ht with rfl | rfl
      · exact follows_tracedOf hrange hheight hlow
      · exact follows_tracedOf hrange hheight hhigh
  reaches height count hheight _ :=
    ⟨0, height - 1 / 2, by linarith,
      fun _ hlo hhi => exists_trace_at (by linarith) hlo hhi count⟩

end SignalToNoise

/-! ### Errors -/

namespace ErrorReport

/-- The trace of one counter. -/
def traced (log : ErrorLog) (layout : Layout Rat) (top : Rat) (trace : ReportTrace Rat) :
    Traced where
  stroke := strokeOf log layout top trace
  top := layout.plot.y
  points :=
    (StrokePlan.counts (log.counter trace.counter) (layout.plot.height / top) top).points
      (log.counter trace.counter).length 1

/-- A report as a chart with traces. -/
def tracing (report : ErrorReport Rat) : Tracing ErrorLog (Option ErrorLog) where
  kind := report.kind
  data := some
  count := ErrorLog.periodCount
  traces log layout range := report.traces.map (traced log layout range.top)
  behind _ _ frame := frame
  plot params := Layout.plotFor params 5.5 5.0

/-- A stroke that is put into a layer is there. -/
theorem exists_mem_blended {strokes : List (StrokedPath Rat)} {stroke : StrokedPath Rat}
    (h : stroke ∈ strokes) : ∃ blend, ⟨stroke, blend⟩ ∈ blended strokes := by
  cases strokes with
  | nil => exact absurd h List.not_mem_nil
  | cons first rest =>
    rcases List.mem_cons.mp h with rfl | h
    · exact ⟨.over, List.mem_cons_self⟩
    · exact ⟨.multiply, List.mem_cons_of_mem _ (List.mem_map.mpr ⟨stroke, h, rfl⟩)⟩

variable {report : ErrorReport Rat}

theorem drawn_tracing : report.tracing.Drawn where
  plot params measure log dynamic :=
    report.kind.plot_layout { params with dynamic } (some log) measure
  shows log layout range frame hcount t ht hpath := by
    obtain ⟨trace, htrace, rfl⟩ := List.mem_map.mp ht
    have hperiods : log.periodCount ≠ 0 := Nat.ne_of_gt hcount
    show ∃ d ∈ (report.paint log layout range frame).drawings.toList, _
    rw [paint, if_neg hperiods]
    obtain ⟨blend, hblend⟩ := exists_mem_blended
      (List.mem_map_of_mem (f := strokeOf log layout range.top) (List.mem_reverse.mpr htrace))
    exact Frame.exists_strokesFrom_pushLayer hblend hpath
  only log layout range frame hcount := by
    have hbehind : frame.All (report.tracing.Shown log layout range frame) :=
      fun _ hd => .inl hd
    have hshaded : (report.paintOutages log layout frame).All
        (report.tracing.Shown log layout range frame) :=
      hbehind.pushFill (.inr fun _ hs => absurd hs List.not_mem_nil)
    have hperiods : log.periodCount ≠ 0 := Nat.ne_of_gt hcount
    show (report.paint log layout range frame).All _
    rw [paint, if_neg hperiods]
    refine hshaded.pushLayer (.inr fun s hs => ?_)
    obtain ⟨stroke, hstroke, rfl⟩ := List.mem_map.mp hs
    obtain ⟨trace, htrace, heq⟩ := List.mem_map.mp (stroke_mem_of_mem_blended hstroke)
    rw [← heq]
    exact List.mem_map.mpr ⟨traced log layout range.top trace,
      List.mem_map_of_mem (List.mem_reverse.mp htrace), rfl⟩

/-- The greatest count of a log with one counter, which is that of the first trace. -/
theorem greatestCount_eq {trace : ReportTrace Rat} {rest : List (ReportTrace Rat)}
    (htraces : report.traces = trace :: rest) {log : ErrorLog} {counts : List (Option Nat)}
    (hseries : log.series = [(trace.counter, counts)]) {n : Nat} (hn : some n ∈ counts)
    (hle : ∀ m, some m ∈ counts → m ≤ n) : report.greatestCount (some log) = n := by
  have hcounter : log.counter trace.counter = counts := by
    rw [ErrorLog.counter, hseries, List.lookup_cons_self, Option.getD_some]
  have hothers (c : Counter) (m : Nat) (hm : some m ∈ log.counter c) : m ≤ n := by
    rw [ErrorLog.counter, hseries, List.lookup_cons] at hm
    split at hm
    · exact hle m hm
    · exact absurd hm List.not_mem_nil
  have hmax : ((report.samples log).flatMap (List.filterMap id)).max? = some n := by
    rw [List.max?_eq_some_iff]
    simp only [ErrorReport.samples, List.mem_flatMap, List.mem_map, List.mem_filterMap, id]
    constructor
    · exact ⟨counts, ⟨trace, htraces ▸ List.mem_cons_self, hcounter⟩, some n, hn, rfl⟩
    · rintro m ⟨_, ⟨other, _, rfl⟩, _, hm, rfl⟩
      exact hothers other.counter m hm
  show ((report.samples log).flatMap (List.filterMap id)).foldl max 0 = n
  rw [List.foldl_max, hmax, Option.getD_some, Nat.zero_max]

theorem follows_traced {log : ErrorLog} {layout : Layout Rat} {top : Rat} (htop : 0 < top)
    (hheight : 0 < layout.plot.height) (trace : ReportTrace Rat) :
    (traced log layout top trace).Follows layout.plot (layout.scaleX log.periodCount) := by
  refine ⟨?_, fun p => ?_, fun hone q hq => ?_⟩
  · have hfresh : (Path.withPrecision 1 : Path Rat).unit = 10 := Path.unit_tenths
    show (Trace.counts _ _ _ _ _).vertices = _
    rw [Trace.counts_eq_lines, ← Nat.cast_one,
      StrokePlan.vertices_draw_tenths _ _ _ le_rfl _ hfresh]
    exact List.nil_append _
  · rw [Traced.deviceY]
    show layout.plot.y +
      ((Transform.upright 0.0 layout.plot.height (layout.scaleX log.periodCount)
      (layout.scaleX log.periodCount)).apply p.x p.y).y = _
    rw [Transform.apply_upright, Rect.bottom]
    exact (add_sub_assoc _ _ _).symm
  · obtain ⟨i, hi⟩ := StrokePlan.exists_height_of_mem_points _ _ _ hq
    have hy : q.y = min top
        ((((log.counter trace.counter).getD i none).map fun n : Nat => (n : Rat)).getD 0) *
          (layout.plot.height / top) - 0.5 := hi
    have hcount : (0 : Rat) ≤
        (((log.counter trace.counter).getD i none).map fun n : Nat => (n : Rat)).getD 0 := by
      cases (log.counter trace.counter).getD i none <;> simp
    generalize (((log.counter trace.counter).getD i none).map fun n : Nat => (n : Rat)).getD
      0 = v at hcount hy
    have hscale : 0 < layout.plot.height / top := div_pos hheight htop
    have hlow := mul_nonneg (le_min htop.le hcount) hscale.le
    have hhigh := mul_le_mul_of_nonneg_right (min_le_left top v) hscale.le
    rw [mul_div_cancel₀ _ htop.ne'] at hhigh
    rw [hy, abs_le]
    constructor <;> linarith

/-- A log of two counts that have the ratio, each of them a multiple of 5. -/
def ratioLog (counter : Counter) (periods : Nat) (ratio : Rat) : ErrorLog :=
  ⟨periods, 900, none, [(counter, [some (5 * ratio.num.toNat), some (5 * ratio.den)])]⟩

theorem counter_ratioLog (counter : Counter) (periods : Nat) (ratio : Rat) :
    (ratioLog counter periods ratio).counter counter =
      [some (5 * ratio.num.toNat), some (5 * ratio.den)] := by
  rw [ErrorLog.counter, ratioLog, List.lookup_cons_self, Option.getD_some]

theorem cast_toNat_num {ratio : Rat} (h : 0 ≤ ratio) :
    (ratio.num.toNat : Rat) = ratio * ratio.den := by
  rw [Rat.mul_den_eq_num]
  exact_mod_cast Int.toNat_of_nonneg (Rat.num_nonneg.mpr h)

/-- The greater of both counts sets the axis. -/
theorem top_ratioLog {trace : ReportTrace Rat} {rest : List (ReportTrace Rat)}
    (htraces : report.traces = trace :: rest) (periods : Nat) {ratio : Rat} (h0 : 0 ≤ ratio)
    (h1 : ratio ≤ 1) :
    (report.kind.yAxis (some (ratioLog trace.counter periods ratio)) false).range.top =
      21 / 4 * (ratio.den : Rat) := by
  have hle : ratio.num.toNat ≤ ratio.den := by
    have hden : (0 : Rat) ≤ ratio.den := Nat.cast_nonneg _
    exact_mod_cast (cast_toNat_num h0).trans_le (mul_le_of_le_one_left hden h1)
  have hgreatest : report.greatestCount (some (ratioLog trace.counter periods ratio)) =
      5 * ratio.den := by
    refine greatestCount_eq htraces rfl (List.mem_cons_of_mem _ List.mem_cons_self)
      fun m hm => ?_
    simp only [List.mem_cons, Option.some.injEq, List.not_mem_nil, or_false] at hm
    omega
  have hmax : max (5 * ratio.den) minCount = 5 * ratio.den :=
    max_eq_left (Nat.le_mul_of_pos_right 5 ratio.den_pos)
  show (headroom : Rat) *
    ((max (report.greatestCount (some (ratioLog trace.counter periods ratio)))
      minCount : Nat) : Rat) = _
  rw [hgreatest, hmax, headroom]
  push_cast
  ring

/-- The lesser count has all heights below the headroom, since two counts
may have any ratio. -/
theorem exists_trace_at (htraces : report.traces ≠ []) {height y : Rat} (hpos : 0 < height)
    (hlo : -1 / 2 ≤ y) (hhi : y ≤ height * 20 / 21 - 1 / 2) (count : Nat) :
    ∃ log : ErrorLog, log.periodCount = count ∧
      ∀ layout : Layout Rat, layout.plot.height = height →
      ∃ t ∈ report.tracing.traces log layout (report.kind.yAxis (some log) false).range,
        ∃ q ∈ t.points, q.y = y := by
  obtain ⟨trace, rest, htraces⟩ := List.exists_cons_of_ne_nil htraces
  let ratio : Rat := (y + 1 / 2) * 21 / 20 / height
  have h0 : 0 ≤ ratio := div_nonneg (by linarith) hpos.le
  have h1 : ratio ≤ 1 := (div_le_iff₀ hpos).mpr (by linarith)
  let log := ratioLog trace.counter count ratio
  have hcounter : log.counter trace.counter = _ := counter_ratioLog trace.counter count ratio
  refine ⟨log, rfl, fun layout hlayout =>
    ⟨_, List.mem_map_of_mem (htraces ▸ List.mem_cons_self), ?_⟩⟩
  let plan := StrokePlan.counts (log.counter trace.counter)
    (layout.plot.height / (report.kind.yAxis (some log) false).range.top)
    (report.kind.yAxis (some log) false).range.top
  have hdrawn : plan.drawn 0 = true := by
    show ((log.counter trace.counter).getD 0 none).isSome = true
    rw [hcounter]
    rfl
  have hlength : 0 < (log.counter trace.counter).length := hcounter ▸ Nat.two_pos
  obtain ⟨q, hq, hheight⟩ := plan.exists_mem_points _ 1 hlength hdrawn
  refine ⟨q, hq, hheight.trans ?_⟩
  show min (report.kind.yAxis (some log) false).range.top
    ((((log.counter trace.counter).getD 0 none).map fun n : Nat => (n : Rat)).getD 0) *
      (layout.plot.height / (report.kind.yAxis (some log) false).range.top) - 0.5 = y
  rw [hcounter, top_ratioLog htraces count h0 h1, hlayout]
  show min (21 / 4 * (ratio.den : Rat)) ((5 * ratio.num.toNat : Nat) : Rat) *
    (height / (21 / 4 * (ratio.den : Rat))) - 0.5 = y
  have hden : (1 : Rat) ≤ ratio.den := Nat.one_le_cast.mpr ratio.den_pos
  have hle : ratio * ratio.den ≤ ratio.den := mul_le_of_le_one_left (by linarith) h1
  have hvalue : ratio * height = (y + 1 / 2) * 21 / 20 := div_mul_cancel₀ _ hpos.ne'
  rw [Nat.cast_mul, cast_toNat_num h0, Nat.cast_ofNat, min_eq_right (by linarith)]
  have hexpand :
      5 * (ratio * ratio.den) * (height / (21 / 4 * (ratio.den : Rat))) = y + 1 / 2 :=
    calc 5 * (ratio * ratio.den) * (height / (21 / 4 * (ratio.den : Rat)))
        = ratio * height * (20 / 21) := by field_simp; ring
      _ = y + 1 / 2 := by rw [hvalue]; ring
  rw [hexpand]
  norm_num

theorem regular_tracing (htraces : report.traces ≠ []) : report.tracing.Regular where
  toDrawn := drawn_tracing
  whole params := Layout.exists_height_eq params _ _
  follows log layout dynamic hplot _ t ht := by
    obtain ⟨trace, -, rfl⟩ := List.mem_map.mp ht
    exact follows_traced (report.risesFromZero_yAxis (some log) dynamic).top_pos
      (Rect.isDegenerate_eq_false_iff.mp hplot).2 trace
  reaches height count hheight _ :=
    ⟨-1 / 2, height * 20 / 21 - 1 / 2, by linarith,
      fun _ hlo hhi => exists_trace_at htraces (by linarith) hlo hhi count⟩

end ErrorReport

/-! ### All kinds -/

/-- **Stroked traces are within half a pixel of the heights of their samples just where there
are at most 10 pixels for a carrier or period**, or the plot is one pixel high: the channel
characteristic, the extremes of the signal-to-noise ratio, and the counters of each report. -/
theorem Chart.sharp_traces (params : Params Rat) (measure : TextMeasure Rat) {count : Nat}
    (hcount : 1 ≤ count) :
    (Characteristic.tracing.Drawn ∧ Characteristic.tracing.Sharp params measure count) ∧
    (SignalToNoise.tracing.Drawn ∧ SignalToNoise.tracing.Sharp params measure count) ∧
    ∀ report : ErrorReport Rat, report.traces ≠ [] →
      report.tracing.Drawn ∧ report.tracing.Sharp params measure count := by
  refine ⟨⟨Characteristic.drawn_tracing,
    Characteristic.regular_tracing.sharp params measure hcount⟩,
    ⟨SignalToNoise.drawn_tracing, SignalToNoise.regular_tracing.sharp params measure hcount⟩,
    fun report htraces => ?_⟩
  exact ⟨ErrorReport.drawn_tracing,
    (ErrorReport.regular_tracing htraces).sharp params measure hcount⟩

/-- On the default surface, a day in quarters of an hour is within half a pixel,
whatever the counts. -/
theorem Chart.sharp_traces_day :
    let report : ErrorReport Rat := .errors .down
    1 ≤ 96 ∧ report.traces ≠ [] ∧ (report.tracing.plot .default).isDegenerate = false ∧
      ∀ log : ErrorLog, log.periodCount = 96 →
        report.tracing.SubPixel .default approximateWidth log := by
  intro report
  have htraces : report.traces ≠ [] := List.cons_ne_nil _ _
  have hplot : (report.tracing.plot .default).isDegenerate = false := by decide +kernel
  have hwidth : (report.tracing.plot .default).width ≤ 10 * (96 : Nat) := by decide +kernel
  have hcount : 1 ≤ 96 := by decide
  obtain ⟨-, hsharp⟩ := (sharp_traces .default approximateWidth hcount).2.2 report htraces
  exact ⟨hcount, htraces, hplot, (hsharp hplot).mpr (.inl hwidth)⟩

/-- An hour in quarters is not: on the default surface, the first of the counts 1, 2, 5 and 3
is drawn more than four pixels too low. -/
theorem Chart.not_subPixel_hour :
    let report : ErrorReport Rat := .errors .down
    let log : ErrorLog :=
      ⟨4, 900, none, [(⟨.corrected, .down⟩, [some 1, some 2, some 5, some 3])]⟩
    1 ≤ log.periodCount ∧ (report.tracing.plot .default).isDegenerate = false ∧
      ¬ report.tracing.SubPixel .default approximateWidth log := by
  intro report log
  have hplot : (report.tracing.plot .default).isDegenerate = false := by decide +kernel
  refine ⟨by decide, hplot, fun h => ?_⟩
  let layout := report.kind.layout .default (some log) approximateWidth
  let plan := StrokePlan.counts [some 1, some 2, some 5, some 3]
    (layout.plot.height / (report.kind.yAxis (some log) false).range.top)
    (report.kind.yAxis (some log) false).range.top
  obtain ⟨q, hq, hheight⟩ := plan.exists_mem_points 4 1 (by decide) rfl
  have hregular := @ErrorReport.regular_tracing report (List.cons_ne_nil _ _)
  have hplace := hregular.plot .default approximateWidth log false
  have hmem : ErrorReport.traced log layout (report.kind.yAxis (some log) false).range.top
      ⟨⟨.corrected, .down⟩, "Corrected (FEC)", Palette.blue⟩ ∈
        report.tracing.traces log layout (report.kind.yAxis (some log) false).range :=
          List.mem_cons_self
  have hfollows := hregular.follows log layout false (hplace.symm ▸ hplot) (by decide) _ hmem
  have hnear := hfollows.subPixel_iff.mp (hplace ▸ h false _ hmem) q hq
  rw [hheight] at hnear
  have hfar : ¬ |layout.scaleX 4 * Path.roundTo 10 (plan.height 0 * (1.0 / layout.scaleX 4)) -
      plan.height 0| ≤ 4 := by
    decide +kernel
  exact hfar (le_trans hnear (by norm_num))

end LineCharts
