/-
The legend of the signal-to-noise chart against the traces of its history.

* `Extremes.isMeasured` — a sample of the extremes can be measured, in a
  group that has a least one;
* `Trace.isEmpty_extremes` — the traces of extremes are empty just if no sample is measured;
* `SignalToNoise.Data.isTraced` — there is a snapshot, and a history with a measured sample;
* `SignalToNoise.layers_paint` — the chart has the layer of its history just
  if the data is traced;
* `SignalToNoise.names_iff` — its texts name the extremes just if there is a
  history that has samples;
* `SignalToNoise.legend_agrees_iff` — after any calls, the names and the layer stand and fall
  together just if such a history is traced.

Design notes.  What is traced is looked at for each frame, what is named when data comes in.
No label of an axis is taken for a name: neither has an `M`.
-/
import LineCharts.Chart.SignalToNoise
import LineCharts.Proofs.Chart.Kinds
import LineCharts.Proofs.Chart.Parts
import LineCharts.Proofs.Decimal.Exact

namespace LineCharts

open Trace (measurable pairUp nextExtremes extremes Stroke StrokeScale)

/-! ### Empty traces -/

section

variable {α : Type} [Scalar α]

/-- A least or a greatest sample can be measured.  Behind the last least sample
there are no groups. -/
def Extremes.isMeasured (e : Extremes α) : Bool :=
  (pairUp e.least e.greatest).any fun pair => measurable pair.1 || measurable pair.2

theorem Path.isEmpty_moveTo (path : Path α) (x y : α) :
    (path.moveTo x y).isEmpty = false := by
  rw [isEmpty, moveTo]
  exact Array.isEmpty_push

theorem Path.isEmpty_lineTo {path : Path α} (h : path.isEmpty = false) (x y : α) :
    (path.lineTo x y).isEmpty = false := by
  rw [lineTo]
  split
  · exact h
  · exact Array.isEmpty_push

namespace Trace

namespace Stroke

/-- A segment that is open is in the path. -/
def Begun (s : Stroke α) : Prop := s.inside = true → s.path.isEmpty = false

variable {s : Stroke α}

/-- **A trace stays empty just while no sample is drawn.** -/
theorem Begun.next (h : s.Begun) (sample y? : Option α) (index : Nat) :
    (s.next sample y? false index).Begun ∧
      (s.next sample y? false index).path.isEmpty = (s.path.isEmpty && y?.isNone) := by
  cases hin : s.inside with
  | true =>
    have hpath := h hin
    rw [hpath, Bool.false_and]
    cases y? with
    | none =>
      rw [Stroke.next, hin]
      exact ⟨nofun, Path.isEmpty_lineTo hpath _ _⟩
    | some y =>
      -- the trace goes on: from its last centre, or not at all
      have hnext : (s.next sample (some y) false index).path.isEmpty = false := by
        rw [Stroke.next, hin]
        dsimp only
        split
        · refine Path.isEmpty_lineTo ?_ _ _
          split
          · exact hpath
          · exact Path.isEmpty_lineTo hpath _ _
        · exact hpath
      exact ⟨fun _ => hnext, hnext⟩
  | false =>
    cases y? with
    | none =>
      rw [Stroke.next, hin]
      exact ⟨nofun, (Bool.and_true _).symm⟩
    | some y =>
      have hnext : (s.next sample (some y) false index).path.isEmpty = false := by
        rw [Stroke.next, hin]
        dsimp only
        split
        · exact Path.isEmpty_moveTo _ _ _
        · exact Path.isEmpty_moveTo _ _ _
      exact ⟨fun _ => hnext, hnext.trans (Bool.and_false _).symm⟩

theorem Begun.isEmpty_finish (h : s.Begun) (count : Nat) :
    (s.finish count).isEmpty = s.path.isEmpty := by
  rw [finish]
  split
  case isTrue hin => rw [h hin, Path.isEmpty_lineTo (h hin)]
  case isFalse => rfl

end Stroke

/-- A sample is drawn just of a group that is measured. -/
theorem isNone_heights (scale : StrokeScale α) (least greatest : Option α) :
    let drawn := measurable least || measurable greatest
    (((least.filter fun _ => drawn).map (extremeHeight scale)).isNone &&
      ((greatest.filter fun _ => drawn).map (extremeHeight scale)).isNone) = !drawn := by
  intro drawn
  cases hdrawn : drawn with
  | false => simp
  | true =>
    have hthere {sample : Option α} (h : measurable sample = true) :
        sample.isNone = false := by
      cases sample with
      | none => exact absurd h Bool.false_ne_true
      | some => rfl
    have hkeep (sample : Option α) : (sample.filter fun _ => true) = sample := by
      cases sample <;> rfl
    rw [Option.isNone_map, Option.isNone_map, hkeep, hkeep, Bool.not_true]
    rcases Bool.or_eq_true_iff.mp hdrawn with h | h
    · rw [hthere h, Bool.false_and]
    · rw [hthere h, Bool.and_false]

/-- Both traces stay empty just while no sample of their groups is measured. -/
theorem foldl_nextExtremes (scale : StrokeScale α)
    (groups : List ((Option α × Option α) × Nat)) {low high : Stroke α} (hlow : low.Begun)
    (hhigh : high.Begun) :
    let drawn := groups.foldl (fun (s : Stroke α × Stroke α) group =>
      nextExtremes scale s.1 s.2 group.1 group.2) (low, high)
    (drawn.1.Begun ∧ drawn.2.Begun) ∧
      (drawn.1.path.isEmpty && drawn.2.path.isEmpty) =
        ((low.path.isEmpty && high.path.isEmpty) && !(groups.map Prod.fst).any fun pair =>
        measurable pair.1 || measurable pair.2) := by
  induction groups generalizing low high with
  | nil => exact ⟨⟨hlow, hhigh⟩, (Bool.and_true _).symm⟩
  | cons group groups ih =>
    obtain ⟨⟨least, greatest⟩, index⟩ := group
    let height (sample : Option α) : Option α :=
      (sample.filter fun _ => measurable least || measurable greatest).map
        (extremeHeight scale)
    obtain ⟨hlow', hlowPath⟩ := hlow.next least (height least) index
    obtain ⟨hhigh', hhighPath⟩ := hhigh.next greatest (height greatest) index
    have hgroup : ((height least).isNone && (height greatest).isNone) = _ :=
      isNone_heights scale least greatest
    obtain ⟨hbegun, hpaths⟩ := ih hlow' hhigh'
    refine ⟨hbegun, hpaths.trans ?_⟩
    rw [hlowPath, hhighPath, List.map_cons, List.any_cons, Bool.not_or, ← hgroup]
    simp only [Bool.and_assoc, Bool.and_left_comm]

/-- **The traces of extremes are empty just if no sample is measured**, apart from what
the paths held before. -/
theorem isEmpty_extremes (low high : Path α) (series : Extremes α) (scale : StrokeScale α) :
    ((extremes low high series scale).1.isEmpty &&
      (extremes low high series scale).2.isEmpty) =
      ((low.isEmpty && high.isEmpty) && !series.isMeasured) := by
  let start (path : Path α) : Stroke α :=
    .start path (groupWidth series.groupSize) scale.postScaleY (some 0.0)
  have hstart (path : Path α) : (start path).Begun := nofun
  obtain ⟨⟨hlow, hhigh⟩, hpaths⟩ :=
    foldl_nextExtremes scale (pairUp series.least series.greatest).zipIdx
      (hstart low) (hstart high)
  rw [List.zipIdx_map_fst] at hpaths
  exact (congrArg₂ _ (hlow.isEmpty_finish _) (hhigh.isEmpty_finish _)).trans hpaths

end Trace

end

/-! ### Layers -/

namespace SignalToNoise

section

variable {α : Type} [Scalar α]

/-- There is a snapshot, and a history with a measured sample. -/
def Data.isTraced (data : Data α) : Bool :=
  data.bins.isSome && data.shownHistory.any fun history =>
    history.snr.down.isMeasured || history.snr.up.isMeasured

/-- What is traced is a history that has samples. -/
theorem Data.isSome_of_isTraced {data : Data α} (h : data.isTraced = true) :
    data.shownHistory.isSome = true := by
  cases hshown : data.shownHistory with
  | none =>
    rw [isTraced, hshown, Option.any_none, Bool.and_false] at h
    exact absurd h Bool.false_ne_true
  | some => rfl

theorem isEmpty_extremesPaths (history : History α) (scale : StrokeScale α) :
    ((extremesPaths history scale).1.isEmpty && (extremesPaths history scale).2.isEmpty) =
      !(history.snr.down.isMeasured || history.snr.up.isMeasured) := by
  rw [extremesPaths, Trace.isEmpty_extremes, Trace.isEmpty_extremes, Bool.not_or]
  rfl

/-- Behind the history there are fills and strokes only. -/
theorem select_paintArea {β : Type} {pick : Drawing α → Option β}
    (hfill : ∀ d, pick (.fill d) = none) (hstroke : ∀ d, pick (.stroke d) = none)
    (bins : Bins α) (layout : Layout α) (range : AxisRange α) (frame : Frame α) :
    (Carriers.paintArea limits bins bins.snr layout range
      (Carriers.paintBands bins layout true frame)).select pick = frame.select pick := by
  rw [Carriers.paintArea, Frame.select_pushFill _ hfill, Carriers.paintBands,
    BandShades.paint]
  rw [Frame.select_pushStroke _ hstroke, Frame.select_pushFill _ hfill,
    Frame.select_pushFill _ hfill]

/-- The layer of a history is there just if a sample is measured. -/
theorem layers_paintHistory (history : History α) (binCount : Nat) (layout : Layout α)
    (range : AxisRange α) {frame : Frame α} (hframe : frame.layers = []) :
    (paintHistory history binCount layout range frame).layers ≠ [] ↔
      (history.snr.down.isMeasured || history.snr.up.isMeasured) = true := by
  rw [paintHistory]
  dsimp only
  rw [Frame.layers_pushLayer, hframe, List.nil_append, Ne, List.filter_eq_nil_iff]
  simp only [List.mem_singleton, forall_eq, List.all_cons, List.all_nil, Bool.and_true,
    isEmpty_extremesPaths, Bool.not_not]
  exact not_not

/-- **The layer of the history is there just if the data is traced.** -/
theorem layers_paint (data : Data α) (layout : Layout α) (range : AxisRange α)
    {frame : Frame α} (hframe : frame.layers = []) :
    (paint data layout range frame).layers ≠ [] ↔ data.isTraced = true := by
  rw [paint, Data.isTraced]
  cases data.bins with
  | none => exact iff_of_false (not_not.mpr hframe) Bool.false_ne_true
  | some bins =>
    have hbehind : (Carriers.paintArea limits bins bins.snr layout range
        (Carriers.paintBands bins layout true frame)).layers = [] :=
      (select_paintArea (fun _ => rfl) (fun _ => rfl) bins layout range frame).trans hframe
    cases data.shownHistory with
    | none => exact iff_of_false (not_not.mpr hbehind) Bool.false_ne_true
    | some history => exact layers_paintHistory history bins.binCount layout range hbehind

/-- The data adds no texts. -/
theorem texts_paint (data : Data α) (layout : Layout α) (range : AxisRange α)
    (frame : Frame α) :
    (paint data layout range frame).texts = frame.texts := by
  rw [paint]
  cases data.bins with
  | none => rfl
  | some bins =>
    have hbehind : (Carriers.paintArea limits bins bins.snr layout range
        (Carriers.paintBands bins layout true frame)).texts = frame.texts :=
      select_paintArea (fun _ => rfl) (fun _ => rfl) bins layout range frame
    cases data.shownHistory with
    | none => exact hbehind
    | some history => exact (Frame.select_pushLayer _ (fun _ => rfl) _).trans hbehind

end

/-! ### Names -/

/-- No number is written with an `M`, also none that is not finite. -/
theorem notMem_places (places : Nat) (x : Float) : 'M' ∉ (Double.places places x).toList := by
  rw [Double.places, Double.written]
  split
  · decide
  · split
    · split <;> decide
    · intro h
      rcases Decimal.mem_plain h with h | h | h
      · exact absurd h (by decide)
      · exact absurd h (by decide)
      · exact absurd h (by decide)

theorem notMem_toString (n : Int) : 'M' ∉ (toString n).toList := by
  have hnat (k : Nat) : 'M' ∉ (Nat.repr k).toList := by
    rw [Nat.repr, String.toList_ofList]
    exact fun h => absurd (Decimal.isDigit_of_mem_toDigits h) (by decide)
  cases n with
  | ofNat k => exact hnat k
  | negSucc k =>
    show 'M' ∉ ("-" ++ Nat.repr (k + 1)).toList
    rw [String.toList_append, List.mem_append, not_or]
    exact ⟨by decide, hnat (k + 1)⟩

/-- The labels of both axes have no `M`. -/
theorem notMem_text {format : LabelFormat} (h : format = .frequency ∨ format = .integer)
    (value step last : Int) :
    'M' ∉ (format.text Float value step last).toList := by
  rcases h with rfl | rfl
  · rw [LabelFormat.text, LabelFormat.frequencyText]
    split
    · exact notMem_places _ _
    · exact notMem_places _ _
  · exact notMem_toString value

/-- The texts on the frame of the chart are the labels of its axes and those of its legend. -/
theorem texts_drawn {layout : Layout Float} (hplot : layout.plot.isDegenerate = false)
    (data : Data Float) (range : AxisRange Float) :
    (layout.drawn (paint data) range).texts.map Label.text =
      layout.labels.map Label.text ++ Legend.texts layout.legend := by
  have hlabels : (layout.labels.map Drawing.text).filterMap Drawing.text? =
      layout.labels := by
    rw [List.filterMap_map]
    exact List.filterMap_some
  have hpaint :
      (paint data layout range (layout.paintBackground (.empty layout.viewport))).select
      Drawing.text? = [] :=
    (texts_paint data layout range _).trans
      (layout.select_paintBackground (fun _ => rfl) fun _ => rfl)
  rw [Frame.texts_eq, Layout.select_drawn (fun _ => rfl) hplot, hpaint, hlabels,
    List.nil_append, List.map_append]
  rfl

section

variable {params : Params Float} {xAxis yAxis : AxisPlan Float} {measure : TextMeasure Float}

theorem notMem_labels (hx : xAxis.format = .frequency) (hy : yAxis.format = .integer)
    (legend : Option (Legend Float)) {text : String}
    (htext : text ∈
      (Layout.compute params xAxis yAxis legend measure).labels.map Label.text) :
    'M' ∉ text.toList := by
  let layout := Layout.compute params xAxis yAxis legend measure
  have hlabels : layout.labels =
      Layout.xLabels layout.metrics layout.plot layout.palette.text xAxis layout.stepX ++
      Layout.yLabels layout.metrics layout.plot layout.palette.text yAxis
        (max layout.stepY 1) := rfl
  rw [hlabels, List.map_append, Layout.xLabels, Layout.yLabels, List.map_map, List.map_map,
    List.mem_append, List.mem_map, List.mem_map] at htext
  rcases htext with ⟨value, -, rfl⟩ | ⟨value, -, rfl⟩
  · exact notMem_text (.inl hx) _ _ _
  · exact notMem_text (.inr hy) _ _ _

/-- The legend has the names just if it is told so. -/
theorem mem_texts_legend (shown : Bool) (strip : LegendStrip Float) {name : String}
    (hname : name ∈ ["Minimum", "Maximum"]) :
    name ∈ Legend.texts ((legend shown).layout strip measure) ↔ shown = true := by
  have htitle : name ∉ if 0.0 < Legend.titleWidth (legend shown) strip measure then
      [(legend shown : Legend Float).title] else [] := by
    intro h
    split at h
    · have hother : "Signal-to-noise ratio (dB)" ∉ ["Minimum", "Maximum"] := by decide
      obtain rfl := List.mem_singleton.mp h
      exact hother hname
    · exact List.not_mem_nil h
  rw [Legend.texts_layout, List.mem_append, or_iff_right htitle]
  cases shown with
  | true => exact iff_of_true hname rfl
  | false => exact iff_of_false List.not_mem_nil Bool.false_ne_true

/-- **The extremes are named just if the legend is told so**, on every plot with an area. -/
theorem names_iff (hlegend : params.legend = true) (hx : xAxis.format = .frequency)
    (hy : yAxis.format = .integer) {shown : Bool}
    (hplot : (Layout.compute params xAxis yAxis (some (legend shown))
      measure).plot.isDegenerate = false)
    (data : Data Float) (range : AxisRange Float) {name : String}
    (hname : name ∈ ["Minimum", "Maximum"]) :
    name ∈ ((Layout.compute params xAxis yAxis (some (legend shown)) measure).drawn
      (paint data) range).texts.map Label.text ↔ shown = true := by
  obtain ⟨strip, hstrip⟩ :
      ∃ strip, (Layout.compute params xAxis yAxis (some (legend shown)) measure).legend =
      (legend shown).layout strip measure := ⟨_, if_pos hlegend⟩
  have hlabels :
      name ∉ (Layout.compute params xAxis yAxis (some (legend shown)) measure).labels.map
      Label.text := by
    intro h
    have hletter : 'M' ∈ name.toList := by
      simp only [List.mem_cons, List.not_mem_nil, or_false] at hname
      rcases hname with rfl | rfl <;> decide
    exact notMem_labels hx hy _ h hletter
  rw [texts_drawn hplot, List.mem_append, or_iff_right hlabels, hstrip]
  exact mem_texts_legend shown strip hname

end

/-! ### Any calls -/

open Chart (Call)

/-- **A chart that is current names the extremes and draws their traces by its data.** -/
theorem names_layers_of_current {chart : Chart kind} {measure : TextMeasure Float}
    {params : Params Float} {data : Data Float}
    (h : chart.Current (fun _ => True) measure params data)
    (hpixels : params.viewport.isValid = true) (hlegend : params.legend = true)
    (hplot : ∀ layout ∈ (chart.frame measure).1.sheet.layout,
      layout.plot.isDegenerate = false) :
    (∀ name ∈ ["Minimum", "Maximum"],
        (name ∈ (chart.frame measure).2.texts.map Label.text ↔
          data.shownHistory.isSome = true)) ∧
      ((chart.frame measure).2.layers ≠ [] ↔ data.isTraced = true) := by
  -- the frame is drawn on a new layout, or on one that is the same
  have hvalid : chart.sheet.params.viewport.isValid = true := by
    rw [Params.viewport, h.params.width, h.params.height]
    exact hpixels
  have hshown : chart.sheet.params.legend = true := h.params.legend.trans hlegend
  have hlayout : chart.sheet.freshLayout measure =
      .compute chart.sheet.params chart.sheet.xAxis chart.sheet.yAxis
      (some (legend data.shownHistory.isSome)) measure := by
    rw [Sheet.freshLayout, if_pos hshown, h.legend]
    rfl
  have hframe : (chart.frame measure).2 =
      (chart.sheet.freshLayout measure).drawn (paint data) chart.sheet.yAxis.range := by
    rw [Chart.frame_snd h.kept, if_pos hvalid, h.data]
    rfl
  have harea : (chart.sheet.freshLayout measure).plot.isDegenerate = false := by
    refine hplot _ ?_
    rw [Chart.frame_fst]
    exact (h.kept.layout_ensureLayout hvalid).2
  have hx : chart.sheet.xAxis.format = .frequency := by
    obtain ⟨d, hd⟩ := h.kept.xAxis
    exact congrArg AxisPlan.format hd
  have hy : chart.sheet.yAxis.format = .integer := congrArg AxisPlan.format h.yAxis
  rw [hframe]
  rw [hlayout] at harea ⊢
  refine ⟨fun name hname => names_iff hshown hx hy harea data _ hname, ?_⟩
  rw [Frame.layers_eq, Layout.select_drawn_of_none (fun _ => rfl) (fun _ => rfl)
    (fun _ => rfl) harea fun _ => Layout.exists_of_mem_legend_compute]
  exact layers_paint data _ _ (Layout.select_paintBackground (fun _ => rfl) (fun _ => rfl) _)

/-- **The names of the extremes stand with the layer of their traces** just if a history that
has samples is traced.  The names are there for such a history, whatever the calls before; for
the layer there must be a snapshot, and a sample that is measured. -/
theorem legend_agrees_iff (measure : TextMeasure Float) (params : Params Float)
    (data : Data Float) (calls : List (Call (Data Float))) :
    let last := calls.foldl Call.latest (params, data)
    let drawn := ((Chart.new kind params data).run measure calls).frame measure
    let texts := drawn.2.texts.map Label.text
    last.1.viewport.isValid = true → last.1.legend = true →
    (∀ layout ∈ drawn.1.sheet.layout, layout.plot.isDegenerate = false) →
      (∀ name ∈ ["Minimum", "Maximum"], (name ∈ texts ↔ last.2.shownHistory.isSome = true)) ∧
      (drawn.2.layers ≠ [] ↔ last.2.isTraced = true) ∧
      ((∀ name ∈ ["Minimum", "Maximum"], (name ∈ texts ↔ drawn.2.layers ≠ [])) ↔
        (last.2.shownHistory.isSome = true → last.2.isTraced = true)) := by
  intro last drawn texts hpixels hlegend hplot
  have hcurrent : ((Chart.new kind params data).run measure calls).Current (fun _ => True)
      measure last.1 last.2 := by
    refine (Chart.current_new measure steady params trivial).run steady fun call _ => ?_
    cases call <;> trivial
  obtain ⟨hnames, hlayers⟩ := names_layers_of_current hcurrent hpixels hlegend hplot
  refine ⟨hnames, hlayers, ?_⟩
  constructor
  · intro hagree hshown
    have hname : "Minimum" ∈ ["Minimum", "Maximum"] := by decide
    exact hlayers.mp ((hagree _ hname).mp ((hnames _ hname).mpr hshown))
  · intro htraced name hname
    rw [hnames name hname, hlayers]
    exact ⟨htraced, Data.isSome_of_isTraced⟩

/-- A snapshot and a history come in between two frames, and the legend is shown. -/
theorem legend_agrees_iff_later :
    let bins : Bins Float := { Bins.empty with binCount := 3, carrierSpacing := 4.3125 }
    let history : History Float := ⟨⟨⟨1, [none, some 12.5], [none, some 30.0]⟩, ⟨1, [], []⟩⟩⟩
    let calls : List (Call (Data Float)) :=
      [.frame, .setData ⟨some bins, some history⟩, .frame, .setParams .withLegend]
    let frame :=
      (((Chart.new kind .default ⟨none, none⟩).run approximateWidth calls).frame
        approximateWidth).2
    "Maximum" ∈ frame.texts.map Label.text ∧ frame.layers ≠ [] := by
  intro bins history calls frame
  have hplot :
      ∀ layout ∈ (((Chart.new kind .default ⟨none, none⟩).run approximateWidth calls).frame
      approximateWidth).1.sheet.layout, layout.plot.isDegenerate = false := by
    decide +kernel
  obtain ⟨hnames, hlayers, -⟩ :=
    legend_agrees_iff approximateWidth .default ⟨none, none⟩ calls (by decide)
      (by decide) hplot
  exact ⟨(hnames "Maximum" (by decide)).mpr (by decide), hlayers.mpr (by decide +kernel)⟩

/-- The greatest samples alone are named, but not traced. -/
theorem named_not_traced :
    let bins : Bins Float :=
      { Bins.empty with
        binCount := 3, snr := ⟨⟨1, [some 30.0, some 30.0, some 30.0]⟩, .empty⟩ }
    let history : History Float := ⟨⟨⟨1, [], [some 30.0]⟩, ⟨1, [], []⟩⟩⟩
    let drawn := (Chart.new kind .withLegend ⟨some bins, some history⟩).frame approximateWidth
    (drawn.1.sheet.layout.any fun layout => !layout.plot.isDegenerate) = true ∧
      (∀ name ∈ ["Minimum", "Maximum"], name ∈ drawn.2.texts.map Label.text) ∧
        drawn.2.layers = [] := by
  decide +kernel

end SignalToNoise

end LineCharts
