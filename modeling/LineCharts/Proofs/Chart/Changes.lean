/-
Charts through all that is changed between two frames.

* `Chart.Change` is something that happens to a chart, `Chart.after` the chart
  behind a sequence of them;
* `Chart.frame_eq` — on a surface with pixels, a frame is what `Layout.drawn` makes of the
  layout that is kept, or of a new one;
* `Chart.Sound` — parameters, legend and layout can be drawn, and the range of the
  vertical axis is of use;
* `Chart.Sound.after` — new charts are sound, and every change keeps them so;
* `Chart.Sound.check_frame` — the frame of a sound chart passes its check.

Design notes.  The layout of a sheet is kept or dropped; so it is enough that each new
one is valid.  Which ranges are of use depends on the kind: a range is divided by its
span, or by its top alone.
-/
import LineCharts.Chart.Basic
import LineCharts.Proofs.Layout.Valid

namespace LineCharts

variable {α δ : Type}

/-! ### Changes -/

namespace Chart

/-- What happens to a chart with data of the type `δ`. -/
inductive Change (α δ : Type) where
  | params (p : Params α)
  | data (d : δ)
  /-- A frame is drawn. -/
  | frame

section

variable [Scalar α] {kind : ChartKind α δ}

/-- The chart behind one change. -/
def change (measure : TextMeasure α) (chart : Chart kind) : Change α δ → Chart kind
  | .params p => chart.setParams p
  | .data d => chart.setData d
  | .frame => (chart.frame measure).1

/-- The chart behind some changes. -/
def after (measure : TextMeasure α) (chart : Chart kind) (changes : List (Change α δ)) :
    Chart kind :=
  changes.foldl (change measure) chart

variable (kind) in
/-- The next frame of a new chart, behind some changes. -/
def frameAfter (measure : TextMeasure α) (params : Params α) (data : δ)
    (changes : List (Change α δ)) : Frame α :=
  (((Chart.new kind params data).after measure changes).frame measure).2

end

end Chart

/-- A frame on a layout: what is behind the data, the data where the plot has an area, and
what is on top of it. -/
def Layout.drawn [Scalar α] (layout : Layout α)
    (paint : Layout α → AxisRange α → Frame α → Frame α) (range : AxisRange α) : Frame α :=
  let behind := layout.paintBackground (.empty layout.viewport)
  layout.paintAxes (if layout.plot.isDegenerate then behind else paint layout range behind)

theorem Chart.frame_eq [Scalar α] {kind : ChartKind α δ} {chart : Chart kind}
    (h : chart.sheet.params.viewport.isValid = true) (measure : TextMeasure α) :
    chart.frame measure =
      (⟨{ chart.sheet with
          layout := some (chart.sheet.layout.getD (chart.sheet.freshLayout measure))
          generation := chart.sheet.generation + if chart.sheet.isStale then 1 else 0 },
            chart.data⟩,
        (chart.sheet.layout.getD (chart.sheet.freshLayout measure)).drawn
          (kind.paint chart.data) chart.sheet.yAxis.range) := by
  rcases chart with ⟨⟨params, shape, xAxis, yAxis, legend, layout, generation⟩, data⟩
  rw [frame, Sheet.beginFrame, Sheet.ensureLayout, h]
  cases layout <;> rfl

/-! ### Sound charts -/

/-- All legends have colours in range, and what is painted on a valid layout
keeps a frame valid. -/
structure ChartKind.Drawable (kind : ChartKind Rat δ) : Prop where
  legend : ∀ d, (kind.legend d).InRange
  paint : ∀ d {layout : Layout Rat} (range : AxisRange Rat) {frame : Frame Rat},
    layout.Valid → layout.plot.isDegenerate = false → frame.Valid →
    (kind.paint d layout range frame).Valid

namespace Chart

/-- The parameters of a change can be drawn. -/
def Change.Drawable : Change Rat δ → Prop
  | params p => p.Drawable
  | data _ => True
  | frame => True

variable {kind : ChartKind Rat δ} {useful : AxisRange Rat → Prop} {chart : Chart kind}

variable (useful) in
/-- All parts of the sheet can be drawn on. -/
structure Sound (chart : Chart kind) : Prop where
  params : chart.sheet.params.Drawable
  legend : chart.sheet.legend.InRange
  layout : ∀ l ∈ chart.sheet.layout, l.Valid
  range : useful chart.sheet.yAxis.range

section

theorem valid_of_mem_none : ∀ l ∈ (none : Option (Layout Rat)), l.Valid := by
  intro l hl
  cases hl

variable (hlegend : ∀ d, (kind.legend d).InRange)
  (huseful : ∀ d dynamic, useful (kind.yAxis d dynamic).range)

include huseful

/-- **Looking at the axes again keeps a chart sound.**  A layout that is kept is the
one that was there. -/
theorem Sound.refreshAxes (h : chart.Sound useful) : chart.refreshAxes.Sound useful := by
  -- first the horizontal axis, if the shape of the data is another one
  obtain ⟨sheet, hsheet, hparams, hlegend, hlayout, hrange⟩ : ∃ sheet : Sheet Rat,
      chart.refreshAxes =
        ⟨sheet.setYAxis (kind.yAxis chart.data chart.sheet.params.dynamic), chart.data⟩ ∧
      sheet.params = chart.sheet.params ∧ sheet.legend = chart.sheet.legend ∧
      (∀ l ∈ sheet.layout, l.Valid) ∧ sheet.yAxis = chart.sheet.yAxis := by
    rw [Chart.refreshAxes]
    dsimp only
    rw [Sheet.updateShape]
    split
    · exact ⟨chart.sheet, rfl, rfl, rfl, h.layout, rfl⟩
    · dsimp only
      refine ⟨_, rfl, ?_⟩
      rw [if_pos rfl, Sheet.setXAxis]
      split
      · exact ⟨rfl, rfl, h.layout, rfl⟩
      · exact ⟨rfl, rfl, valid_of_mem_none, rfl⟩
  rw [hsheet, Sheet.setYAxis]
  split
  · exact ⟨hparams ▸ h.params, hlegend ▸ h.legend, hlayout, hrange ▸ h.range⟩
  · exact ⟨hparams ▸ h.params, hlegend ▸ h.legend, valid_of_mem_none, huseful _ _⟩

theorem Sound.setParams (h : chart.Sound useful) {p : Params Rat} (hp : p.Drawable) :
    (chart.setParams p).Sound useful := by
  refine Sound.refreshAxes huseful ?_
  rw [Sheet.setParams]
  split
  · exact ⟨h.params, h.legend, h.layout, h.range⟩
  · exact ⟨hp.normalize, h.legend, valid_of_mem_none, h.range⟩

include hlegend

theorem sound_new {p : Params Rat} (hp : p.Drawable) (data : δ) :
    (Chart.new kind p data).Sound useful :=
  Sound.refreshAxes huseful ⟨hp.normalize, hlegend data, valid_of_mem_none,
    huseful data p.dynamic⟩

theorem Sound.setData (h : chart.Sound useful) (data : δ) :
    (chart.setData data).Sound useful := by
  refine Sound.refreshAxes huseful ?_
  rw [Sheet.setLegend]
  split
  · exact ⟨h.params, h.legend, h.layout, h.range⟩
  · refine ⟨h.params, hlegend data, fun l hl => ?_, h.range⟩
    dsimp only at hl
    split at hl
    · cases hl
    · exact h.layout l hl

omit hlegend huseful

/-- The layout that the next frame is drawn on. -/
theorem Sound.valid_layout (h : chart.Sound useful) (measure : TextMeasure Rat) :
    (chart.sheet.layout.getD (chart.sheet.freshLayout measure)).Valid := by
  cases hlayout : chart.sheet.layout with
  | some l => exact h.layout l hlayout
  | none =>
    refine Layout.valid_compute h.params _ _ ?_ measure
    intro l hl
    split at hl
    · cases hl
      exact h.legend
    · cases hl

theorem Sound.frame (h : chart.Sound useful) (measure : TextMeasure Rat) :
    (chart.frame measure).1.Sound useful := by
  rw [frame_eq h.params.isValid]
  refine ⟨h.params, h.legend, fun l hl => ?_, h.range⟩
  cases hl
  exact h.valid_layout measure

include hlegend huseful

theorem Sound.change (h : chart.Sound useful) (measure : TextMeasure Rat) {c : Change Rat δ}
    (hc : c.Drawable) : (chart.change measure c).Sound useful := by
  cases c with
  | params p => exact h.setParams huseful hc
  | data d => exact h.setData hlegend huseful d
  | frame => exact h.frame measure

/-- **A chart stays sound through all changes.** -/
theorem Sound.after (h : chart.Sound useful) (measure : TextMeasure Rat)
    {changes : List (Change Rat δ)} (hchanges : ∀ c ∈ changes, c.Drawable) :
    (chart.after measure changes).Sound useful := by
  induction changes generalizing chart with
  | nil => exact h
  | cons c changes ih =>
    obtain ⟨hc, hrest⟩ := List.forall_mem_cons.mp hchanges
    exact ih (h.change hlegend huseful measure hc) hrest

end

/-! ### Frames -/

theorem valid_drawn {layout : Layout Rat} (h : layout.Valid)
    {paint : Layout Rat → AxisRange Rat → Frame Rat → Frame Rat} (range : AxisRange Rat)
    (hpaint : layout.plot.isDegenerate = false → ∀ {frame : Frame Rat}, frame.Valid →
      (paint layout range frame).Valid) : (layout.drawn paint range).Valid := by
  refine h.paintAxes ?_
  cases hplot : layout.plot.isDegenerate with
  | true => exact h.paintBackground
  | false => exact hpaint hplot h.paintBackground

/-- **The frame of a sound chart passes its check.** -/
theorem Sound.check_frame (h : chart.Sound useful) (hkind : kind.Drawable)
    (measure : TextMeasure Rat) : (chart.frame measure).2.check = .ok () := by
  have hlayout := h.valid_layout measure
  rw [Frame.check_eq_ok_iff, frame_eq h.params.isValid]
  exact valid_drawn hlayout _ fun hplot _ hframe =>
    hkind.paint chart.data _ hlayout hplot hframe

end Chart

end LineCharts
