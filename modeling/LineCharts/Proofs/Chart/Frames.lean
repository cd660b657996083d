/-
Charts always build valid frames, in exact arithmetic.

* `Layout.Divisors` — what a frame on a layout divides by is positive; so it is
  on every valid layout;
* `Chart.FramesValid` — all frames of a kind of chart pass their check, and no division
  by zero is behind them;
* `Chart.framesValid_of_agree` — a kind that can be drawn, and is the same with any
  division, has such frames;
* `Chart.framesValid_kinds` — all kinds have.
-/
import LineCharts.Proofs.Division.Charts

namespace LineCharts

open Exact (Division)

/-- What a frame on a layout divides by: the scale of the surface, the steps of both axes and,
where the plot has an area, the pixels for one of any number of carriers or periods. -/
structure Layout.Divisors (layout : Layout Rat) : Prop where
  scale : 0 < layout.metrics.scale
  stepX : 0 < layout.stepX
  stepY : 0 < layout.stepY
  scaleX : layout.plot.isDegenerate = false → ∀ count, 0 < layout.scaleX count

theorem Layout.Valid.divisors {layout : Layout Rat} (h : layout.Valid) : layout.Divisors :=
  ⟨h.metrics.scale, h.stepX, h.stepY, scaleX_pos⟩

namespace Chart

variable {δ : Type}

/-- Whatever happens to a chart of this kind, its next frame passes the check.  The vertical
axis of the frame has a range of use, what its layout divides by is positive, and the frame is
the same whatever a quotient by zero is. -/
def FramesValid (kind : [Scalar Rat] → ChartKind Rat δ) (useful : AxisRange Rat → Prop) :
    Prop :=
  ∀ (measure : TextMeasure Rat) (params : Params Rat) (data : δ)
    (changes : List (Change Rat δ)), params.Drawable → (∀ c ∈ changes, c.Drawable) →
      let drawn := ((Chart.new kind params data).after measure changes).frame measure
      drawn.2.check = .ok () ∧
        useful drawn.1.sheet.yAxis.range ∧
          (∃ layout ∈ drawn.1.sheet.layout, layout.Divisors) ∧
        ∀ d : Division,
          @frameAfter Rat δ d.scalar (@kind d.scalar) measure params data changes = drawn.2

/-- **A kind that can be drawn, and is the same with any division, has valid frames.** -/
theorem framesValid_of_agree {kind : [Scalar Rat] → ChartKind Rat δ}
    {useful : AxisRange Rat → Prop} (hkind : (@kind instScalarRat).Drawable)
    (hrange : ∀ data dynamic, useful ((@kind instScalarRat).yAxis data dynamic).range)
    (hagree : ∀ d : Division, (@kind d.scalar).Agree useful (@kind instScalarRat)) :
    FramesValid kind useful := by
  intro measure params data changes hparams hchanges
  have hnew := sound_new hkind.legend hrange hparams data
  have hsound := hnew.after hkind.legend hrange measure hchanges
  have hdrawn := hsound.frame measure
  refine ⟨hsound.check_frame hkind measure, hdrawn.range, ?_, fun d => ?_⟩
  · rw [frame_eq hsound.params.isValid]
    exact ⟨_, rfl, (hsound.valid_layout measure).divisors⟩
  · -- both charts have the same sheet when the frame is drawn
    have hafter :=
      (agree_new d (hagree d) params data).after d (hagree d) hkind.legend hrange hnew
        measure hchanges
    exact (hafter.frame d (hagree d) hsound.params.isValid hsound.range measure).2

/-- **All charts build valid frames, and divide by no zero on the way**, whatever the
parameters, data and frames before.  The vertical axis rises; it starts at zero where
its top is divided by. -/
theorem framesValid_kinds :
    FramesValid BitLoading.kind AxisRange.RisesFromZero ∧
      FramesValid SignalToNoise.kind AxisRange.Rises ∧
        FramesValid LineNoise.kind AxisRange.Rises ∧
      FramesValid Characteristic.kind AxisRange.Rises ∧
      ∀ direction,
        FramesValid (ErrorReport.kind (.retransmissions direction)) AxisRange.RisesFromZero ∧
        FramesValid (ErrorReport.kind (.errors direction)) AxisRange.RisesFromZero ∧
        FramesValid (ErrorReport.kind (.erroredSeconds direction))
          AxisRange.RisesFromZero := by
  have hreport : ∀ {report : [Scalar Rat] → ErrorReport Rat},
      (@report instScalarRat).InRange →
      (∀ d : Division, @report d.scalar = @report instScalarRat) →
        FramesValid (ErrorReport.kind report) AxisRange.RisesFromZero := by
    intro report hcolors hsame
    refine framesValid_of_agree (ErrorReport.drawable hcolors)
      (ErrorReport.risesFromZero_yAxis _) fun d => ?_
    rw [hsame d]
    exact ErrorReport.agree_kind d _
  refine ⟨?_, ?_, ?_, ?_, fun direction => ⟨?_, ?_, ?_⟩⟩
  · exact framesValid_of_agree BitLoading.drawable BitLoading.risesFromZero_yAxis
      BitLoading.agree_kind
  · exact framesValid_of_agree SignalToNoise.drawable SignalToNoise.rises_yAxis
      SignalToNoise.agree_kind
  · exact framesValid_of_agree LineNoise.drawable LineNoise.rises_yAxis LineNoise.agree_kind
  · exact framesValid_of_agree Characteristic.drawable Characteristic.rises_yAxis
      Characteristic.agree_kind
  · exact hreport (ErrorReport.inRange_retransmissions direction) fun d =>
      ErrorReport.retransmissions_by d direction
  · exact hreport (ErrorReport.inRange_errors direction) fun d =>
      ErrorReport.errors_by d direction
  · exact hreport (ErrorReport.inRange_erroredSeconds direction) fun d =>
      ErrorReport.erroredSeconds_by d direction

/-- Two snapshots come in, on a surface whose scale cannot be divided by, and one where
the plot has no area. -/
theorem framesValid_kinds_noScale :
    let start : Params Rat :=
      { Params.withLegend with scaleFactor := 0, fontSize := -1, dynamic := true }
    let bins : Bins Rat :=
      { Bins.empty with
        binCount := 0
        bands := [⟨9, 3, .up⟩, ⟨4, 4, .down⟩]
        pilotTones := [7]
        bits := ⟨⟨0, [none, some 3, some 3, some (-1)]⟩, ⟨2, [some 1.5]⟩⟩ }
    let changes : List (Change Rat (Option (Bins Rat))) :=
      [.frame, .data (some bins), .params { start with width := 1, height := 1 }, .frame,
        .params start]
    let frame : [Scalar Rat] → Frame Rat :=
      frameAfter BitLoading.kind approximateWidth start none changes
    start.Drawable ∧ (∀ c ∈ changes, c.Drawable) ∧ frame.check = .ok () ∧
      @frame (Division.byZero id).scalar = frame := by
  intro start bins changes frame
  have hwhite : start.background.InRange := by
    constructor <;> norm_num [start, Params.withLegend, Params.default, Color.solid]
  have hblack : start.foreground.InRange := by
    constructor <;> norm_num [start, Params.withLegend, Params.default, Color.solid]
  have hstart : start.Drawable := ⟨by decide, by decide, hwhite, hblack⟩
  have hsmall : Params.Drawable { start with width := 1, height := 1 } :=
    ⟨by decide, by decide, hwhite, hblack⟩
  have hchanges : ∀ c ∈ changes, c.Drawable := by
    intro c hc
    simp only [changes, List.mem_cons, List.not_mem_nil, or_false] at hc
    rcases hc with rfl | rfl | rfl | rfl | rfl
    · trivial
    · trivial
    · exact hsmall
    · trivial
    · exact hstart
  obtain ⟨hcheck, -, -, hdivision⟩ :=
    framesValid_kinds.1 approximateWidth start none changes hstart hchanges
  exact ⟨hstart, hchanges, hcheck, hdivision _⟩

end Chart

end LineCharts
