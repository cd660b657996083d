/-
Layouts divide by no zero, in exact arithmetic.

* `Palette.derive_by`, `Layout.Metrics.of_by`, `Legend.layout_by` — colours, sizes and legends
  are the same with any division;
* `Layout.agree_xAxisPath`, `Layout.agree_yAxisPath`, `Layout.agree_yGridPath` — so are the
  lines of axes and grid;
* `Layout.compute_by` — so is the whole layout, whatever the parameters: a scale that could
  not be divided by has been replaced before.
-/
import LineCharts.Proofs.Division.Axes
import LineCharts.Proofs.Layout.Valid

namespace LineCharts

open Exact (Division)

variable (d : Division)

/-! ### Colours -/

namespace Palette

theorem green_by : @green Rat d.scalar = green := by
  have hdiv := fun x => d.quotient_eq x (255.0 : Rat) (by norm_num)
  show (⟨d.quotient 96.0 255.0, d.quotient 192.0 255.0, 0.0, 0.75⟩ : Color Rat) = _
  rw [hdiv, hdiv]
  rfl

theorem blue_by : @blue Rat d.scalar = blue := by
  have hdiv := fun x => d.quotient_eq x (255.0 : Rat) (by norm_num)
  show (⟨0.0, d.quotient 127.0 255.0, 1.0, 0.75⟩ : Color Rat) = _
  rw [hdiv]
  rfl

theorem red_by : @red Rat d.scalar = red := by
  have hdiv := fun x => d.quotient_eq x (255.0 : Rat) (by norm_num)
  show (⟨d.quotient 204.0 255.0, d.quotient 94.0 255.0, d.quotient 82.0 255.0,
    0.75⟩ : Color Rat) = _
  rw [hdiv, hdiv, hdiv]
  rfl

theorem gray_by (level alpha : Rat) : @gray Rat d.scalar level alpha = gray level alpha :=
  congrArg (fun channel => (⟨channel, channel, channel, alpha⟩ : Color Rat))
    (d.quotient_eq _ (255.0 : Rat) (by norm_num))

theorem graphLevel_by (brightness : Rat) :
    @graphLevel Rat d.scalar brightness = graphLevel brightness := by
  show (if (223.0 : Rat) < brightness then brightness - 20.0
    else if (127.0 : Rat) < brightness then 255.0 - d.quotient (223.0 - brightness) 2.0
    else if (31.0 : Rat) < brightness then d.quotient (brightness - 32.0) 2.0
    else brightness + 20.0) = _
  rw [d.quotient_two, d.quotient_two]
  rfl

theorem derive_by (background foreground : Color Rat) :
    @derive Rat d.scalar background foreground = derive background foreground := by
  unfold derive
  simp only [gray_by, graphLevel_by, green_by, blue_by, red_by]
  rfl

end Palette

/-! ### Sizes -/

namespace Layout

theorem digitWidth_by : @digitWidth Rat d.scalar = digitWidth :=
  d.quotient_eq (23.0 : Rat) 3.75 (by norm_num)

namespace Metrics

theorem of_by {p : Params Rat} (h : p.scaleFactor ≠ 0) :
    @Metrics.of Rat d.scalar p = Metrics.of p := by
  have hscale := fun x => d.quotient_eq x _ h
  have hfont : d.quotient p.fontSize (baseFontSize : Rat) = p.fontSize / baseFontSize :=
    d.quotient_eq _ _ (by norm_num [baseFontSize])
  have hwidth : ∀ x, d.quotient x (referenceWidth : Rat) = x / referenceWidth :=
    fun x => d.quotient_eq x _ (by norm_num [referenceWidth])
  have hheight : ∀ x, d.quotient x (referenceHeight : Rat) = x / referenceHeight :=
    fun x => d.quotient_eq x _ (by norm_num [referenceHeight])
  let strip : Rat := if p.legend then legendStripHeight else 0.0
  let stroke : Rat := if (1.0 : Rat) < p.scaleFactor then Scalar.round p.scaleFactor else 1.0
  have hfactor : Scalar.clamp (1.0 : Rat) 1.35
      (min (d.quotient (d.quotient (Scalar.ofNat p.width) p.scaleFactor) referenceWidth)
        (d.quotient (d.quotient (Scalar.ofNat p.height) p.scaleFactor - strip)
          referenceHeight)) =
      Scalar.clamp (1.0 : Rat) 1.35
        (min (Scalar.ofNat p.width / p.scaleFactor / referenceWidth)
        ((Scalar.ofNat p.height / p.scaleFactor - strip) / referenceHeight)) := by
    rw [hwidth, hheight, hscale, hscale]
  -- a given font size and one that grows with the surface
  exact congrArg₂ (fun given grown : Rat => if (0.0 : Rat) < p.fontSize then
      (⟨p.scaleFactor, given, p.fontSize * p.scaleFactor, stroke⟩ : Metrics Rat)
    else ⟨p.scaleFactor, grown, baseFontSize * grown * p.scaleFactor, stroke⟩) hfont hfactor

theorem labelSpacing_by (m : Metrics Rat) (digits : Rat) :
    @labelSpacing Rat d.scalar m digits = m.labelSpacing digits := by
  unfold labelSpacing
  rw [digitWidth_by]

theorem plot_by (m : Metrics Rat) (p : Params Rat) (xDigits yDigits : Rat) :
    @plot Rat d.scalar m p xDigits yDigits = m.plot p xDigits yDigits := by
  unfold plot
  dsimp only
  rw [digitWidth_by]
  exact congrArg (fun half : Rat =>
    let left : Rat := Scalar.round ((yDigits * digitWidth * m.fontFactor + 5.0) * m.scale)
    let top : Rat := Scalar.round (4.0 * m.fontFactor * m.scale)
    let right : Rat := Scalar.round (((half + 2.75) * m.fontFactor - 1.0) * m.scale)
    let bottom : Rat := Scalar.round ((14.0 * m.fontFactor + 5.0) * m.scale)
    (⟨left, top, max (Scalar.ofNat p.width - left - right) 0.0,
      max (Scalar.ofNat p.height - top - bottom - m.legendStrip p.legend) 0.0⟩ : Rect Rat))
    (d.quotient_two _)

end Metrics

/-! ### Axes -/

theorem tickX_by (m : Metrics Rat) (plot : Rect Rat) (axis : AxisPlan Rat) (value : Int) :
    @tickX Rat d.scalar m plot axis value = tickX m plot axis value := by
  unfold tickX
  rw [AxisPlan.fraction_by]
  rfl

theorem tickY_by (m : Metrics Rat) (plot : Rect Rat) (axis : AxisPlan Rat) (value : Int) :
    @tickY Rat d.scalar m plot axis value = tickY m plot axis value := by
  unfold tickY
  rw [AxisPlan.fraction_by]
  rfl

theorem minorTicks_by (axis : AxisPlan Rat) (step : Int) :
    @minorTicks Rat d.scalar axis step = minorTicks axis step := by
  unfold minorTicks
  rw [AxisPlan.ticks_by]

theorem xLabels_by (m : Metrics Rat) (plot : Rect Rat) (color : Color Rat)
    (axis : AxisPlan Rat) (step : Int) :
    @xLabels Rat d.scalar m plot color axis step = xLabels m plot color axis step := by
  unfold xLabels
  simp only [AxisPlan.ticks_by, LabelFormat.text_by, tickX_by]
  rfl

theorem yLabels_by (m : Metrics Rat) (plot : Rect Rat) (color : Color Rat)
    (axis : AxisPlan Rat) (step : Int) :
    @yLabels Rat d.scalar m plot color axis step = yLabels m plot color axis step := by
  unfold yLabels
  simp only [AxisPlan.ticks_by, LabelFormat.text_by, tickY_by]
  rfl

section

variable {d} {p q : Path Rat} (h : p.Agree q)

include h

theorem agree_line (x₁ y₁ x₂ y₂ : Rat) :
    (@line Rat d.scalar p x₁ y₁ x₂ y₂).Agree (line q x₁ y₁ x₂ y₂) :=
  (h.moveTo x₁ y₁).lineTo x₂ y₂

variable (m : Metrics Rat) (plot : Rect Rat) (axis : AxisPlan Rat) (step : Int)

theorem agree_xAxisPath :
    (@xAxisPath Rat d.scalar p m plot axis step).Agree (xAxisPath q m plot axis step) := by
  unfold xAxisPath
  dsimp only
  rw [AxisPlan.ticks_by]
  refine List.foldl_rel (agree_line h _ _ _ _) fun value _ p q hpath => ?_
  rw [tickX_by]
  exact agree_line hpath _ _ _ _

theorem agree_yAxisPath :
    (@yAxisPath Rat d.scalar p m plot axis step).Agree (yAxisPath q m plot axis step) := by
  unfold yAxisPath
  dsimp only
  rw [AxisPlan.ticks_by, minorTicks_by]
  refine List.foldl_rel (List.foldl_rel (agree_line h _ _ _ _) fun value _ p q hpath => ?_)
    fun value _ p q hpath => ?_
  · rw [tickY_by]
    exact agree_line hpath _ _ _ _
  · rw [tickY_by]
    exact agree_line hpath _ _ _ _

theorem agree_yGridPath :
    (@yGridPath Rat d.scalar p m plot axis step).Agree (yGridPath q m plot axis step) := by
  unfold yGridPath
  dsimp only
  simp only [AxisPlan.ticks_by, AxisPlan.fraction_by]
  refine List.foldl_rel h fun value _ p q hpath => ?_
  rw [tickY_by]
  exact agree_line hpath _ _ _ _

end

end Layout

/-! ### Legends -/

namespace Legend

variable (strip : LegendStrip Rat)

theorem middle_by : @LegendStrip.middle Rat d.scalar strip = strip.middle :=
  congrArg (strip.top + ·) (d.quotient_two strip.height)

theorem label_by (text : String) (x : Rat) :
    @LegendStrip.label Rat d.scalar strip text x = strip.label text x := by
  unfold LegendStrip.label
  rw [middle_by]

theorem placeItems_by (gap : Bool) (cursor : Rat) (items : List (LegendItem Rat × Rat)) :
    @placeItems Rat d.scalar strip gap cursor items = placeItems strip gap cursor items := by
  induction items generalizing gap cursor with
  | nil => rfl
  | cons item items ih =>
    unfold placeItems
    dsimp only
    rw [ih, label_by, middle_by]
    exact congrArg (fun half : Rat =>
      (Drawing.rect ⟨⟨_, Scalar.round (strip.middle - half), _, _⟩, _⟩ :: _) ++ _)
      (d.quotient_two strip.swatch)

theorem addItems_by (gap : Bool) (total : Rat) (items : List (LegendItem Rat × Rat)) :
    @addItems Rat d.scalar strip gap total items = addItems strip gap total items := by
  induction items generalizing gap total with
  | nil => rfl
  | cons item items ih => exact ih _ _

theorem lineStart_by (legend : Legend Rat) (measure : TextMeasure Rat) :
    @lineStart Rat d.scalar legend strip measure = legend.lineStart strip measure := by
  have hwidth : @width Rat d.scalar legend strip measure = legend.width strip measure :=
    addItems_by d strip _ _ _
  unfold lineStart
  rw [hwidth]
  exact congrArg (fun half : Rat => (Scalar.round (max half 0.0) : Rat)) (d.quotient_two _)

theorem layout_by (legend : Legend Rat) (measure : TextMeasure Rat) :
    @layout Rat d.scalar legend strip measure = legend.layout strip measure := by
  unfold layout
  dsimp only
  rw [lineStart_by, placeItems_by, placeItems_by, label_by]
  rfl

end Legend

/-! ### Layouts -/

namespace Layout

/-- **The layout is the same with any division**, whatever parameters, axes and legend. -/
theorem compute_by (p : Params Rat) (xAxis yAxis : AxisPlan Rat)
    (legend : Option (Legend Rat)) (measure : TextMeasure Rat) :
    @compute Rat d.scalar p xAxis yAxis legend measure =
      compute p xAxis yAxis legend measure := by
  have hnormalize : @Params.normalize Rat d.scalar p = p.normalize := rfl
  unfold compute
  dsimp only
  rw [hnormalize, Metrics.of_by d p.scaleFactor_pos.ne', Metrics.plot_by,
    Metrics.labelSpacing_by, chooseStep_by, chooseStep_by, Palette.derive_by,
    xLabels_by, yLabels_by,
    (agree_yAxisPath (agree_xAxisPath (Path.agree_empty d) _ _ _ _) _ _ _ _).eq,
    (agree_yGridPath (Path.agree_empty d) _ _ _ _).eq]
  cases legend with
  | none => rfl
  | some legend =>
    dsimp only
    rw [Legend.layout_by]
    rfl

theorem scaleX_by (layout : Layout Rat) (count : Nat) :
    @scaleX Rat d.scalar layout count = layout.scaleX count := by
  have hcount : (Scalar.ofNat (max count 1) : Rat) ≠ 0 :=
    Nat.cast_ne_zero.mpr (Nat.ne_of_gt (lt_of_lt_of_le Nat.one_pos (le_max_right _ _)))
  exact d.quotient_eq _ _ hcount

end Layout

end LineCharts
