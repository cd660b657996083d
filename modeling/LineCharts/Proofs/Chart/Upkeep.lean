/-
Sheets never show what is out of date.

* `Sheet.Kept` — a layout that is kept is the one that parameters, axes and legend lead to,
  and the horizontal axis is one for the shape that is remembered;
* `Sheet.Kept.setParams`, `Sheet.Kept.setLegend`, `Sheet.Kept.setYAxis`,
  `Sheet.Kept.followShape`, `Sheet.Kept.ensureLayout` — every change keeps it so, and the part
  that is changed is then the new one;
* `ChartKind.Steady` — what a kind of chart has to have for this: equal
  parts are the same part.

Design notes.  A sheet keeps a part that is equal to the new one, and equal parts need not
be the same: numbers may differ in the sign of a zero.  The horizontal axis may be such a
part, the parameters too; the vertical axis and the legend may not, because traces are
drawn by the vertical axis.
-/
import LineCharts.Chart.Basic
import LineCharts.Proofs.Layout.Alike

namespace LineCharts

open Double (Same)

variable {δ : Type}

/-- What the sheet of a chart relies on: equal parts are alike or one part, and painting
neither looks at the colours that are given nor at what is painted already. -/
structure ChartKind.Steady (kind : ChartKind Float δ) (valid : δ → Prop) : Prop where
  xAxis_of_extent : ∀ {d e : δ}, valid d → valid e → (kind.extent d).1 = (kind.extent e).1 →
    Same (kind.extent d).2 (kind.extent e).2 → (kind.xAxis d).Alike (kind.xAxis e)
  xAxis_of_beq : ∀ {d e : δ}, (kind.xAxis d == kind.xAxis e) = true →
    (kind.xAxis d).Alike (kind.xAxis e)
  yAxis_of_beq : ∀ {d e : δ} {a b : Bool}, (kind.yAxis d a == kind.yAxis e b) = true →
    kind.yAxis d a = kind.yAxis e b
  legend_of_beq : ∀ {d e : δ}, (kind.legend d == kind.legend e) = true →
    kind.legend d = kind.legend e
  paint_plain :
    ∀ (d : δ) (layout : Layout Float) (range : AxisRange Float) (frame : Frame Float),
    kind.paint d layout range frame = kind.paint d layout.plain range frame
  paint_alike :
    ∀ (d : δ) (layout : Layout Float) (range : AxisRange Float) {f g : Frame Float},
    f.Alike g → (kind.paint d layout range f).Alike (kind.paint d layout range g)

/-- The units of two shapes are the same: one double is no number. -/
theorem Shape.same_of_sameUnit {x y : Float} (h : Shape.sameUnit x y = true) : Same x y := by
  rw [Shape.sameUnit, Bool.or_eq_true, Bool.and_eq_true, Bool.not_eq_true', Bool.not_eq_true',
    Float.beq_self_eq_false_iff, Float.beq_self_eq_false_iff] at h
  rcases h with h | ⟨rfl, rfl⟩
  · exact .inr h
  · exact .refl _

namespace Sheet

variable {kind : ChartKind Float δ} {valid : δ → Prop} {measure : TextMeasure Float}
  {sheet : Sheet Float}

variable (kind valid measure) in
/-- The parts of a sheet come from the kind of chart, and what is kept is up to date. -/
structure Kept (sheet : Sheet Float) : Prop where
  params : ∃ p : Params Float, sheet.params = p.normalize
  xAxis : ∃ d, sheet.xAxis = kind.xAxis d
  yAxis : ∃ d dynamic, sheet.yAxis = kind.yAxis d dynamic
  legend : ∃ d, sheet.legend = kind.legend d
  shape : ∀ s, sheet.shape = some s → ∃ d, valid d ∧ s.domain = (kind.extent d).1 ∧
    Same s.unit (kind.extent d).2 ∧ sheet.xAxis.Alike (kind.xAxis d)
  layout : ∀ l, sheet.layout = some l → l = sheet.freshLayout measure

variable (kind) in
/-- The horizontal axis for the data, if the shape is another one than before. -/
def followShape (sheet : Sheet Float) (data : δ) : Sheet Float :=
  let shape : Shape Float :=
    ⟨(kind.extent data).1, (kind.extent data).2, sheet.params.dynamic⟩
  if sheet.shape == some shape then sheet
  else { sheet with shape := some shape }.setXAxis (kind.xAxis data)

/-! ### What a change leaves alone -/

theorem setParams_legend (sheet : Sheet Float) (p : Params Float) :
    (sheet.setParams p).legend = sheet.legend := by
  rw [setParams]
  split <;> rfl

theorem setLegend_params (sheet : Sheet Float) (legend : Legend Float) :
    (sheet.setLegend legend).params = sheet.params := by
  rw [setLegend]
  split <;> rfl

theorem setXAxis_rest (sheet : Sheet Float) (axis : AxisPlan Float) :
    (sheet.setXAxis axis).params = sheet.params ∧
      (sheet.setXAxis axis).legend = sheet.legend := by
  rw [setXAxis]
  split <;> exact ⟨rfl, rfl⟩

theorem setYAxis_rest (sheet : Sheet Float) (axis : AxisPlan Float) :
    (sheet.setYAxis axis).params = sheet.params ∧ (sheet.setYAxis axis).legend =
      sheet.legend ∧ (sheet.setYAxis axis).xAxis = sheet.xAxis := by
  rw [setYAxis]
  split <;> exact ⟨rfl, rfl, rfl⟩

variable (kind) in
theorem followShape_rest (sheet : Sheet Float) (data : δ) :
    (sheet.followShape kind data).params = sheet.params ∧
      (sheet.followShape kind data).legend = sheet.legend := by
  rw [followShape]
  split
  · exact ⟨rfl, rfl⟩
  · exact setXAxis_rest _ _

theorem ensureLayout_rest (sheet : Sheet Float) (measure : TextMeasure Float) :
    (sheet.ensureLayout measure).1.params = sheet.params ∧
      (sheet.ensureLayout measure).1.legend = sheet.legend ∧
      (sheet.ensureLayout measure).1.xAxis = sheet.xAxis ∧
      (sheet.ensureLayout measure).1.yAxis = sheet.yAxis := by
  rw [ensureLayout]
  split
  · exact ⟨rfl, rfl, rfl, rfl⟩
  · split
    · exact ⟨rfl, rfl, rfl, rfl⟩
    · exact ⟨rfl, rfl, rfl, rfl⟩

/-! ### What a change brings -/

namespace Kept

theorem setParams (h : sheet.Kept kind valid measure) (p : Params Float) :
    (sheet.setParams p).Kept kind valid measure ∧
      (sheet.setParams p).params.Alike p.normalize := by
  rw [Sheet.setParams]
  split
  case isTrue hbeq =>
    -- the parameters that are kept are alike to the new ones, so the layout may stay
    obtain ⟨q, hq⟩ := h.params
    rw [hq] at hbeq
    refine ⟨h, ?_⟩
    rw [hq]
    exact (Params.alike_of_beq hbeq).symm
  case isFalse =>
    refine ⟨⟨⟨p, rfl⟩, h.xAxis, h.yAxis, h.legend, h.shape, ?_⟩, .refl _⟩
    intro l hl
    cases hl

/-- A legend that is hidden has no part in the layout. -/
theorem setLegend (steady : kind.Steady valid) (h : sheet.Kept kind valid measure) (d : δ) :
    (sheet.setLegend (kind.legend d)).Kept kind valid measure ∧
      (sheet.setLegend (kind.legend d)).legend = kind.legend d := by
  rw [Sheet.setLegend]
  split
  case isTrue hbeq =>
    obtain ⟨e, he⟩ := h.legend
    rw [he] at hbeq ⊢
    exact ⟨h, (steady.legend_of_beq hbeq).symm⟩
  case isFalse =>
    refine ⟨⟨h.params, h.xAxis, h.yAxis, ⟨d, rfl⟩, h.shape, ?_⟩, rfl⟩
    intro l hl
    dsimp only at hl
    -- the layout is kept only if the legend is hidden; then no legend is in it
    by_cases hshown : sheet.params.legend = true
    · rw [if_pos hshown] at hl
      cases hl
    · rw [if_neg hshown] at hl
      rw [h.layout l hl, freshLayout, freshLayout, if_neg hshown]
      dsimp only
      rw [if_neg hshown]

theorem setYAxis (steady : kind.Steady valid) (h : sheet.Kept kind valid measure) (d : δ)
    (dynamic : Bool) : (sheet.setYAxis (kind.yAxis d dynamic)).Kept kind valid measure ∧
      (sheet.setYAxis (kind.yAxis d dynamic)).yAxis = kind.yAxis d dynamic := by
  rw [Sheet.setYAxis]
  split
  case isTrue hbeq =>
    -- traces are drawn by this axis, so it has to be the same axis, not an alike one
    obtain ⟨e, b, he⟩ := h.yAxis
    rw [he] at hbeq
    exact ⟨h, he.trans (steady.yAxis_of_beq hbeq).symm⟩
  case isFalse =>
    refine ⟨⟨h.params, h.xAxis, ⟨d, dynamic, rfl⟩, h.legend, h.shape, ?_⟩, rfl⟩
    intro l hl
    cases hl

theorem followShape (steady : kind.Steady valid) (h : sheet.Kept kind valid measure) {d : δ}
    (hd : valid d) : (sheet.followShape kind d).Kept kind valid measure ∧
      (sheet.followShape kind d).xAxis.Alike (kind.xAxis d) := by
  rw [Sheet.followShape]
  split
  case isTrue hbeq =>
    refine ⟨h, ?_⟩
    -- the shape is unchanged, so data of the same extent are behind the axis
    cases hshape : sheet.shape with
    | none =>
      rw [hshape] at hbeq
      cases hbeq
    | some s =>
      rw [hshape] at hbeq
      obtain ⟨e, he, hdomain, hunit, haxis⟩ := h.shape s hshape
      have hfields :
        (s.domain == (kind.extent d).1 && Shape.sameUnit s.unit (kind.extent d).2 &&
        s.dynamic == sheet.params.dynamic) = true := hbeq
      rw [Bool.and_eq_true, Bool.and_eq_true, beq_iff_eq] at hfields
      obtain ⟨⟨hcount, hsame⟩, _⟩ := hfields
      have hunits : Same (kind.extent e).2 (kind.extent d).2 :=
        hunit.symm.trans (Shape.same_of_sameUnit hsame)
      exact haxis.trans (steady.xAxis_of_extent he hd (hdomain.symm.trans hcount) hunits)
  case isFalse =>
    rw [Sheet.setXAxis]
    split
    case isTrue hbeq =>
      -- another shape with an equal axis: axis and layout stay, the shape is the new one
      obtain ⟨e, he⟩ := h.xAxis
      have haxis : sheet.xAxis.Alike (kind.xAxis d) := by
        rw [he]
        exact (steady.xAxis_of_beq (he ▸ hbeq)).symm
      refine ⟨⟨h.params, h.xAxis, h.yAxis, h.legend, ?_, h.layout⟩, haxis⟩
      intro s hs
      obtain rfl := Option.some.inj hs
      exact ⟨d, hd, rfl, .refl _, haxis⟩
    case isFalse =>
      refine ⟨⟨h.params, ⟨d, rfl⟩, h.yAxis, h.legend, ?_, ?_⟩, .refl _⟩
      · intro s hs
        obtain rfl := Option.some.inj hs
        exact ⟨d, hd, rfl, .refl _, .refl _⟩
      · intro l hl
        cases hl

theorem ensureLayout (h : sheet.Kept kind valid measure) :
    (sheet.ensureLayout measure).1.Kept kind valid measure := by
  rw [Sheet.ensureLayout]
  split
  · exact h
  · split
    · refine ⟨h.params, h.xAxis, h.yAxis, h.legend, h.shape, ?_⟩
      intro l hl
      exact (Option.some.inj hl).symm
    · exact h

/-- On a surface with pixels the layout is then the one that the sheet leads to. -/
theorem layout_ensureLayout (h : sheet.Kept kind valid measure)
    (hpixels : sheet.params.viewport.isValid = true) :
    (sheet.ensureLayout measure).2 = true ∧
      (sheet.ensureLayout measure).1.layout = some (sheet.freshLayout measure) := by
  rw [Sheet.ensureLayout, hpixels, isStale]
  cases hlayout : sheet.layout with
  | none => exact ⟨rfl, rfl⟩
  | some l => exact ⟨rfl, by rw [← h.layout l hlayout]; exact hlayout⟩

end Kept

end Sheet

end LineCharts
