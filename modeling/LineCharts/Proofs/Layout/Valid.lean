/-
Layouts whose parts can be drawn, in exact arithmetic.

* `Params.Drawable` — a surface with pixels and colours in range;
* `Palette.inRange_derive` — the grays that are derived from such colours are in range too;
* `Layout.Metrics.positive_of` — scale, font size and line width are positive,
  whatever the parameters;
* `LabelFormat.text_ne_empty` — the text of a tick is never empty;
* `Legend.check_layout` — a legend can be drawn, whatever is measured;
* `Layout.Valid` — all parts of a layout can be drawn; `Layout.valid_compute` — so they can;
* `Layout.Valid.paintBackground`, `Layout.Valid.paintAxes` — frames stay valid.
-/
import LineCharts.Layout.Basic
import LineCharts.Proofs.Axis.Step
import LineCharts.Proofs.Frame.Valid
import LineCharts.Proofs.Geometry.Rounding

namespace LineCharts

/-! ### Parameters -/

/-- A surface with pixels and colours in range; scale and font size may be any numbers. -/
structure Params.Drawable (p : Params Rat) : Prop where
  width : 1 ≤ p.width
  height : 1 ≤ p.height
  background : p.background.InRange
  foreground : p.foreground.InRange

namespace Params

theorem Drawable.isValid {p : Params Rat} (h : p.Drawable) : p.viewport.isValid = true := by
  have hwidth := h.width
  have hheight := h.height
  rw [viewport, Viewport.isValid, Bool.and_eq_true, decide_eq_true_eq, decide_eq_true_eq]
  exact ⟨hwidth, hheight⟩

theorem Drawable.normalize {p : Params Rat} (h : p.Drawable) : p.normalize.Drawable :=
  ⟨h.width, h.height, h.background, h.foreground⟩

/-- **The scale is positive** after all. -/
theorem scaleFactor_pos (p : Params Rat) : 0 < p.normalize.scaleFactor := by
  have hone : (0 : Rat) < 1.0 := by norm_num
  show 0 < if (!true || decide (p.scaleFactor ≤ 0.0)) = true then (1.0 : Rat)
    else p.scaleFactor
  split
  case isTrue => exact hone
  case isFalse h =>
    rw [Bool.not_true, Bool.false_or, decide_eq_true_eq, Exact.zero_lit] at h
    exact not_le.mp h

end Params

/-! ### Colours -/

theorem Scalar.clamp_mem {lo hi : Rat} (h : lo ≤ hi) (x : Rat) :
    lo ≤ clamp lo hi x ∧ clamp lo hi x ≤ hi := by
  have hraised : lo ≤ if x < lo then lo else x := by
    split
    case isTrue => exact le_rfl
    case isFalse hx => exact not_lt.mp hx
  unfold clamp
  dsimp only
  generalize (if x < lo then lo else x) = raised at hraised ⊢
  split
  case isTrue => exact ⟨h, le_rfl⟩
  case isFalse hle => exact ⟨hraised, not_lt.mp hle⟩

/-- All colours of a palette are in range. -/
structure Palette.InRange (palette : Palette Rat) : Prop where
  background : palette.background.InRange
  text : palette.text.InRange
  graph : palette.graph.InRange
  grid : palette.grid.InRange
  neutralFill : palette.neutralFill.InRange
  neutralStroke : palette.neutralStroke.InRange
  up : palette.up.InRange
  down : palette.down.InRange
  pilotTones : palette.pilotTones.InRange
  leastStroke : palette.leastStroke.InRange
  greatestStroke : palette.greatestStroke.InRange

namespace Palette

theorem inRange_green : (green : Color Rat).InRange := by
  constructor <;> norm_num [green]

theorem inRange_blue : (blue : Color Rat).InRange := by
  constructor <;> norm_num [blue]

theorem inRange_red : (red : Color Rat).InRange := by
  constructor <;> norm_num [red]

/-- Every gray is in range, whatever its level. -/
theorem inRange_gray (level : Rat) {alpha : Rat} (halpha : 0 ≤ alpha ∧ alpha ≤ 1) :
    (gray level alpha).InRange := by
  have hend : (255.0 : Rat) = 255 := by norm_num
  have hclamp := Scalar.clamp_mem (by norm_num : (0.0 : Rat) ≤ 255.0) (Scalar.round level)
  have hchannel : 0 ≤ Scalar.clamp 0.0 255.0 (Scalar.round level) / (255.0 : Rat) ∧
      Scalar.clamp 0.0 255.0 (Scalar.round level) / (255.0 : Rat) ≤ 1 := by
    constructor
    · exact div_nonneg (le_trans (by norm_num) hclamp.1) (by norm_num)
    · rw [div_le_one (by norm_num)]
      exact hclamp.2
  exact ⟨hchannel, hchannel, hchannel, halpha⟩

theorem inRange_derive {background foreground : Color Rat} (hback : background.InRange)
    (hfore : foreground.InRange) : (derive background foreground).InRange where
  background := hback
  text := hfore
  graph := inRange_gray _ (by norm_num)
  grid := inRange_gray _ (by norm_num)
  neutralFill := inRange_gray _ (by norm_num)
  neutralStroke := inRange_gray _ (by norm_num)
  up := inRange_green
  down := inRange_blue
  pilotTones := inRange_red
  leastStroke := inRange_blue
  greatestStroke := inRange_green

end Palette

/-! ### Sizes -/

namespace Layout

/-- Lines and texts have a size. -/
structure Metrics.Positive (m : Metrics Rat) : Prop where
  scale : 0 < m.scale
  fontSize : 0 < m.fontSize
  stroke : 0 < m.stroke

theorem stroke_pos (scale : Rat) :
    0 < if (1.0 : Rat) < scale then (Scalar.round scale : Rat) else 1.0 := by
  rw [Exact.one_lit]
  split
  case isTrue h =>
    have hround := Exact.round_mono h.le
    rw [← Int.cast_one, Exact.round_intCast] at hround
    exact Int.cast_pos.mpr (Int.lt_of_lt_of_le Int.one_pos hround)
  case isFalse => exact one_pos

theorem Metrics.positive_of {p : Params Rat} (hscale : 0 < p.scaleFactor) :
    (Metrics.of p).Positive := by
  rw [Metrics.of]
  split
  case isTrue hfont => exact ⟨hscale, mul_pos (Exact.zero_lit ▸ hfont) hscale, stroke_pos _⟩
  case isFalse =>
    refine ⟨hscale, ?_, stroke_pos _⟩
    have hbase : (0 : Rat) < baseFontSize := by
      rw [baseFontSize]
      norm_num
    have hfactor := Scalar.clamp_mem (by norm_num : (1.0 : Rat) ≤ 1.35)
    exact mul_pos (mul_pos hbase (lt_of_lt_of_le (by norm_num) (hfactor _).1)) hscale

end Layout

/-! ### Texts -/

theorem Decimal.plain_ne_empty (d : Decimal) : d.plain ≠ "" := by
  have hmagnitude : d.magnitude ≠ [] := by
    rw [magnitude]
    split
    · exact Nat.toDigits_ne_nil
    · exact List.append_ne_nil_of_right_ne_nil _ (List.cons_ne_nil _ _)
  rw [plain, signed, Ne, String.ofList_eq_empty_iff]
  split
  · exact List.cons_ne_nil _ _
  · exact hmagnitude

theorem toString_int_ne_empty (n : Int) : toString n ≠ "" := by
  show n.repr ≠ ""
  cases n with
  | ofNat m => exact Nat.repr_ne_empty
  | negSucc m =>
    intro h
    exact Nat.repr_ne_empty (String.append_eq_empty_iff.mp h).2

namespace LabelFormat

theorem withUnit_ne_empty {number : String} (h : number ≠ "") (unit : String) :
    withUnit number unit ≠ "" := by
  intro heq
  exact h (String.append_eq_empty_iff.mp (String.append_eq_empty_iff.mp heq).1).1

theorem quotient_ne_empty (places : Nat) (n d : Int) : quotient Rat places n d ≠ "" :=
  Decimal.plain_ne_empty _

theorem scaledText_ne_empty (value scale : Int) (unit : String) :
    scaledText Rat value scale unit ≠ "" := by
  rw [scaledText]
  split
  · exact withUnit_ne_empty (toString_int_ne_empty _) unit
  · split
    · exact withUnit_ne_empty (quotient_ne_empty _ _ _) unit
    · exact withUnit_ne_empty (quotient_ne_empty _ _ _) unit

theorem durationText_ne_empty (minutes step : Int) : durationText Rat minutes step ≠ "" := by
  rw [durationText]
  split_ifs
  · exact withUnit_ne_empty (toString_int_ne_empty _) "d"
  · exact withUnit_ne_empty (quotient_ne_empty _ _ _) "d"
  · exact withUnit_ne_empty (toString_int_ne_empty _) "h"
  · exact withUnit_ne_empty (toString_int_ne_empty _) "min"
  · exact withUnit_ne_empty (quotient_ne_empty _ _ _) "h"
  · decide

/-- **Every tick has a text.** -/
theorem text_ne_empty (format : LabelFormat) (value step last : Int) :
    text Rat format value step last ≠ "" := by
  cases format with
  | integer => exact toString_int_ne_empty value
  | frequency =>
    rw [text, frequencyText]
    split
    · exact quotient_ne_empty _ _ _
    · exact quotient_ne_empty _ _ _
  | duration => exact durationText_ne_empty value step
  | count =>
    rw [text, countText]
    split_ifs
    · decide
    · exact scaledText_ne_empty _ _ _
    · exact scaledText_ne_empty _ _ _
    · exact toString_int_ne_empty value

end LabelFormat

/-! ### Legends -/

/-- The colours of all items are in range. -/
def Legend.InRange (legend : Legend Rat) : Prop := ∀ item ∈ legend.items, item.color.InRange

namespace Legend

variable {strip : LegendStrip Rat} (hfont : 0 < strip.fontSize)
  (hcolor : strip.textColor.InRange)

include hfont hcolor

theorem check_label {text : String} (htext : text ≠ "") (x : Rat) :
    (Drawing.text (strip.label text x)).check = .ok () :=
  Label.check_eq_ok_iff.mpr ⟨htext, hfont, by norm_num [LegendStrip.label], hcolor⟩

theorem check_placeItems {items : List (LegendItem Rat × Rat)}
    (hitems : ∀ item ∈ items, item.1.color.InRange) (gap : Bool) (cursor : Rat) :
    ∀ d ∈ placeItems strip gap cursor items, d.check = .ok () := by
  induction items generalizing gap cursor with
  | nil =>
    intro d hd
    exact absurd hd List.not_mem_nil
  | cons item items ih =>
    obtain ⟨hitem, hrest⟩ := List.forall_mem_cons.mp hitems
    -- a swatch is at least one pixel wide
    have hswatch : 0 ≤ strip.swatch := le_trans (by norm_num) (le_max_right _ (1.0 : Rat))
    intro d hd
    rw [placeItems, List.cons_append, List.mem_cons, List.mem_append] at hd
    rcases hd with rfl | hd | hd
    · exact FilledRect.check_eq_ok_iff.mpr ⟨hswatch, hswatch, hitem⟩
    · split at hd
      case isTrue => exact absurd hd List.not_mem_nil
      case isFalse hempty =>
        rw [List.mem_singleton.mp hd]
        refine check_label hfont hcolor ?_ _
        intro htext
        exact hempty (String.isEmpty_iff.mpr htext)
    · exact ih hrest _ _ d hd

/-- **A legend can be drawn**, whatever is measured: a title that has a width has a text. -/
theorem check_layout {legend : Legend Rat} (hlegend : legend.InRange)
    (measure : TextMeasure Rat) :
    ∀ d ∈ legend.layout strip measure, d.check = .ok () := by
  have hitems : ∀ item ∈ legend.measuredItems strip measure, item.1.color.InRange := by
    intro item hitem
    obtain ⟨x, hx, rfl⟩ := List.mem_map.mp hitem
    exact hlegend x hx
  intro d hd
  rw [layout] at hd
  split at hd
  case isTrue htitle =>
    rcases List.mem_cons.mp hd with rfl | hd
    · refine check_label hfont hcolor ?_ _
      intro hempty
      rw [titleWidth, if_pos (String.isEmpty_iff.mpr hempty)] at htitle
      exact lt_irrefl _ htitle
    · exact check_placeItems hfont hcolor hitems _ _ d hd
  case isFalse => exact check_placeItems hfont hcolor hitems _ _ d hd

end Legend

/-! ### Layouts -/

theorem Rect.isDegenerate_eq_false_iff {r : Rect Rat} :
    r.isDegenerate = false ↔ 0 < r.width ∧ 0 < r.height := by
  rw [isDegenerate, Exact.zero_lit, Bool.not_eq_false', Bool.and_eq_true, decide_eq_true_eq,
    decide_eq_true_eq]

namespace Layout

/-- A plot with an area has pixels for each carrier or period, however many there are. -/
theorem scaleX_pos {layout : Layout Rat} (h : layout.plot.isDegenerate = false)
    (count : Nat) :
    0 < layout.scaleX count := by
  have hcount : (0 : Rat) < Scalar.ofNat (max count 1) :=
    Nat.cast_pos.mpr (lt_of_lt_of_le Nat.one_pos (le_max_right _ _))
  exact div_pos (Rect.isDegenerate_eq_false_iff.mp h).1 hcount

variable {m : Metrics Rat} (hm : m.Positive) {color : Color Rat} (hcolor : color.InRange)
  (plot : Rect Rat) (axis : AxisPlan Rat) (step : Int)

include hm hcolor

theorem check_xLabels : ∀ d ∈ xLabels m plot color axis step, d.check = .ok () := by
  intro d hd
  obtain ⟨value, _, rfl⟩ := List.mem_map.mp hd
  exact Label.check_eq_ok_iff.mpr
    ⟨axis.format.text_ne_empty _ _ _, hm.fontSize, by norm_num, hcolor⟩

theorem check_yLabels : ∀ d ∈ yLabels m plot color axis step, d.check = .ok () := by
  have hscale : 0 < yLabelScale axis := by
    rw [yLabelScale, compressedScale]
    split <;> norm_num
  intro d hd
  obtain ⟨value, _, rfl⟩ := List.mem_map.mp hd
  exact Label.check_eq_ok_iff.mpr ⟨axis.format.text_ne_empty _ _ _, hm.fontSize,
    hscale, hcolor⟩

omit hm hcolor

/-- All parts of a layout can be drawn. -/
structure Valid (layout : Layout Rat) : Prop where
  viewport : layout.viewport.isValid = true
  palette : layout.palette.InRange
  metrics : layout.metrics.Positive
  stepX : 0 < layout.stepX
  stepY : 0 < layout.stepY
  labels : ∀ d ∈ layout.labels, d.check = .ok ()
  legend : ∀ d ∈ layout.legend, d.check = .ok ()

/-- **The layout of every chart is valid**, whatever its axes, scale and font size. -/
theorem valid_compute {p : Params Rat} (hp : p.Drawable) (xAxis yAxis : AxisPlan Rat)
    {legend : Option (Legend Rat)} (hlegend : ∀ l ∈ legend, l.InRange)
    (measure : TextMeasure Rat) :
    (compute p xAxis yAxis legend measure).Valid := by
  have hpalette := Palette.inRange_derive hp.background hp.foreground
  have hmetrics := Metrics.positive_of p.scaleFactor_pos
  refine ⟨hp.isValid, hpalette, hmetrics, zero_lt_chooseStep _ _ _ _,
    zero_lt_chooseStep _ _ _ _, ?_, ?_⟩
  · exact List.forall_mem_append.mpr
      ⟨check_xLabels hmetrics hpalette.text _ _ _, check_yLabels hmetrics hpalette.text _ _ _⟩
  · cases legend with
    | none =>
      intro d hd
      exact absurd hd List.not_mem_nil
    | some legend =>
      intro d hd
      replace hd : d ∈ if p.legend = true then legend.layout (stripOf (Metrics.of p.normalize)
        p.normalize (Palette.derive p.background p.foreground).text) measure else [] := hd
      split at hd
      · exact Legend.check_layout hmetrics.fontSize hpalette.text
          (hlegend legend rfl) measure d hd
      · exact absurd hd List.not_mem_nil

namespace Valid

variable {layout : Layout Rat} (h : layout.Valid)

include h

theorem paintBackground : (layout.paintBackground (.empty layout.viewport)).Valid := by
  have hstart := Frame.Valid.empty h.viewport
  have hsurface := hstart.pushRect (d := ⟨⟨0.0, 0.0, Scalar.ofNat layout.viewport.width,
    Scalar.ofNat layout.viewport.height⟩, layout.palette.background⟩) (Nat.cast_nonneg _)
    (Nat.cast_nonneg _) h.palette.background
  refine Frame.Valid.pushStroke ?_ h.metrics.stroke h.palette.grid
  split
  case isTrue => exact hsurface
  case isFalse hplot =>
    have hsize := Rect.isDegenerate_eq_false_iff.mp (Bool.not_eq_true _ ▸ hplot)
    exact hsurface.pushRect hsize.1.le hsize.2.le h.palette.graph

theorem paintAxes {frame : Frame Rat} (hframe : frame.Valid) :
    (layout.paintAxes frame).Valid := by
  have haxes : (frame.pushStroke ⟨layout.axisPath, .identity, layout.palette.text,
      layout.metrics.stroke, .square⟩).Valid :=
        hframe.pushStroke h.metrics.stroke h.palette.text
  exact (haxes.foldl_pushText h.labels).foldl_push h.legend

end Valid

end Layout

end LineCharts
