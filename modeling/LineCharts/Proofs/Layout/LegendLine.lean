/-
The line of a legend, placed and measured, in exact arithmetic.

* `Legend.Line` — the line as far as it is placed, with the cursor behind it;
  `Legend.Line.add` places one more item;
* `Legend.layout_eq_line` — a legend is laid out by adding its items to its title one by one;
* `Legend.Line.cursor_addAll` — the cursor advances by what the items add to
  the width of the line;
* `Legend.Line.Kept` — things stand in order, and end at the cursor; `Legend.Line.Kept.add` —
  also with one more item, and so `Legend.kept_line` all of them;
* `LegendStrip.Positive` — the strip has positive factors; `Layout.positive_stripOf` — so has
  every strip of a layout;
* `Legend.placed_of_positive` — the passes agree on every such strip.

Design notes.  Swatches are at whole pixels, texts are not, and nothing that is rounded goes
into the cursor but its start.
-/
import LineCharts.Proofs.Chart.Containment

namespace LineCharts

section

variable {α : Type} [Scalar α]

/-! ### The line as it is placed -/

namespace LegendStrip

/-- The swatch of an item that starts at `left`. -/
def swatchRect (strip : LegendStrip α) (color : Color α) (left : α) : FilledRect α :=
  ⟨⟨Scalar.round left, Scalar.round (strip.middle - strip.swatch / 2.0), strip.swatch,
    strip.swatch⟩, color⟩

/-- The text of an item that starts at `left`. -/
def itemLabel (strip : LegendStrip α) (text : String) (left : α) : Label α :=
  strip.label text (left + (strip.swatch + strip.swatchGap))

/-- An item that starts at `left`. -/
def drawItem (strip : LegendStrip α) (item : LegendItem α) (left : α) : List (Drawing α) :=
  .rect (strip.swatchRect item.color left) ::
    if item.text.isEmpty then [] else [.text (strip.itemLabel item.text left)]

theorem filterMap_rect?_drawItem (strip : LegendStrip α) (item : LegendItem α) (left : α) :
    (strip.drawItem item left).filterMap Drawing.rect? =
      [strip.swatchRect item.color left] := by
  rw [drawItem]
  split
  · rfl
  · rfl

theorem filterMap_text?_drawItem (strip : LegendStrip α) (item : LegendItem α) (left : α) :
    (strip.drawItem item left).filterMap Drawing.text? =
      if item.text.isEmpty then [] else [strip.itemLabel item.text left] := by
  rw [drawItem]
  split
  · rfl
  · rfl

end LegendStrip

namespace Legend

/-- The line of a legend as far as it is placed. -/
structure Line (α : Type) where
  /-- Behind what is placed. -/
  cursor : α
  /-- A gap is in front of the next item. -/
  gap : Bool
  drawings : List (Drawing α)

namespace Line

variable (strip : LegendStrip α) (measure : TextMeasure α)

/-- Where the next item starts. -/
def left (line : Line α) : α := if line.gap then line.cursor + strip.itemGap else line.cursor

/-- The line with one more item. -/
def add (line : Line α) (item : LegendItem α) : Line α where
  cursor :=
    line.left strip + (strip.swatch + strip.swatchGap) + measure item.text strip.fontSize
  gap := true
  drawings := line.drawings ++ strip.drawItem item (line.left strip)

/-- The line with some more items. -/
def addAll (line : Line α) (items : List (LegendItem α)) : Line α :=
  items.foldl (add strip measure) line

/-- Items are placed from the cursor on. -/
theorem drawings_addAll (line : Line α) (items : List (LegendItem α)) :
    (line.addAll strip measure items).drawings =
      line.drawings ++ placeItems strip line.gap line.cursor
      (items.map fun item => (item, measure item.text strip.fontSize)) := by
  induction items generalizing line with
  | nil => exact (List.append_nil _).symm
  | cons item items ih =>
    refine (ih (line.add strip measure item)).trans ?_
    rw [add, List.append_assoc]
    rfl

end Line

variable (legend : Legend α) (strip : LegendStrip α) (measure : TextMeasure α)

/-- The line with the title, where that has a width. -/
def titleLine : Line α :=
  let title := legend.titleWidth strip measure
  let start := legend.lineStart strip measure
  if 0.0 < title then ⟨start + title, true, [.text (strip.label legend.title start)]⟩
  else ⟨start, false, []⟩

/-- The whole line. -/
def line : Line α := (legend.titleLine strip measure).addAll strip measure legend.items

/-- **A legend is laid out by adding its items one by one.** -/
theorem layout_eq_line :
    legend.layout strip measure = (legend.line strip measure).drawings := by
  rw [line, Line.drawings_addAll, layout, titleLine]
  split
  · rfl
  · rfl

end Legend

end

/-! ### The cursor -/

/-- The factors of a strip are positive. -/
structure LegendStrip.Positive (strip : LegendStrip Rat) : Prop where
  fontFactor : 0 < strip.fontFactor
  scaleFactor : 0 < strip.scaleFactor

/-- **The strips of layouts have positive factors**, whatever the parameters. -/
theorem Layout.positive_stripOf (params : Params Rat) (textColor : Color Rat) :
    (stripOf (Metrics.of params.normalize) params.normalize textColor).Positive where
  fontFactor := Metrics.fontFactor_pos _
  scaleFactor := (Metrics.positive_of params.scaleFactor_pos).scale

namespace LegendStrip

variable {strip : LegendStrip Rat}

theorem Positive.itemGap_pos (h : strip.Positive) : 0 < strip.itemGap :=
  mul_pos (mul_pos (by norm_num) h.fontFactor) h.scaleFactor

theorem Positive.swatchGap_pos (h : strip.Positive) : 0 < strip.swatchGap :=
  mul_pos (mul_pos (by norm_num) h.fontFactor) h.scaleFactor

/-- A swatch is at least one pixel wide. -/
theorem one_le_swatch (strip : LegendStrip Rat) : 1 ≤ strip.swatch := by
  rw [← Exact.one_lit]
  exact le_max_right _ _

end LegendStrip

namespace Legend

/-- **The cursor advances by what the items add to the width.** -/
theorem Line.cursor_addAll (strip : LegendStrip Rat) (measure : TextMeasure Rat)
    (line : Line Rat) (items : List (LegendItem Rat)) (total : Rat) :
    (line.addAll strip measure items).cursor - line.cursor = addItems strip line.gap total
      (items.map fun item => (item, measure item.text strip.fontSize)) - total := by
  induction items generalizing line total with
  | nil => exact (sub_self _).trans (sub_self _).symm
  | cons item items ih =>
    -- both passes add the same to what they have
    let space := (if line.gap then strip.itemGap else 0) +
      (strip.swatch + strip.swatchGap + measure item.text strip.fontSize)
    have hplaced : (line.add strip measure item).cursor = line.cursor + space := by
      simp only [add, left, space]
      split <;> ring
    have hmeasured : addItems strip line.gap total
        ((item :: items).map fun item => (item, measure item.text strip.fontSize)) =
          addItems strip true (total + space)
            (items.map fun item => (item, measure item.text strip.fontSize)) := by
      simp only [List.map_cons, addItems, space]
      congr 1
      split <;> ring
    have hrest := ih (line.add strip measure item) (total + space)
    rw [hmeasured]
    rw [hplaced] at hrest
    calc (line.addAll strip measure (item :: items)).cursor - line.cursor
        = ((line.add strip measure item).addAll strip measure items).cursor -
            (line.cursor + space) + space := by
          rw [sub_add_eq_sub_sub, sub_add_cancel]
          rfl
      _ = _ := by
          rw [hrest, sub_add_eq_sub_sub, sub_add_cancel]
          rfl

variable {strip : LegendStrip Rat} {measure : TextMeasure Rat}

section

variable (hmeasure : ∀ text, 0 ≤ measure text strip.fontSize) (legend : Legend Rat)

include hmeasure

theorem titleWidth_nonneg : 0 ≤ legend.titleWidth strip measure := by
  rw [titleWidth]
  split
  · exact Exact.zero_lit.ge
  · exact hmeasure _

theorem cursor_titleLine : (legend.titleLine strip measure).cursor =
    legend.lineStart strip measure + legend.titleWidth strip measure := by
  rw [titleLine]
  split
  case isTrue => rfl
  case isFalse h =>
    rw [Exact.zero_lit, not_lt] at h
    rw [le_antisymm h (titleWidth_nonneg hmeasure legend), add_zero]

/-- **The cursor advances by the width of the line.** -/
theorem cursor_line : (legend.line strip measure).cursor =
    legend.lineStart strip measure + legend.width strip measure := by
  have hgap : (legend.titleLine strip measure).gap =
      decide (0.0 < legend.titleWidth strip measure) := by
    rw [titleLine]
    split
    case isTrue h => exact (decide_eq_true h).symm
    case isFalse h => exact (decide_eq_false h).symm
  have hitems := (legend.titleLine strip measure).cursor_addAll strip measure legend.items
    (legend.titleWidth strip measure)
  rw [hgap, cursor_titleLine hmeasure] at hitems
  rw [width, measuredItems, line]
  linarith

end

/-! ### Things in order -/

/-- Things stand in order, to the right of the edge of the surface, and end at the cursor:
swatches up to the rounding to whole pixels. -/
structure Line.Kept (measure : TextMeasure Rat) (line : Line Rat) : Prop where
  cursor : 0 ≤ line.cursor
  texts : (line.drawings.filterMap Drawing.text?).Pairwise fun d e => d.x ≤ e.x
  text_mem : ∀ d ∈ line.drawings.filterMap Drawing.text?,
    d.align = .left ∧ 0 ≤ d.x ∧ d.x ≤ line.cursor ∧
      d.x + measure d.text d.fontSize ≤ line.cursor
  swatches : (line.drawings.filterMap Drawing.rect?).Pairwise fun d e => d.rect.x ≤ e.rect.x
  swatch_mem : ∀ d ∈ line.drawings.filterMap Drawing.rect?,
    0 ≤ d.rect.x ∧ d.rect.x ≤ Scalar.round line.cursor ∧ d.rect.right ≤ line.cursor + 1 / 2

theorem pairwise_concat {τ : Type} {r : τ → τ → Prop} {l : List τ} (hl : l.Pairwise r) {x : τ}
    (hx : ∀ y ∈ l, r y x) : (l ++ [x]).Pairwise r :=
  List.pairwise_append.mpr ⟨hl, List.pairwise_singleton _ _,
    fun y hy _ hz => List.mem_singleton.mp hz ▸ hx y hy⟩

section

variable (hmeasure : ∀ text, 0 ≤ measure text strip.fontSize)

include hmeasure

theorem kept_titleLine (legend : Legend Rat) :
    (legend.titleLine strip measure).Kept measure := by
  have hstart : 0 ≤ legend.lineStart strip measure := by
    refine Int.cast_nonneg (Exact.round_nonneg ?_)
    rw [Exact.zero_lit]
    exact le_max_right _ _
  have hcursor : 0 ≤ (legend.titleLine strip measure).cursor := by
    rw [cursor_titleLine hmeasure]
    exact add_nonneg hstart (titleWidth_nonneg hmeasure legend)
  rw [titleLine] at hcursor ⊢
  split
  case isFalse => exact ⟨hstart, .nil, List.forall_mem_nil _, .nil, List.forall_mem_nil _⟩
  case isTrue htitle =>
    rw [if_pos htitle] at hcursor
    refine ⟨hcursor, List.pairwise_singleton _ _, ?_, .nil, List.forall_mem_nil _⟩
    intro d hd
    obtain rfl := List.mem_singleton.mp hd
    have hwidth : legend.titleWidth strip measure = measure legend.title strip.fontSize := by
      rw [titleWidth]
      refine if_neg fun hempty => ?_
      rw [titleWidth, if_pos hempty] at htitle
      exact lt_irrefl _ htitle
    exact ⟨rfl, hstart, le_add_of_nonneg_right (titleWidth_nonneg hmeasure legend),
      (add_le_add_iff_left _).mpr hwidth.ge⟩

variable (hstrip : strip.Positive)

include hstrip

/-- **One more item stands behind all that is there.** -/
theorem Line.Kept.add {line : Line Rat} (h : line.Kept measure) (item : LegendItem Rat) :
    (line.add strip measure item).Kept measure := by
  have hleft : line.cursor ≤ line.left strip := by
    rw [left]
    split
    · exact le_add_of_nonneg_right hstrip.itemGap_pos.le
    · exact le_rfl
  have hgap := hstrip.swatchGap_pos
  have hswatch := strip.one_le_swatch
  have hwidth := hmeasure item.text
  have hcursor : line.cursor ≤ (line.add strip measure item).cursor := by
    rw [Line.add]
    linarith
  constructor
  case cursor => exact h.cursor.trans hcursor
  case texts =>
    rw [Line.add, List.filterMap_append, strip.filterMap_text?_drawItem]
    split
    · rw [List.append_nil]
      exact h.texts
    · refine pairwise_concat h.texts fun d hd => ?_
      have hd := (h.text_mem d hd).2.2.1
      rw [LegendStrip.itemLabel, LegendStrip.label]
      linarith
  case text_mem =>
    intro d hd
    rw [Line.add, List.filterMap_append, strip.filterMap_text?_drawItem,
      List.mem_append] at hd
    rcases hd with hd | hd
    · obtain ⟨halign, hpos, hle, hend⟩ := h.text_mem d hd
      exact ⟨halign, hpos, hle.trans hcursor, hend.trans hcursor⟩
    · split at hd
      · exact absurd hd List.not_mem_nil
      · obtain rfl := List.mem_singleton.mp hd
        have hpos := h.cursor
        rw [Line.add, LegendStrip.itemLabel, LegendStrip.label]
        exact ⟨rfl, by linarith, le_add_of_nonneg_right hwidth, le_rfl⟩
  case swatches =>
    rw [Line.add, List.filterMap_append, strip.filterMap_rect?_drawItem]
    refine pairwise_concat h.swatches fun d hd => (h.swatch_mem d hd).2.1.trans ?_
    exact Int.cast_le.mpr (Exact.round_mono hleft)
  case swatch_mem =>
    intro d hd
    rw [Line.add, List.filterMap_append, strip.filterMap_rect?_drawItem,
      List.mem_append] at hd
    rcases hd with hd | hd
    · obtain ⟨hpos, hle, hend⟩ := h.swatch_mem d hd
      exact ⟨hpos, hle.trans (Int.cast_le.mpr (Exact.round_mono hcursor)), by linarith⟩
    · obtain rfl := List.mem_singleton.mp hd
      have hbefore : line.left strip ≤ (line.add strip measure item).cursor := by
        rw [Line.add]
        linarith
      refine ⟨Int.cast_nonneg (Exact.round_nonneg (h.cursor.trans hleft)),
        Int.cast_le.mpr (Exact.round_mono hbefore), ?_⟩
      have hround := (abs_le.mp (Exact.abs_round_sub_le (line.left strip))).2
      show (Exact.round (line.left strip) : Rat) + strip.swatch ≤ _
      rw [Line.add]
      linarith

theorem Line.Kept.addAll {line : Line Rat} (h : line.Kept measure)
    (items : List (LegendItem Rat)) :
    (line.addAll strip measure items).Kept measure := by
  induction items generalizing line with
  | nil => exact h
  | cons item items ih => exact ih (h.add hmeasure hstrip item)

/-- **The whole line is in order.** -/
theorem kept_line (legend : Legend Rat) : (legend.line strip measure).Kept measure :=
  (kept_titleLine hmeasure legend).addAll hmeasure hstrip legend.items

end

end Legend

/-! ### Both passes -/

/-- A rectangle, or a text that starts at its anchor, is between two places. -/
def Drawing.Between (measure : TextMeasure Rat) (low high : Rat) : Drawing Rat → Prop
  | .rect d => low ≤ d.rect.x ∧ d.rect.right ≤ high
  | .text d => d.align = .left ∧ low ≤ d.x ∧ d.x + measure d.text d.fontSize ≤ high
  | _ => False

namespace Legend

/-- The pass that places a legend agrees with the pass that measures it: from the start of the
line the cursor advances by the measured width.  Things are placed in order, from left to
right, and on the surface in its middle if the line is not wider. -/
structure Placed (legend : Legend Rat) (strip : LegendStrip Rat) (measure : TextMeasure Rat) :
    Prop where
  drawings : legend.layout strip measure = (legend.line strip measure).drawings
  advance : (legend.line strip measure).cursor - legend.lineStart strip measure =
    legend.width strip measure
  order : (legend.layout strip measure).map Drawing.piece? =
    (legend.pieces strip measure).map some
  texts : ((legend.layout strip measure).filterMap Drawing.text?).Pairwise fun d e =>
    d.x ≤ e.x
  swatches : ((legend.layout strip measure).filterMap Drawing.rect?).Pairwise fun d e =>
    d.rect.x ≤ e.rect.x
  inside : legend.width strip measure ≤ strip.surfaceWidth →
    ∀ d ∈ legend.layout strip measure, d.Between measure 0 (strip.surfaceWidth + 1)
  centred : legend.width strip measure ≤ strip.surfaceWidth →
    |legend.lineStart strip measure -
      (strip.surfaceWidth - legend.width strip measure) / 2| ≤ 1 / 2

/-- A line that is not wider than the surface stands in its middle, up to the
rounding of its start. -/
theorem abs_lineStart_sub_le {legend : Legend Rat} {strip : LegendStrip Rat}
    {measure : TextMeasure Rat} (h : legend.width strip measure ≤ strip.surfaceWidth) :
    |legend.lineStart strip measure -
      (strip.surfaceWidth - legend.width strip measure) / 2| ≤ 1 / 2 := by
  have hmiddle : legend.lineStart strip measure =
      Exact.round ((strip.surfaceWidth - legend.width strip measure) / 2) := by
    have hnonneg : 0 ≤ (strip.surfaceWidth - legend.width strip measure) / 2 := by linarith
    have htwo : (2.0 : Rat) = 2 := by norm_num
    rw [lineStart, htwo, Exact.zero_lit, max_eq_left hnonneg]
    rfl
  rw [hmiddle]
  exact Exact.abs_round_sub_le _

/-- What is placed in order is on the surface, if the line is not wider. -/
theorem Line.Kept.between {legend : Legend Rat} {strip : LegendStrip Rat}
    {measure : TextMeasure Rat} (hkept : (legend.line strip measure).Kept measure)
    (hcursor : (legend.line strip measure).cursor =
      legend.lineStart strip measure + legend.width strip measure)
    (h : legend.width strip measure ≤ strip.surfaceWidth) :
    ∀ d ∈ legend.layout strip measure, d.Between measure 0 (strip.surfaceWidth + 1) := by
  have hcentred := (abs_le.mp (abs_lineStart_sub_le h)).2
  have hend : (legend.line strip measure).cursor ≤ strip.surfaceWidth + 1 / 2 := by linarith
  intro d hd
  have hplace := hd
  rw [layout_eq_line] at hplace
  rcases exists_of_mem_layout hd with ⟨r, rfl⟩ | ⟨t, rfl⟩
  · obtain ⟨hpos, -, hright⟩ := hkept.swatch_mem r (List.mem_filterMap.mpr ⟨_, hplace, rfl⟩)
    exact ⟨hpos, by linarith⟩
  · obtain ⟨halign, hpos, -, hright⟩ :=
      hkept.text_mem t (List.mem_filterMap.mpr ⟨_, hplace, rfl⟩)
    exact ⟨halign, hpos, by linarith⟩

/-- **Both passes over a legend agree** on every strip with positive factors, with
every measure of texts that are not narrower than nothing; and the strips of all
layouts have such factors. -/
theorem placed_of_positive :
    (∀ (params : Params Rat) (textColor : Color Rat),
      (Layout.stripOf (.of params.normalize) params.normalize textColor).Positive) ∧
    ∀ (strip : LegendStrip Rat) (measure : TextMeasure Rat), strip.Positive →
      (∀ text, 0 ≤ measure text strip.fontSize) →
        ∀ legend : Legend Rat, legend.Placed strip measure := by
  refine ⟨Layout.positive_stripOf, fun strip measure hstrip hmeasure legend => ?_⟩
  have hkept := kept_line hmeasure hstrip legend
  have hcursor := cursor_line hmeasure legend
  constructor
  case drawings => exact legend.layout_eq_line strip measure
  case advance => rw [hcursor, add_sub_cancel_left]
  case order => exact legend.map_piece?_layout measure
  case texts => exact legend.layout_eq_line strip measure ▸ hkept.texts
  case swatches => exact legend.layout_eq_line strip measure ▸ hkept.swatches
  case inside => exact hkept.between hcursor
  case centred => exact abs_lineStart_sub_le

/-- A title and two items on the strip below a chart. -/
theorem placed_directions :
    let strip : LegendStrip Rat := ⟨560, 114, 18, 10.5, 1, 1, 3.5, .solid 0 0 0⟩
    let legend : Legend Rat := ⟨"Title", [⟨.solid 0 0 1, "Down"⟩, ⟨.solid 0 1 0, "Up"⟩]⟩
    legend.width strip approximateWidth ≤ strip.surfaceWidth ∧
      (legend.layout strip approximateWidth).length = 5 ∧
        legend.Placed strip approximateWidth := by
  intro strip legend
  have hmeasure : ∀ text, 0 ≤ (approximateWidth : TextMeasure Rat) text strip.fontSize := by
    intro text
    have hlength : (0 : Rat) ≤ text.length := Nat.cast_nonneg _
    have hadvance : (0 : Rat) ≤ averageAdvance := by norm_num [averageAdvance]
    exact mul_nonneg (mul_nonneg hlength (by norm_num [strip])) hadvance
  exact ⟨by decide +kernel, by decide +kernel,
    placed_of_positive.2 strip approximateWidth ⟨one_pos, one_pos⟩ hmeasure legend⟩

end Legend

end LineCharts
