/-
The things of one sort on a frame.

* `Frame.select` — those that a question picks out, in order; `Frame.fills`, `Frame.texts` and
  `Frame.layers` are such;
* `Frame.select_push`, `Frame.select_pushFill` and the like — what one more thing adds;
* `Legend.pieces` — what a legend has to show, in order; `Legend.map_piece?_layout` —
  that is what is drawn;
* `Legend.exists_of_mem_layout` — so a legend is drawn as rectangles and texts;
* `Legend.texts_layout` — which texts these are;
* `Layout.select_drawn` — the things on the frame of a chart: what the data adds,
  labels, and the legend.
-/
import LineCharts.Proofs.Chart.Changes

namespace LineCharts

variable {α β : Type}

/-! ### One sort of things -/

namespace Drawing

/-- The fill, if it is one. -/
def fill? : Drawing α → Option (FilledPath α)
  | .fill d => some d
  | _ => none

/-- The text, if it is one. -/
def text? : Drawing α → Option (Label α)
  | .text d => some d
  | _ => none

/-- The layer, if it is one. -/
def layer? : Drawing α → Option (Layer α)
  | .layer d => some d
  | _ => none

/-- The rectangle, if it is one. -/
def rect? : Drawing α → Option (FilledRect α)
  | .rect d => some d
  | _ => none

end Drawing

namespace Frame

/-- The things that `pick` picks out, in order. -/
def select (pick : Drawing α → Option β) (frame : Frame α) : List β :=
  frame.drawings.toList.filterMap pick

theorem fills_eq (frame : Frame α) : frame.fills = frame.select Drawing.fill? := rfl

theorem texts_eq (frame : Frame α) : frame.texts = frame.select Drawing.text? := rfl

theorem layers_eq (frame : Frame α) : frame.layers = frame.select Drawing.layer? := rfl

variable {pick : Drawing α → Option β} (frame : Frame α)

theorem select_push (d : Drawing α) :
    (frame.push d).select pick = frame.select pick ++ (pick d).toList := by
  rw [select, push, Array.toList_push, List.filterMap_append, select]
  cases hd : pick d <;> simp [hd]

theorem select_push_of_none {d : Drawing α} (h : pick d = none) :
    (frame.push d).select pick = frame.select pick := by
  rw [select_push, h]
  exact List.append_nil _

theorem select_foldl_push (ds : List (Drawing α)) :
    (ds.foldl push frame).select pick = frame.select pick ++ ds.filterMap pick := by
  induction ds generalizing frame with
  | nil => exact (List.append_nil _).symm
  | cons d ds ih =>
    rw [List.foldl_cons, ih, select_push, List.append_assoc]
    cases hd : pick d <;> simp [hd]

theorem select_pushFill (h : ∀ d, pick (.fill d) = none) (d : FilledPath α) :
    (frame.pushFill d).select pick = frame.select pick := by
  rw [pushFill]
  split
  · rfl
  · exact frame.select_push_of_none (h d)

theorem select_pushStroke (h : ∀ d, pick (.stroke d) = none) (d : StrokedPath α) :
    (frame.pushStroke d).select pick = frame.select pick := by
  rw [pushStroke]
  split
  · rfl
  · exact frame.select_push_of_none (h d)

theorem select_pushLayer (h : ∀ d, pick (.layer d) = none) (d : Layer α) :
    (frame.pushLayer d).select pick = frame.select pick := by
  rw [pushLayer]
  split
  · rfl
  · exact frame.select_push_of_none (h d)

/-- A fill is added unless its path is empty. -/
theorem fills_pushFill (d : FilledPath α) :
    (frame.pushFill d).fills = frame.fills ++ [d].filter fun d => !d.path.isEmpty := by
  rw [pushFill]
  cases h : d.path.isEmpty with
  | true => simp [h]
  | false =>
    rw [fills_eq, if_neg Bool.false_ne_true, select_push]
    simp [h, Drawing.fill?, fills_eq]

theorem fills_pushStroke (d : StrokedPath α) : (frame.pushStroke d).fills = frame.fills :=
  frame.select_pushStroke (fun _ => rfl) d

theorem fills_pushLayer (d : Layer α) : (frame.pushLayer d).fills = frame.fills :=
  frame.select_pushLayer (fun _ => rfl) d

/-- A layer is added unless all its paths are empty. -/
theorem layers_pushLayer (d : Layer α) : (frame.pushLayer d).layers =
    frame.layers ++ [d].filter fun d => !d.strokes.all fun s => s.stroke.path.isEmpty := by
  rw [pushLayer]
  cases h : d.strokes.all fun s => s.stroke.path.isEmpty with
  | true => simp [h]
  | false =>
    rw [layers_eq, if_neg Bool.false_ne_true, select_push]
    simp [h, Drawing.layer?, layers_eq]

end Frame

/-! ### Legends -/

/-- One thing to show in a legend. -/
inductive Legend.Piece (α : Type) where
  | swatch (color : Color α)
  | text (text : String)

/-- What a drawing shows in a legend. -/
def Drawing.piece? : Drawing α → Option (Legend.Piece α)
  | .rect d => some (.swatch d.color)
  | .text d => some (.text d.text)
  | _ => none

/-- An item is shown by a swatch, and by its text unless that is empty. -/
def LegendItem.pieces (item : LegendItem α) : List (Legend.Piece α) :=
  .swatch item.color :: if item.text.isEmpty then [] else [.text item.text]

variable [Scalar α]

/-- A legend shows its title, where that has a width, and then its items. -/
def Legend.pieces (legend : Legend α) (strip : LegendStrip α) (measure : TextMeasure α) :
    List (Piece α) :=
  (if 0.0 < legend.titleWidth strip measure then [.text legend.title] else []) ++
    legend.items.flatMap LegendItem.pieces

namespace Legend

variable {strip : LegendStrip α}

theorem map_piece?_placeItems (gap : Bool) (cursor : α) (items : List (LegendItem α × α)) :
    (placeItems strip gap cursor items).map Drawing.piece? =
      ((items.map Prod.fst).flatMap LegendItem.pieces).map some := by
  induction items generalizing gap cursor with
  | nil => rfl
  | cons item items ih =>
    obtain ⟨item, width⟩ := item
    rw [placeItems, List.map_append, ih]
    show _ = (item.pieces ++ (items.map Prod.fst).flatMap LegendItem.pieces).map some
    rw [List.map_append, LegendItem.pieces]
    cases item.text.isEmpty with
    | true => rfl
    | false => rfl

/-- **What a legend shows is placed in order.** -/
theorem map_piece?_layout (legend : Legend α) (measure : TextMeasure α) :
    (legend.layout strip measure).map Drawing.piece? =
      (legend.pieces strip measure).map some := by
  have hitems : (legend.measuredItems strip measure).map Prod.fst = legend.items := by
    rw [measuredItems, List.map_map]
    exact List.map_id _
  rw [layout, pieces, List.map_append, ← hitems]
  split
  · exact congrArg (some (Piece.text legend.title) :: ·) (map_piece?_placeItems _ _ _)
  · exact map_piece?_placeItems _ _ _

/-- **A legend is drawn as rectangles and texts.** -/
theorem exists_of_mem_layout {legend : Legend α} {measure : TextMeasure α} {d : Drawing α}
    (hd : d ∈ legend.layout strip measure) : (∃ r, d = .rect r) ∨ ∃ t, d = .text t := by
  have hpiece := List.mem_map_of_mem (f := Drawing.piece?) hd
  rw [map_piece?_layout, List.mem_map] at hpiece
  obtain ⟨piece, -, hpiece⟩ := hpiece
  cases d with
  | rect r => exact .inl ⟨r, rfl⟩
  | text t => exact .inr ⟨t, rfl⟩
  | fill d => cases hpiece
  | stroke d => cases hpiece
  | layer d => cases hpiece

/-- The texts of some things to draw. -/
def texts (ds : List (Drawing α)) : List String := (ds.filterMap Drawing.text?).map Label.text

theorem texts_placeItems (gap : Bool) (cursor : α) (items : List (LegendItem α × α)) :
    texts (placeItems strip gap cursor items) =
      (items.map (·.1.text)).filter fun text => !text.isEmpty := by
  induction items generalizing gap cursor with
  | nil => rfl
  | cons item items ih =>
    obtain ⟨item, width⟩ := item
    rw [placeItems, List.map_cons, List.filter_cons]
    cases hempty : item.text.isEmpty with
    | true => exact ih _ _
    | false => exact congrArg (item.text :: ·) (ih _ _)

/-- **The texts of a legend**: its title, where that has a width, and those of its items. -/
theorem texts_layout (legend : Legend α) (measure : TextMeasure α) :
    texts (legend.layout strip measure) =
    (if 0.0 < legend.titleWidth strip measure then [legend.title] else []) ++
      (legend.items.map (·.text)).filter fun text => !text.isEmpty := by
  have hitems : (legend.measuredItems strip measure).map (·.1.text) =
      legend.items.map (·.text) := by
    rw [measuredItems, List.map_map]
    rfl
  rw [layout]
  split
  · exact congrArg (legend.title :: ·) ((texts_placeItems _ _ _).trans (congrArg _ hitems))
  · rw [texts_placeItems, hitems, List.nil_append]

end Legend

/-! ### Layouts -/

namespace Layout

variable {layout : Layout α}

/-- The legend of a layout is drawn as rectangles and texts. -/
theorem exists_of_mem_legend_compute {params : Params α} {xAxis yAxis : AxisPlan α}
    {legend : Option (Legend α)} {measure : TextMeasure α} {d : Drawing α}
    (hd : d ∈ (compute params xAxis yAxis legend measure).legend) :
    (∃ r, d = .rect r) ∨ ∃ t, d = .text t := by
  cases legend with
  | none => exact absurd hd List.not_mem_nil
  | some legend =>
    replace hd :
      d ∈ if params.normalize.legend then legend.layout
      (stripOf (Metrics.of params.normalize) params.normalize
      (Palette.derive params.normalize.background params.normalize.foreground).text)
        measure else [] := hd
    split at hd
    · exact Legend.exists_of_mem_layout hd
    · exact absurd hd List.not_mem_nil

variable {pick : Drawing α → Option β} (hrect : ∀ d, pick (.rect d) = none)
  (hstroke : ∀ d, pick (.stroke d) = none)

include hstroke

include hrect in
/-- Behind the data there are rectangles and strokes. -/
theorem select_paintBackground (layout : Layout α) :
    (layout.paintBackground (.empty layout.viewport)).select pick = [] := by
  rw [paintBackground, Frame.select_pushStroke _ hstroke]
  split
  · exact Frame.select_push_of_none _ (hrect _)
  · rw [Frame.pushRect, Frame.select_push_of_none _ (hrect _)]
    exact Frame.select_push_of_none _ (hrect _)

/-- **The things on the frame of a chart**: those that the data adds,
labels, and the legend. -/
theorem select_drawn (hplot : layout.plot.isDegenerate = false)
    (paint : Layout α → AxisRange α → Frame α → Frame α) (range : AxisRange α) :
    (layout.drawn paint range).select pick =
      (paint layout range (layout.paintBackground (.empty layout.viewport))).select pick ++
        (layout.labels.map Drawing.text).filterMap pick ++ layout.legend.filterMap pick := by
  have hlabels (frame : Frame α) : layout.labels.foldl Frame.pushText frame =
      (layout.labels.map Drawing.text).foldl Frame.push frame :=
    (List.foldl_map (f := Drawing.text) (g := Frame.push)).symm
  rw [drawn, hplot, paintAxes, hlabels, Frame.select_foldl_push, Frame.select_foldl_push,
    Frame.select_pushStroke _ hstroke]
  rfl

include hrect in
/-- Things that are no rectangles, strokes and texts come from the data only. -/
theorem select_drawn_of_none (htext : ∀ d, pick (.text d) = none)
    (hplot : layout.plot.isDegenerate = false)
    (hlegend : ∀ d ∈ layout.legend, (∃ r, d = .rect r) ∨ ∃ t, d = .text t)
    (paint : Layout α → AxisRange α → Frame α → Frame α) (range : AxisRange α) :
    (layout.drawn paint range).select pick =
      (paint layout range (layout.paintBackground (.empty layout.viewport))).select pick := by
  have hlabels : (layout.labels.map Drawing.text).filterMap pick = [] := by
    rw [List.filterMap_map]
    exact List.filterMap_eq_nil_iff.mpr fun label _ => htext label
  have hrest : layout.legend.filterMap pick = [] := by
    refine List.filterMap_eq_nil_iff.mpr fun d hd => ?_
    rcases hlegend d hd with ⟨r, rfl⟩ | ⟨t, rfl⟩
    · exact hrect r
    · exact htext t
  rw [select_drawn hstroke hplot, hlabels, hrest, List.append_nil, List.append_nil]

end Layout

end LineCharts
