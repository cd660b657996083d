/-
Where charts have the origin of their data, in exact arithmetic.

* `Drawing.PlacesOrigin` — a drawing has the origin of its coordinates at
  a point of the surface;
* `ChartKind.Rooted` — all that is painted for the data has it at the lower left corner of the
  plot, but for what is painted behind;
* `BitLoading.rooted` and its siblings — so it is for all kinds, whatever
  the layout and the data;
* `Transform.compose` — maps are put together in the order in which they are in use, texts are
  compressed towards their anchors, and charts start at the corners of their plots.

Design notes.  The shades of bands are drawn in the pixels of the surface.  Those of
periods without samples reach below the plot, over the line of the axis, so they
start lower by its width.
-/
import LineCharts.Proofs.Chart.Valid
import LineCharts.Proofs.Geometry.Composition

namespace LineCharts

variable {δ : Type}

/-- A drawing has the origin of its coordinates at a point of the surface.  The strokes of a
layer are drawn from the corner of the layer. -/
def Drawing.PlacesOrigin (p : Point Rat) : Drawing Rat → Prop
  | .fill d => d.transform.PlacesOrigin p
  | .stroke d => d.transform.PlacesOrigin p
  | .layer d => ∀ s ∈ d.strokes,
    s.stroke.transform.PlacesOrigin ⟨p.x - d.rect.x, p.y - d.rect.y⟩
  | .rect _ => False
  | .text _ => False

namespace Layout

/-- The lower left corner of the plot. -/
def origin (layout : Layout Rat) : Point Rat := ⟨layout.plot.x, layout.plot.bottom⟩

theorem placesOrigin_upright (layout : Layout Rat) (sx sy : Rat) :
    (Transform.upright layout.plot.x layout.plot.bottom sx sy).PlacesOrigin layout.origin :=
  Transform.placesOrigin_upright _ _ _ _

/-- A layer on the plot has the corner at its own lower end. -/
theorem placesOrigin_layer (layout : Layout Rat) (sx sy : Rat) :
    (Transform.upright 0.0 layout.plot.height sx sy).PlacesOrigin
      ⟨layout.origin.x - layout.plot.x, layout.origin.y - layout.plot.y⟩ := by
  have hcorner : (⟨0.0, layout.plot.height⟩ : Point Rat) =
      ⟨layout.origin.x - layout.plot.x, layout.origin.y - layout.plot.y⟩ := by
    simp [origin, Rect.bottom]
  rw [← hcorner]
  exact Transform.placesOrigin_upright _ _ _ _

end Layout

/-- All that a chart paints for its data starts at the lower left corner of the plot, but for
what is painted behind. -/
def ChartKind.Rooted (kind : ChartKind Rat δ)
    (behind : δ → Layout Rat → Frame Rat → Frame Rat) : Prop :=
  ∀ (data : δ) (layout : Layout Rat) (range : AxisRange Rat) (frame : Frame Rat),
    (kind.paint data layout range frame).All fun d =>
      d ∈ (behind data layout frame).drawings.toList ∨ d.PlacesOrigin layout.origin

/-- What is there already is behind. -/
theorem Frame.all_behind (meets : Drawing Rat → Prop) (behind : Frame Rat) :
    behind.All fun d => d ∈ behind.drawings.toList ∨ meets d :=
  fun _ hd => .inl hd

/-! ### Carriers -/

/-- The bands of a snapshot, if there is one. -/
def Carriers.backdrop (colored : Bool) (bins : Option (Bins Rat)) (layout : Layout Rat)
    (frame : Frame Rat) :
    Frame Rat :=
  bins.elim frame fun bins => paintBands bins layout colored frame

theorem BitLoading.rooted : ChartKind.Rooted kind (Carriers.backdrop false) := by
  intro bins layout range frame
  cases bins with
  | none => exact frame.all_behind _
  | some bins =>
    refine (((Frame.all_behind _ _).pushStroke ?_).pushFill ?_).pushFill ?_
    all_goals exact .inr (layout.placesOrigin_upright _ _)

/-- An area starts at the corner of the plot. -/
theorem Carriers.rooted_area (rule : LimitRule Rat) (bins : Bins Rat)
    (series : PerDirection (CarrierSeries Rat)) (layout : Layout Rat) (range : AxisRange Rat)
    (behind : Frame Rat) :
    (paintArea rule bins series layout range behind).All fun d =>
      d ∈ behind.drawings.toList ∨ d.PlacesOrigin layout.origin :=
  (behind.all_behind _).pushFill (.inr (layout.placesOrigin_upright _ _))

/-- Charts of a limit rule start at the corner, if what is in front of the bands does. -/
theorem ChartKind.Ruled.rooted {kind : ChartKind Rat (Option (Bins Rat))}
    {rule : LimitRule Rat} {series : Bins Rat → PerDirection (CarrierSeries Rat)}
    {front : Bins Rat → Layout Rat → AxisRange Rat → Frame Rat → Frame Rat}
    (h : kind.Ruled rule series front)
    (hfront : ∀ bins (layout : Layout Rat) (range : AxisRange Rat) (behind : Frame Rat),
      (front bins layout range behind).All fun d => d ∈ behind.drawings.toList ∨
      d.PlacesOrigin layout.origin) :
    kind.Rooted (Carriers.backdrop true) := by
  intro bins layout range frame
  cases bins with
  | none =>
    rw [h.paint_none]
    exact frame.all_behind _
  | some bins =>
    rw [h.paint_some]
    exact hfront bins layout range _

theorem LineNoise.rooted : ChartKind.Rooted kind (Carriers.backdrop true) :=
  ruled.rooted fun bins layout range _ =>
    Carriers.rooted_area limits bins bins.qln layout range _

theorem Characteristic.rooted : ChartKind.Rooted kind (Carriers.backdrop true) :=
  ruled.rooted fun _ layout _ _ =>
    (Frame.all_behind _ _).pushStroke (.inr (layout.placesOrigin_upright _ _))

theorem SignalToNoise.rooted :
    ChartKind.Rooted kind fun data => Carriers.backdrop true data.bins := by
  rintro ⟨bins, history⟩ layout range frame
  cases bins with
  | none => exact frame.all_behind _
  | some bins =>
    have harea := Carriers.rooted_area limits bins bins.snr layout range
      (Carriers.paintBands bins layout true frame)
    show (paint ⟨some bins, history⟩ layout range frame).All _
    rw [paint]
    dsimp only
    split
    case h_1 =>
      refine harea.pushLayer (.inr fun s hs => ?_)
      rcases List.mem_pair.mp hs with rfl | rfl
      · exact layout.placesOrigin_layer _ _
      · exact layout.placesOrigin_layer _ _
    case h_2 => exact harea

/-! ### Errors -/

namespace ErrorReport

variable (report : ErrorReport Rat)

/-- The shades of periods without samples, if there is a log. -/
def backdrop (log : Option ErrorLog) (layout : Layout Rat) (frame : Frame Rat) : Frame Rat :=
  log.elim frame fun log => report.paintOutages log layout frame

theorem rooted : report.kind.Rooted report.backdrop := by
  intro log layout range frame
  cases log with
  | none => exact frame.all_behind _
  | some log =>
    show (report.paint log layout range frame).All _
    rw [paint]
    split
    case isTrue => exact fun d hd => .inl (Frame.mem_pushFill_of_mem hd _)
    case isFalse =>
      refine (Frame.all_behind _ _).pushLayer (.inr fun s hs => ?_)
      obtain ⟨trace, _, heq⟩ := List.mem_map.mp (stroke_mem_of_mem_blended hs)
      rw [← heq]
      exact layout.placesOrigin_layer _ _

/-- The shades start below the plot. -/
theorem rooted_backdrop (log : Option ErrorLog) (layout : Layout Rat) (frame : Frame Rat) :
    (report.backdrop log layout frame).All fun d => d ∈ frame.drawings.toList ∨
      d.PlacesOrigin ⟨layout.plot.x, layout.plot.bottom + layout.metrics.stroke⟩ := by
  cases log with
  | none => exact frame.all_behind _
  | some log =>
    exact (frame.all_behind _).pushFill (.inr (Transform.placesOrigin_upright _ _ _ _))

end ErrorReport

/-! ### All maps -/

/-- **Maps are put together like those of a canvas**: of some operations that are put in front
of a map, the last one acts first.  So the anchor of a text stays where it is when the text is
compressed, and a map that moves and then scales takes the origin to where it moves.  This is
where the data of every chart starts. -/
theorem Transform.compose :
    (∀ (t : Transform Rat) (ops : List Op) (p : Point Rat),
      (t.putAll ops).image p = t.image (ops.foldr Op.act p)) ∧
    (∀ d : Label Rat, d.compression.image ⟨d.x, d.y⟩ = ⟨d.x, d.y⟩ ∧
      ∀ p, d.compression.image p = ⟨d.x + d.scaleX * (p.x - d.x), p.y⟩) ∧
    (∀ x y sx sy : Rat, ((identity.translate x y).scale sx (-sy)).image ⟨0, 0⟩ = ⟨x, y⟩) ∧
    ChartKind.Rooted BitLoading.kind (Carriers.backdrop false) ∧
    ChartKind.Rooted LineNoise.kind (Carriers.backdrop true) ∧
    ChartKind.Rooted Characteristic.kind (Carriers.backdrop true) ∧
    ChartKind.Rooted SignalToNoise.kind (fun data => Carriers.backdrop true data.bins) ∧
    ∀ report : ErrorReport Rat, report.kind.Rooted report.backdrop ∧
      ∀ log layout frame, (report.backdrop log layout frame).All fun d =>
        d ∈ frame.drawings.toList ∨
          d.PlacesOrigin ⟨layout.plot.x, layout.plot.bottom + layout.metrics.stroke⟩ := by
  refine ⟨image_putAll, fun d => ⟨?_, d.image_compression⟩, fun x y sx sy => ?_,
    BitLoading.rooted, LineNoise.rooted, Characteristic.rooted, SignalToNoise.rooted,
    fun report => ⟨report.rooted, report.rooted_backdrop⟩⟩
  · simp [Label.image_compression]
  · exact (placesOrigin_upright x y sx sy).2

end LineCharts
