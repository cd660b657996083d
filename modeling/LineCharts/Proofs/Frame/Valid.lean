/-
What passes the check of a frame, in exact arithmetic.

* `Color.InRange` — all channels lie between 0 and 1;
  `Color.check_eq_ok_iff` — so says the check;
* `FilledRect.check_eq_ok_iff`, `FilledPath.check_eq_ok_iff`, `StrokedPath.check_eq_ok_iff`,
  `Label.check_eq_ok_iff`, `Layer.check_eq_ok_iff` — what is asked of each thing to draw;
* `Frame.Valid` — a surface with pixels, and things that pass;
  `Frame.check_eq_ok_iff` — so says the check;
* `Frame.Valid.pushFill` and the like — what is added has to pass only if it
  has something to draw.

Design notes.  Rational numbers are finite, so that paths and transforms pass as they are.
-/
import LineCharts.Frame.Basic
import LineCharts.Proofs.Geometry.Rounding

namespace LineCharts

/-! ### Rules -/

/-- A rule that holds refuses nothing. -/
@[simp] theorem refuseIf_eq_ok_iff {broken : Bool} {rule : Invalid} :
    refuseIf broken rule = .ok () ↔ broken = false := by
  cases broken with
  | false => exact ⟨fun _ => rfl, fun _ => rfl⟩
  | true => exact ⟨nofun, nofun⟩

@[simp] theorem Except.andThen_eq_ok_iff {first : Except ChartError Unit}
    {second : Unit → Except ChartError Unit} :
    (first >>= second) = .ok () ↔ first = .ok () ∧ second () = .ok () := by
  cases first with
  | error e => exact ⟨nofun, fun h => nomatch h.1⟩
  | ok u => exact ⟨fun h => ⟨rfl, h⟩, fun h => h.2⟩

@[simp] theorem Except.forM_eq_ok_iff {τ : Type} {check : τ → Except ChartError Unit}
    {xs : List τ} :
    forM xs check = .ok () ↔ ∀ x ∈ xs, check x = .ok () := by
  induction xs with
  | nil => exact ⟨fun _ => nofun, fun _ => rfl⟩
  | cons x xs ih =>
    rw [List.forM_cons, Except.andThen_eq_ok_iff, ih, List.forall_mem_cons]

/-! ### Colours -/

namespace Color

/-- All channels lie between 0 and 1. -/
structure InRange (c : Color Rat) : Prop where
  red : 0 ≤ c.red ∧ c.red ≤ 1
  green : 0 ≤ c.green ∧ c.green ≤ 1
  blue : 0 ≤ c.blue ∧ c.blue ≤ 1
  alpha : 0 ≤ c.alpha ∧ c.alpha ≤ 1

theorem isChannel_iff {v : Rat} : isChannel v = true ↔ 0 ≤ v ∧ v ≤ 1 := by
  show (true && (decide ((0.0 : Rat) ≤ v) && decide (v ≤ (1.0 : Rat)))) = true ↔ _
  rw [Exact.zero_lit, Exact.one_lit, Bool.true_and, Bool.and_eq_true, decide_eq_true_eq,
    decide_eq_true_eq]

@[simp] theorem check_eq_ok_iff {c : Color Rat} : c.check = .ok () ↔ c.InRange := by
  have hchannels : c.channels.find? (fun (_, v) => !isChannel v) = none ↔ c.InRange := by
    rw [List.find?_eq_none, channels]
    simp only [List.forall_mem_cons, List.not_mem_nil, Bool.not_not_eq, isChannel_iff]
    constructor
    · rintro ⟨hred, hgreen, hblue, halpha, _⟩
      exact ⟨hred, hgreen, hblue, halpha⟩
    · intro h
      exact ⟨h.red, h.green, h.blue, h.alpha, nofun⟩
  rw [← hchannels, check]
  split
  case h_1 heq => simp [heq]
  case h_2 heq => simp [heq]

theorem InRange.withAlpha {c : Color Rat} (h : c.InRange) {alpha : Rat}
    (halpha : 0 ≤ alpha ∧ alpha ≤ 1) : (c.withAlpha alpha).InRange :=
  ⟨h.red, h.green, h.blue, halpha⟩

end Color

/-! ### Things to draw -/

theorem Path.isFinite_rat (path : Path Rat) : path.isFinite = true := by
  rw [Path.isFinite, Array.all_eq_true']
  intro c _
  cases c <;> rfl

theorem checkGeometry_rat (path : Path Rat) (transform : Transform Rat) :
    checkGeometry path transform = .ok () := by
  rw [checkGeometry, path.isFinite_rat]
  rfl

theorem FilledRect.check_eq_ok_iff {d : FilledRect Rat} :
    d.check = .ok () ↔ 0 ≤ d.rect.width ∧ 0 ≤ d.rect.height ∧ d.color.InRange := by
  rw [FilledRect.check]
  simp [Scalar.isFinite, and_assoc]

theorem FilledPath.check_eq_ok_iff {d : FilledPath Rat} :
    d.check = .ok () ↔ d.color.InRange := by
  rw [FilledPath.check, checkGeometry_rat]
  exact Color.check_eq_ok_iff

theorem StrokedPath.check_eq_ok_iff {d : StrokedPath Rat} :
    d.check = .ok () ↔ 0 < d.width ∧ d.color.InRange := by
  rw [StrokedPath.check, checkGeometry_rat]
  simp [Scalar.isFinite]

theorem Label.check_eq_ok_iff {d : Label Rat} :
    d.check = .ok () ↔ d.text ≠ "" ∧ 0 < d.fontSize ∧ 0 < d.scaleX ∧ d.color.InRange := by
  rw [Label.check]
  simp [Scalar.isFinite]

theorem Layer.check_eq_ok_iff {d : Layer Rat} : d.check = .ok () ↔
    0 ≤ d.rect.width ∧ 0 ≤ d.rect.height ∧ ∀ s ∈ d.strokes, 0 < s.stroke.width ∧
      s.stroke.color.InRange := by
  rw [Layer.check]
  simp [StrokedPath.check_eq_ok_iff, Scalar.isFinite, and_assoc]

/-! ### Frames -/

namespace Frame

/-- A surface with pixels, and things on it that can be drawn. -/
structure Valid (frame : Frame Rat) : Prop where
  viewport : frame.viewport.isValid = true
  drawings : ∀ d ∈ frame.drawings.toList, d.check = .ok ()

theorem check_eq_ok_iff {frame : Frame Rat} : frame.check = .ok () ↔ frame.Valid := by
  rw [check]
  split
  case isTrue hempty =>
    refine ⟨nofun, fun h => ?_⟩
    rw [h.viewport] at hempty
    cases hempty
  case isFalse hpixels =>
    have hdrawings : forM frame.drawings.toList Drawing.check = .ok () ↔
        ∀ d ∈ frame.drawings.toList, d.check = .ok () := Except.forM_eq_ok_iff
    have hviewport : frame.viewport.isValid = true := by simpa using hpixels
    exact ⟨fun h => ⟨hviewport, hdrawings.mp h⟩, fun h => hdrawings.mpr h.drawings⟩

namespace Valid

variable {frame : Frame Rat}

theorem empty {viewport : Viewport} (h : viewport.isValid = true) :
    (Frame.empty viewport : Frame Rat).Valid :=
  ⟨h, fun _ hd => absurd hd List.not_mem_nil⟩

theorem push (h : frame.Valid) {d : Drawing Rat} (hd : d.check = .ok ()) :
    (frame.push d).Valid := by
  refine ⟨h.viewport, fun e he => ?_⟩
  rw [Frame.push, Array.toList_push, List.mem_append, List.mem_singleton] at he
  rcases he with he | rfl
  · exact h.drawings e he
  · exact hd

theorem pushRect (h : frame.Valid) {d : FilledRect Rat} (hwidth : 0 ≤ d.rect.width)
    (hheight : 0 ≤ d.rect.height) (hcolor : d.color.InRange) : (frame.pushRect d).Valid :=
  h.push (FilledRect.check_eq_ok_iff.mpr ⟨hwidth, hheight, hcolor⟩)

theorem pushFill (h : frame.Valid) {d : FilledPath Rat} (hcolor : d.color.InRange) :
    (frame.pushFill d).Valid := by
  rw [Frame.pushFill]
  split
  · exact h
  · exact h.push (FilledPath.check_eq_ok_iff.mpr hcolor)

theorem pushStroke (h : frame.Valid) {d : StrokedPath Rat} (hwidth : 0 < d.width)
    (hcolor : d.color.InRange) : (frame.pushStroke d).Valid := by
  rw [Frame.pushStroke]
  split
  · exact h
  · exact h.push (StrokedPath.check_eq_ok_iff.mpr ⟨hwidth, hcolor⟩)

theorem pushLayer (h : frame.Valid) {d : Layer Rat} (hwidth : 0 ≤ d.rect.width)
    (hheight : 0 ≤ d.rect.height)
    (hstrokes : ∀ s ∈ d.strokes, 0 < s.stroke.width ∧ s.stroke.color.InRange) :
    (frame.pushLayer d).Valid := by
  rw [Frame.pushLayer]
  split
  · exact h
  · exact h.push (Layer.check_eq_ok_iff.mpr ⟨hwidth, hheight, hstrokes⟩)

theorem foldl_pushText (h : frame.Valid) {labels : List (Label Rat)}
    (hlabels : ∀ d ∈ labels, d.check = .ok ()) :
    (labels.foldl Frame.pushText frame).Valid := by
  induction labels generalizing frame with
  | nil => exact h
  | cons d labels ih =>
    obtain ⟨hd, hrest⟩ := List.forall_mem_cons.mp hlabels
    exact ih (h.push hd) hrest

theorem foldl_push (h : frame.Valid) {ds : List (Drawing Rat)}
    (hds : ∀ d ∈ ds, d.check = .ok ()) :
    (ds.foldl Frame.push frame).Valid := by
  induction ds generalizing frame with
  | nil => exact h
  | cons d ds ih =>
    obtain ⟨hd, hrest⟩ := List.forall_mem_cons.mp hds
    exact ih (h.push hd) hrest

end Valid

end Frame

end LineCharts
