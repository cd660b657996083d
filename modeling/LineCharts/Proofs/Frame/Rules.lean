/-
The check of a frame names the first of its faults.

* `verdict` — the answer to a list of faults: the first of them, if there is one;
* `Color.faults`, `FilledRect.faults`, `FilledPath.faults`, `StrokedPath.faults`,
  `Label.faults` — the rules that a thing breaks, in order;
* `Layer.faults` — the bounds come first, then the strokes;
* `Frame.faults` — the surface comes first, then the things to draw;
* `Frame.check_eq_verdict` — the check is the verdict on all faults, so that
  it stops at the first.

Design notes.  The check stops at the first broken rule, the list of faults goes on.  Nothing
is asked of the numbers, which may be doubles that are not finite.
-/
import LineCharts.Frame.Basic

namespace LineCharts

/-! ### Verdicts -/

/-- The answer to a list of faults: the first one, if there is any. -/
def verdict : List ChartError → Except ChartError Unit
  | [] => .ok ()
  | fault :: _ => .error fault

/-- **The first fault stands in front**: what comes later is looked at only if
there is none before it. -/
theorem verdict_append (first second : List ChartError) :
    verdict (first ++ second) = (verdict first >>= fun _ => verdict second) := by
  cases first with
  | nil => rfl
  | cons fault first => rfl

/-- One thing is looked at after the other. -/
theorem forM_eq_verdict {τ : Type} {check : τ → Except ChartError Unit}
    {faults : τ → List ChartError} (h : ∀ x, check x = verdict (faults x)) (xs : List τ) :
    xs.forM check = verdict (xs.flatMap faults) := by
  induction xs with
  | nil => rfl
  | cons x xs ih =>
    rw [List.flatMap_cons, verdict_append, ← h, ← ih]
    rfl

/-- A rule, if it is broken. -/
def faultIf (broken : Bool) (rule : Invalid) : List ChartError :=
  if broken then [.invalid rule] else []

theorem refuseIf_eq_verdict (broken : Bool) (rule : Invalid) :
    refuseIf broken rule = verdict (faultIf broken rule) := by
  cases broken with
  | false => rfl
  | true => rfl

variable {α : Type} [Scalar α]

/-! ### Colours -/

namespace Color

/-- The channels that are out of range. -/
def faults (c : Color α) : List ChartError :=
  c.channels.flatMap fun (name, v) => faultIf (!isChannel v) (.colorChannel name)

theorem check_eq_verdict (c : Color α) : c.check = verdict c.faults := by
  rw [check, faults]
  -- the first channel that is found is the first that has a fault
  induction c.channels with
  | nil => rfl
  | cons channel channels ih =>
    rw [List.find?_cons, List.flatMap_cons, verdict_append, ← ih]
    cases hin : isChannel channel.2 with
    | false => simp [hin, faultIf, verdict, bind, Except.bind]
    | true => simp [hin, faultIf, verdict, bind, Except.bind]

end Color

/-! ### Things to draw -/

/-- A position and a size that are none, and the faults of the colour. -/
def FilledRect.faults (d : FilledRect α) : List ChartError :=
  faultIf (!Scalar.isFinite d.rect.x || !Scalar.isFinite d.rect.y) .rectPosition
    ++ faultIf (!Scalar.isFinite d.rect.width || !Scalar.isFinite d.rect.height ||
      d.rect.width < 0.0
      || d.rect.height < 0.0) .rectSize
    ++ d.color.faults

/-- What is not finite of a path and the transform of it. -/
def geometryFaults (path : Path α) (transform : Transform α) : List ChartError :=
  faultIf (!path.isFinite) .pathCoordinates ++ faultIf (!transform.isFinite) .pathTransform

/-- The faults of the path, its transform and the colour. -/
def FilledPath.faults (d : FilledPath α) : List ChartError :=
  geometryFaults d.path d.transform ++ d.color.faults

/-- The faults of the path and its transform, a width that is none, and the
faults of the colour. -/
def StrokedPath.faults (d : StrokedPath α) : List ChartError :=
  geometryFaults d.path d.transform
    ++ faultIf (!Scalar.isFinite d.width || d.width ≤ 0.0) .strokeWidth ++ d.color.faults

/-- No text, then a position, a font size and a scale that are none, and the
faults of the colour. -/
def Label.faults (d : Label α) : List ChartError :=
  faultIf d.text.isEmpty .emptyText
    ++ faultIf (!Scalar.isFinite d.x || !Scalar.isFinite d.y) .textCoordinates
    ++ faultIf (!Scalar.isFinite d.fontSize || d.fontSize ≤ 0.0) .fontSize
    ++ faultIf (!Scalar.isFinite d.scaleX || d.scaleX ≤ 0.0) .textScale
    ++ d.color.faults

/-- Bounds that are none come before the faults of the strokes. -/
def Layer.faults (d : Layer α) : List ChartError :=
  faultIf (!([d.rect.x, d.rect.y, d.rect.width, d.rect.height].all Scalar.isFinite)
      || d.rect.width < 0.0 || d.rect.height < 0.0) .layerBounds
    ++ d.strokes.flatMap fun s => s.stroke.faults

/-- The faults of one thing to draw. -/
def Drawing.faults : Drawing α → List ChartError
  | .rect d => d.faults
  | .fill d => d.faults
  | .stroke d => d.faults
  | .text d => d.faults
  | .layer d => d.faults

theorem checkGeometry_eq_verdict (path : Path α) (transform : Transform α) :
    checkGeometry path transform = verdict (geometryFaults path transform) := by
  rw [geometryFaults, verdict_append, ← refuseIf_eq_verdict, ← refuseIf_eq_verdict]
  rfl

theorem FilledRect.check_eq_verdict (d : FilledRect α) : d.check = verdict d.faults := by
  simp only [check, faults, verdict_append, refuseIf_eq_verdict,
    Color.check_eq_verdict, bind_assoc]

theorem FilledPath.check_eq_verdict (d : FilledPath α) : d.check = verdict d.faults := by
  simp only [check, faults, verdict_append, checkGeometry_eq_verdict, Color.check_eq_verdict]

theorem StrokedPath.check_eq_verdict (d : StrokedPath α) : d.check = verdict d.faults := by
  simp only [check, faults, verdict_append, checkGeometry_eq_verdict, refuseIf_eq_verdict,
    Color.check_eq_verdict, bind_assoc]

theorem Label.check_eq_verdict (d : Label α) : d.check = verdict d.faults := by
  simp only [check, faults, verdict_append, refuseIf_eq_verdict,
    Color.check_eq_verdict, bind_assoc]

theorem Layer.check_eq_verdict (d : Layer α) : d.check = verdict d.faults := by
  have hstrokes : (d.strokes.forM fun s => s.stroke.check) =
      verdict (d.strokes.flatMap fun s => s.stroke.faults) :=
    forM_eq_verdict (fun s => s.stroke.check_eq_verdict) d.strokes
  simp only [check, faults, verdict_append, refuseIf_eq_verdict, hstrokes]

theorem Drawing.check_eq_verdict (d : Drawing α) : d.check = verdict d.faults := by
  cases d with
  | rect d => exact d.check_eq_verdict
  | fill d => exact d.check_eq_verdict
  | stroke d => exact d.check_eq_verdict
  | text d => exact d.check_eq_verdict
  | layer d => exact d.check_eq_verdict

/-! ### Frames -/

namespace Frame

/-- All that is wrong with a frame: a surface without pixels comes first, then the faults of
the things to draw in their order. -/
def faults (frame : Frame α) : List ChartError :=
  (if frame.viewport.isValid then []
    else [.emptySurface frame.viewport.width frame.viewport.height]) ++
    frame.drawings.toList.flatMap Drawing.faults

/-- There is nothing wrong with a frame. -/
def isFaultless (frame : Frame α) : Bool := frame.faults.isEmpty

/-- **The check of a frame is the verdict on its faults.** -/
theorem check_eq_verdict (frame : Frame α) : frame.check = verdict frame.faults := by
  have hdrawings : frame.drawings.toList.forM Drawing.check =
      verdict (frame.drawings.toList.flatMap Drawing.faults) :=
    forM_eq_verdict Drawing.check_eq_verdict _
  rw [check, faults, verdict_append, ← hdrawings]
  cases frame.viewport.isValid with
  | false => rfl
  | true => rfl

end Frame

end LineCharts
