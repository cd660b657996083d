/-
Renderers answer alike, and hold what the last frame without faults left there.

* `Draws` — a renderer answers as the check does, and becomes what a frame makes of it only if
  nothing is wrong with the frame;
* `Picture.run_draw`, `Tally.run_draw` — drawing in place comes to the same as
  `Picture.render`, `Tally.render`;
* `Picture.draws`, `Tally.draws` — what both become, `Tally.of` — the counts of a frame;
* `Draws.run_handOver` — a run answers frame by frame, and only the
  frames without faults count;
* `renderers_agree` — after any frames, both have answered as the check does, the picture is
  that of the last frame without faults, and so are the counts.

Design notes.  What is written before a failure stays, so a frame that is refused changes
nothing only because the check comes first.
-/
import LineCharts.Frame.Picture
import LineCharts.Proofs.Frame.Rules
import LineCharts.Scalar.Exact
import Mathlib.Data.List.Induction

namespace LineCharts

/-! ### Writing in place -/

namespace InPlace

variable {ρ : Type} (rest : InPlace ρ Unit) (before : ρ)

/-- After a refusal nothing more is done. -/
theorem run_refuse (answer : Except ChartError Unit) :
    ((do answer; rest : InPlace ρ Unit).run.run before).run =
      match answer with
      | .ok _ => (rest.run.run before).run
      | .error e => (.error e, before) := by
  cases answer with
  | ok _ => rfl
  | error e => rfl

theorem run_modify (change : ρ → ρ) :
    ((do modify change; rest : InPlace ρ Unit).run.run before).run =
      (rest.run.run (change before)).run :=
  rfl

/-- Changes are made one after the other. -/
theorem run_forM_modify {τ : Type} (change : ρ → τ → ρ) (xs : List τ) :
    ((do xs.forM fun x => modify (change · x); rest : InPlace ρ Unit).run.run before).run =
      (rest.run.run (xs.foldl change before)).run := by
  induction xs generalizing before with
  | nil => rfl
  | cons x xs ih => exact ih (change before x)

end InPlace

variable {α : Type} [Scalar α]

/-! ### One frame -/

/-- A renderer answers as the check does.  It becomes `after` of a frame only if
nothing is wrong with it. -/
def Draws {ρ : Type} (draw : Frame α → InPlace ρ Unit) (after : ρ → Frame α → ρ) : Prop :=
  ∀ frame before, ((draw frame).run.run before).run =
    (frame.check, if frame.isFaultless then after before frame else before)

/-- Drawing in place comes to the same as `Picture.render`, where a refusal
leaves what was there. -/
theorem Picture.run_draw (frame : Frame α) (before : Picture) :
    ((draw frame).run.run before).run =
      ((before.render frame).map fun _ => (), afterFrame before (before.render frame)) := by
  rw [draw, InPlace.run_refuse, render]
  cases frame.check with
  | ok _ => rfl
  | error e => rfl

/-- **A picture is that of the last frame**, or as it was. -/
theorem Picture.draws :
    Draws (α := α) Picture.draw fun _ frame => ⟨Markup.document frame.markup⟩ := by
  intro frame before
  rw [run_draw, render, Frame.check_eq_verdict, Frame.isFaultless]
  cases frame.faults with
  | nil => rfl
  | cons fault faults => rfl

/-- The rectangles of a frame, in order. -/
def Frame.rects (frame : Frame α) : List (FilledRect α) :=
  frame.drawings.toList.filterMap fun | .rect d => some d | _ => none

/-- The counts of what is in a frame, with the number of frames so far. -/
def Tally.of (frames : Nat) (frame : Frame α) : Tally where
  frames := frames
  fills := frame.rects.length + frame.fills.length
  strokes := frame.strokes.length
  texts := frame.texts.length
  layers := frame.layers.length

omit [Scalar α] in
/-- Each thing to draw counts once. -/
theorem Tally.foldl_count (t : Tally) (frame : Frame α) :
    frame.drawings.toList.foldl count t =
      { frames := t.frames
        fills := t.fills + (frame.rects.length + frame.fills.length)
        strokes := t.strokes + frame.strokes.length
        texts := t.texts + frame.texts.length
        layers := t.layers + frame.layers.length } := by
  rw [Frame.rects, Frame.fills, Frame.strokes, Frame.texts, Frame.layers]
  induction frame.drawings.toList generalizing t with
  | nil => rfl
  | cons d ds ih =>
    rw [List.foldl_cons, ih]
    cases d <;> simp [count] <;> omega

omit [Scalar α] in
/-- Nothing is left of the counts before. -/
theorem Tally.foldl_count_cleared (frames : Nat) (frame : Frame α) :
    frame.drawings.toList.foldl count { frames } = of frames frame := by
  rw [foldl_count, of]
  simp only [Nat.zero_add]

/-- Counting in place comes to the same as `Tally.render`. -/
theorem Tally.run_draw (frame : Frame α) (before : Tally) :
    ((draw frame).run.run before).run =
      ((before.render frame).map fun _ => (), afterFrame before (before.render frame)) := by
  rw [draw, InPlace.run_refuse, InPlace.run_modify, InPlace.run_forM_modify, cleared,
    foldl_count_cleared, render, ← Array.foldl_toList, foldl_count_cleared]
  cases frame.check with
  | ok _ => rfl
  | error e => rfl

/-- **The counts are those of the last frame**, or as they were. -/
theorem Tally.draws : Draws (α := α) Tally.draw fun t frame => .of (t.frames + 1) frame := by
  intro frame before
  rw [run_draw, render, ← Array.foldl_toList, foldl_count_cleared, Frame.check_eq_verdict,
    Frame.isFaultless]
  cases frame.faults with
  | nil => rfl
  | cons fault faults => rfl

/-! ### Many frames -/

section

variable {ρ : Type} {draw : Frame α → InPlace ρ Unit} {after : ρ → Frame α → ρ}

omit [Scalar α] in
/-- A run goes on with what the first frame has left. -/
theorem run_handOver_cons (frame : Frame α) (frames : List (Frame α)) (before : ρ) :
    ((handOver draw (frame :: frames)).run before).run =
      let (answer, middle) := ((draw frame).run.run before).run
      let (answers, last) := ((handOver draw frames).run middle).run
      (answer :: answers, last) := by
  rw [handOver, List.mapM_cons]
  rfl

/-- **A run answers frame by frame**, and what it leaves is what the frames
without faults have made. -/
theorem Draws.run_handOver (h : Draws draw after) (frames : List (Frame α)) (before : ρ) :
    ((handOver draw frames).run before).run =
      (frames.map Frame.check, (frames.filter Frame.isFaultless).foldl after before) := by
  induction frames generalizing before with
  | nil => rfl
  | cons frame frames ih =>
    rw [run_handOver_cons, h frame before]
    dsimp only
    rw [ih, List.map_cons, List.filter_cons]
    cases frame.isFaultless with
    | false => rfl
    | true => rfl

end

/-- What is written over and over is what was written last. -/
theorem foldl_overwrite {ρ τ : Type} (made : τ → ρ) (before : ρ) (xs : List τ) :
    xs.foldl (fun _ x => made x) before = xs.getLast?.elim before made := by
  induction xs using List.reverseRecOn with
  | nil => rfl
  | append_singleton xs x _ =>
    rw [List.foldl_append, List.foldl_cons, List.foldl_nil, List.getLast?_concat,
      Option.elim_some]

omit [Scalar α] in
theorem Tally.frames_foldl_of (t : Tally) (frames : List (Frame α)) :
    (frames.foldl (fun t frame => of (t.frames + 1) frame) t).frames =
      t.frames + frames.length := by
  induction frames generalizing t with
  | nil => rfl
  | cons frame frames ih =>
    rw [List.foldl_cons, ih]
    show t.frames + 1 + frames.length = t.frames + (frames.length + 1)
    omega

omit [Scalar α] in
/-- The counts of the last frame are kept, and all frames are counted. -/
theorem Tally.foldl_of (t : Tally) (frames : List (Frame α)) :
    frames.foldl (fun t frame => of (t.frames + 1) frame) t =
      frames.getLast?.elim t (of (t.frames + frames.length)) := by
  induction frames using List.reverseRecOn with
  | nil => rfl
  | append_singleton frames frame _ =>
    rw [List.foldl_append, List.foldl_cons, List.foldl_nil, frames_foldl_of,
      List.getLast?_concat, Option.elim_some, List.length_append, List.length_singleton,
      Nat.add_assoc]

/-- **Renderers agree**: whatever frames are handed to a picture and to a tally, both answer
each of them as the check does, which names the first fault.  In the end the document is that
of the last frame without faults, and the tally has the number of these frames and the counts
of the last one.  A frame with faults changes neither. -/
theorem renderers_agree (frames : List (Frame α)) :
    let drawing := ((handOver Picture.draw frames).run {}).run
    let counting := ((handOver Tally.draw frames).run {}).run
    let faultless := frames.filter Frame.isFaultless
    drawing.1 = frames.map Frame.check ∧ counting.1 = frames.map Frame.check ∧
    (∀ frame : Frame α, frame.check = verdict frame.faults) ∧
    drawing.2.document = faultless.getLast?.elim ""
      (fun frame => Markup.document frame.markup) ∧
    counting.2.frames = faultless.length ∧
    counting.2 = faultless.getLast?.elim {} (.of faultless.length) ∧
    ∀ (frame : Frame α) (picture : Picture) (tally : Tally),
      ((Picture.draw frame).run.run picture).run = (frame.check,
        if frame.isFaultless then ⟨Markup.document frame.markup⟩ else picture) ∧
      ((Tally.draw frame).run.run tally).run = (frame.check,
        if frame.isFaultless then .of (tally.frames + 1) frame else tally) := by
  intro drawing counting faultless
  have hdrawing : drawing = (frames.map Frame.check,
      faultless.getLast?.elim {} fun frame => ⟨Markup.document frame.markup⟩) := by
    rw [← foldl_overwrite]
    exact Picture.draws.run_handOver frames {}
  have hcounting : counting = (frames.map Frame.check,
      faultless.foldl (fun t frame => .of (t.frames + 1) frame) {}) :=
    Tally.draws.run_handOver frames {}
  rw [hdrawing, hcounting]
  refine ⟨rfl, rfl, Frame.check_eq_verdict, ?_, ?_, ?_, fun frame picture tally =>
    ⟨Picture.draws frame picture, Tally.draws frame tally⟩⟩
  · cases faultless.getLast? with
    | none => rfl
    | some frame => rfl
  · rw [Tally.frames_foldl_of, Nat.zero_add]
  · rw [Tally.foldl_of, Nat.zero_add]

/-- After a frame that is drawn come one with a layer of which all is wrong, and
one without pixels. -/
example :
    let label : Label Rat := ⟨"0", 1, 2, 10, .solid 0 0 0, .left, 1⟩
    let stroke : StrokedPath Rat := ⟨.empty, .identity, .solid 2 0 0, 0, .butt⟩
    let frames : List (Frame Rat) := [⟨⟨10, 10⟩, #[.text label]⟩,
      ⟨⟨10, 10⟩, #[.text label, .layer ⟨⟨0, 0, -1, 1⟩, [⟨stroke, .over⟩]⟩]⟩,
        ⟨⟨0, 10⟩, #[.text label]⟩]
    ((handOver Tally.draw frames).run {}).run =
      ([.ok (), .error (.invalid .layerBounds), .error (.emptySurface 0 10)],
        { frames := 1, texts := 1 }) := by
  decide +kernel

end LineCharts
