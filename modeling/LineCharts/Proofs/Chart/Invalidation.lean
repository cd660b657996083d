/-
What a sheet keeps, and when it is thrown away.

* `Sheet.Call` is something that is asked of a sheet, `Sheet.run` a sequence of calls;
* `Sheet.Holds` — the parts of a sheet are the last ones that it was given;
* `Sheet.UpToDate` — a layout that is kept is the one that these parts lead to, and there
  is none without pixels;
* `Sheet.Call.leavesStale`, `Sheet.Call.generation` — whether a sheet has no layout after a
  call, and how many layouts there were;
* `Sheet.kept_run` — all of this is so after any calls.

Design notes.  A part that is equal to the one that is there is not stored: the sheet goes on
with the part it has.  Numbers that are not equal to themselves need no care, a part with such
a number is always another part.  A hidden legend is stored without a trace in the layout; it
comes into the next layout by the parameters that show it, which are other parameters.
-/
import LineCharts.Chart.Sheet
import LineCharts.Scalar.Exact

namespace LineCharts

variable {α : Type} [Scalar α]

namespace Sheet

/-! ### Calls -/

/-- The parts that a sheet is given. -/
structure Parts (α : Type) where
  params : Params α
  xAxis : AxisPlan α
  yAxis : AxisPlan α
  legend : Legend α

/-- A sheet with these parts. -/
def Parts.sheet (parts : Parts α) : Sheet α :=
  .new parts.params parts.xAxis parts.yAxis parts.legend

/-- What is asked of a sheet. -/
inductive Call (α : Type) where
  /-- A new sheet takes the place of the old one. -/
  | new (parts : Parts α)
  | setParams (params : Params α)
  | updateShape (shape : Shape α)
  | setXAxis (xAxis : AxisPlan α)
  | setYAxis (yAxis : AxisPlan α)
  | setLegend (legend : Legend α)
  | ensureLayout
  | beginFrame

/-- The sheet behind a call. -/
def answer (measure : TextMeasure α) (sheet : Sheet α) : Call α → Sheet α
  | .new parts => parts.sheet
  | .setParams params => sheet.setParams params
  | .updateShape shape => (sheet.updateShape shape).1
  | .setXAxis xAxis => sheet.setXAxis xAxis
  | .setYAxis yAxis => sheet.setYAxis yAxis
  | .setLegend legend => sheet.setLegend legend
  | .ensureLayout => (sheet.ensureLayout measure).1
  | .beginFrame => (sheet.beginFrame measure).1

/-- The sheet behind a sequence of calls. -/
def run (measure : TextMeasure α) (sheet : Sheet α) (calls : List (Call α)) : Sheet α :=
  calls.foldl (answer measure) sheet

namespace Call

/-- The last parts that were given, behind a call. -/
def latest (last : Parts α) : Call α → Parts α
  | new parts => parts
  | setParams params => { last with params }
  | setXAxis xAxis => { last with xAxis }
  | setYAxis yAxis => { last with yAxis }
  | setLegend legend => { last with legend }
  | updateShape _ | ensureLayout | beginFrame => last

/-- The sheet has no layout behind a call: it had none or is given another part, of the legend
only while it is shown.  It gets a layout on a surface with pixels. -/
def leavesStale (sheet : Sheet α) : Call α → Bool
  | new _ => true
  | setParams params => sheet.isStale || params.normalize != sheet.params
  | setXAxis xAxis => sheet.isStale || xAxis != sheet.xAxis
  | setYAxis yAxis => sheet.isStale || yAxis != sheet.yAxis
  | setLegend legend => sheet.isStale || (sheet.params.legend && legend != sheet.legend)
  | updateShape _ => sheet.isStale
  | ensureLayout | beginFrame => sheet.isStale && !sheet.params.viewport.isValid

/-- How many layouts there were, behind a call: one more where a stale sheet gets a layout. -/
def generation (sheet : Sheet α) : Call α → Nat
  | new _ => 0
  | ensureLayout | beginFrame =>
    sheet.generation + if sheet.params.viewport.isValid && sheet.isStale then 1 else 0
  | setParams _ | updateShape _ | setXAxis _ | setYAxis _ | setLegend _ => sheet.generation

end Call

/-! ### The parts of a sheet -/

/-- What is kept is what was given, or is equal to it. -/
def Keeps {β : Type} [BEq β] (given kept : β) : Prop := given = kept ∨ (given == kept) = true

/-- The parts of a sheet are these, the parameters without numbers that cannot be used. -/
structure Holds (sheet : Sheet α) (parts : Parts α) : Prop where
  params : Keeps parts.params.normalize sheet.params
  xAxis : Keeps parts.xAxis sheet.xAxis
  yAxis : Keeps parts.yAxis sheet.yAxis
  legend : Keeps parts.legend sheet.legend

variable {measure : TextMeasure α} {sheet : Sheet α} {parts : Parts α}

theorem Holds.ensureLayout (h : sheet.Holds parts) (measure : TextMeasure α) :
    (sheet.ensureLayout measure).1.Holds parts := by
  rw [Sheet.ensureLayout]
  split
  · exact h
  · split
    · exact ⟨h.params, h.xAxis, h.yAxis, h.legend⟩
    · exact h

/-- **A call stores the part that it gives**, and leaves the other parts alone. -/
theorem Holds.answer (h : sheet.Holds parts) (measure : TextMeasure α) (call : Call α) :
    (sheet.answer measure call).Holds (call.latest parts) := by
  cases call with
  | new parts => exact ⟨.inl rfl, .inl rfl, .inl rfl, .inl rfl⟩
  | setParams params =>
    simp only [Sheet.answer, setParams]
    split
    case isTrue heq => exact ⟨.inr heq, h.xAxis, h.yAxis, h.legend⟩
    case isFalse => exact ⟨.inl rfl, h.xAxis, h.yAxis, h.legend⟩
  | updateShape shape =>
    simp only [Sheet.answer, updateShape]
    split
    · exact h
    · exact ⟨h.params, h.xAxis, h.yAxis, h.legend⟩
  | setXAxis xAxis =>
    simp only [Sheet.answer, setXAxis]
    split
    case isTrue heq => exact ⟨h.params, .inr heq, h.yAxis, h.legend⟩
    case isFalse => exact ⟨h.params, .inl rfl, h.yAxis, h.legend⟩
  | setYAxis yAxis =>
    simp only [Sheet.answer, setYAxis]
    split
    case isTrue heq => exact ⟨h.params, h.xAxis, .inr heq, h.legend⟩
    case isFalse => exact ⟨h.params, h.xAxis, .inl rfl, h.legend⟩
  | setLegend legend =>
    simp only [Sheet.answer, setLegend]
    split
    case isTrue heq => exact ⟨h.params, h.xAxis, h.yAxis, .inr heq⟩
    case isFalse => exact ⟨h.params, h.xAxis, h.yAxis, .inl rfl⟩
  | ensureLayout => exact h.ensureLayout measure
  | beginFrame => exact h.ensureLayout measure

/-! ### The layout of a sheet -/

/-- A layout that is kept is the one that the parts of the sheet lead to, on a
surface with pixels. -/
def UpToDate (measure : TextMeasure α) (sheet : Sheet α) : Prop :=
  ∀ layout, sheet.layout = some layout →
    layout = sheet.freshLayout measure ∧ sheet.params.viewport.isValid = true

/-- A sheet without a layout has none that is out of date. -/
theorem upToDate_of_none (h : sheet.layout = none) : sheet.UpToDate measure := by
  intro layout hlayout
  rw [h] at hlayout
  cases hlayout

theorem UpToDate.setLegend (h : sheet.UpToDate measure) (legend : Legend α) :
    (sheet.setLegend legend).UpToDate measure := by
  rw [Sheet.setLegend]
  split
  case isTrue => exact h
  case isFalse =>
    by_cases hshown : sheet.params.legend = true
    · exact upToDate_of_none (if_pos hshown)
    · intro layout hlayout
      dsimp only at hlayout
      -- the layout stays, but a hidden legend has no part in it: with either
      -- legend it is the same
      rw [if_neg hshown] at hlayout
      obtain ⟨hfresh, hpixels⟩ := h layout hlayout
      refine ⟨?_, hpixels⟩
      rw [hfresh, freshLayout, freshLayout, if_neg hshown]
      dsimp only
      rw [if_neg hshown]

theorem UpToDate.ensureLayout (h : sheet.UpToDate measure) :
    (sheet.ensureLayout measure).1.UpToDate measure := by
  rw [Sheet.ensureLayout]
  split
  case isTrue => exact h
  case isFalse hpixels =>
    rw [Bool.not_eq_true, Bool.not_eq_false'] at hpixels
    split
    · intro layout hlayout
      exact ⟨(Option.some.inj hlayout).symm, hpixels⟩
    · exact h

/-- **A call leaves no layout that is out of date.** -/
theorem UpToDate.answer (h : sheet.UpToDate measure) (call : Call α) :
    (sheet.answer measure call).UpToDate measure := by
  cases call with
  | new parts => exact upToDate_of_none rfl
  | setParams params =>
    simp only [Sheet.answer, setParams]
    split
    · exact h
    · exact upToDate_of_none rfl
  | updateShape shape =>
    simp only [Sheet.answer, updateShape]
    split
    · exact h
    · exact h
  | setXAxis xAxis =>
    simp only [Sheet.answer, setXAxis]
    split
    · exact h
    · exact upToDate_of_none rfl
  | setYAxis yAxis =>
    simp only [Sheet.answer, setYAxis]
    split
    · exact h
    · exact upToDate_of_none rfl
  | setLegend legend => exact h.setLegend legend
  | ensureLayout => exact h.ensureLayout
  | beginFrame => exact h.ensureLayout

/-! ### What a call costs -/

theorem isStale_updateShape (sheet : Sheet α) (shape : Shape α) :
    (sheet.updateShape shape).1.isStale = sheet.isStale := by
  rw [updateShape]
  split
  · rfl
  · rfl

/-- Without pixels a sheet stays as it is. -/
theorem ensureLayout_of_not_isValid (h : sheet.params.viewport.isValid = false)
    (measure : TextMeasure α) : sheet.ensureLayout measure = (sheet, false) := by
  rw [ensureLayout, h]
  rfl

/-- **A sheet is stale behind the calls that leave it so, and behind no others.** -/
theorem isStale_answer (measure : TextMeasure α) (sheet : Sheet α) (call : Call α) :
    (sheet.answer measure call).isStale = call.leavesStale sheet := by
  have hensure : (sheet.ensureLayout measure).1.isStale =
      (sheet.isStale && !sheet.params.viewport.isValid) := by
    cases hpixels : sheet.params.viewport.isValid with
    | false => rw [ensureLayout_of_not_isValid hpixels, Bool.not_false, Bool.and_true]
    | true => rw [isStale_ensureLayout hpixels, Bool.not_true, Bool.and_false]
  cases call with
  | new parts => rfl
  | setParams params => exact isStale_setParams sheet params
  | updateShape shape => exact isStale_updateShape sheet shape
  | setXAxis xAxis => exact isStale_setXAxis sheet xAxis
  | setYAxis yAxis => exact isStale_setYAxis sheet yAxis
  | setLegend legend => exact isStale_setLegend sheet legend
  | ensureLayout => exact hensure
  | beginFrame => exact hensure

/-- **Layouts are counted where a stale sheet gets one, and nowhere else.** -/
theorem generation_answer (measure : TextMeasure α) (sheet : Sheet α) (call : Call α) :
    (sheet.answer measure call).generation = call.generation sheet := by
  cases call with
  | new parts => rfl
  | setParams params =>
    simp only [answer, setParams]
    split <;> rfl
  | updateShape shape =>
    simp only [answer, updateShape]
    split <;> rfl
  | setXAxis xAxis =>
    simp only [answer, setXAxis]
    split <;> rfl
  | setYAxis yAxis =>
    simp only [answer, setYAxis]
    split <;> rfl
  | setLegend legend =>
    simp only [answer, setLegend]
    split <;> rfl
  | ensureLayout => exact generation_ensureLayout sheet measure
  | beginFrame => exact generation_ensureLayout sheet measure

/-! ### Sequences of calls -/

theorem Holds.run (h : sheet.Holds parts) (measure : TextMeasure α) (calls : List (Call α)) :
    (sheet.run measure calls).Holds (calls.foldl Call.latest parts) := by
  -- each call may replace the parts that the invariant speaks of
  induction calls generalizing sheet parts with
  | nil => exact h
  | cons call calls ih => exact ih (h.answer measure call)

theorem UpToDate.run (h : sheet.UpToDate measure) (calls : List (Call α)) :
    (sheet.run measure calls).UpToDate measure := by
  induction calls generalizing sheet with
  | nil => exact h
  | cons call calls ih => exact ih (h.answer call)

/-- **What a sheet keeps after any calls.**  Its parts are the last ones that it was given.
It is stale, or else on a surface with pixels and has the layout for its parts, with the
legend only if it is shown.  Whatever is asked of it next, the call leaves it stale and counts
a layout exactly as `Call.leavesStale` and `Call.generation` say. -/
theorem kept_run (measure : TextMeasure α) (first : Parts α) (calls : List (Call α)) :
    let sheet := first.sheet.run measure calls
    sheet.Holds (calls.foldl Call.latest first) ∧
      (sheet.layout =
        if sheet.isStale then none
        else some (.compute sheet.params sheet.xAxis sheet.yAxis
          (if sheet.params.legend then some sheet.legend else none) measure)) ∧
      (sheet.isStale || sheet.params.viewport.isValid) = true ∧
      ∀ call : Call α, (sheet.answer measure call).isStale = call.leavesStale sheet ∧
        (sheet.answer measure call).generation = call.generation sheet := by
  intro sheet
  have hholds : sheet.Holds (calls.foldl Call.latest first) :=
    Holds.run ⟨.inl rfl, .inl rfl, .inl rfl, .inl rfl⟩ measure calls
  have hfresh : sheet.UpToDate measure := UpToDate.run (upToDate_of_none rfl) calls
  have hcall (call : Call α) : (sheet.answer measure call).isStale = call.leavesStale sheet ∧
      (sheet.answer measure call).generation = call.generation sheet :=
    ⟨isStale_answer measure sheet call, generation_answer measure sheet call⟩
  cases hlayout : sheet.layout with
  | none =>
    have hstale : sheet.isStale = true := by rw [isStale, hlayout, Option.isNone_none]
    refine ⟨hholds, ?_, ?_, hcall⟩
    · rw [hstale, if_pos rfl]
    · rw [hstale, Bool.true_or]
  | some layout =>
    obtain ⟨heq, hpixels⟩ := hfresh layout hlayout
    have hstale : sheet.isStale = false := by rw [isStale, hlayout, Option.isNone_some]
    refine ⟨hholds, ?_, ?_, hcall⟩
    · rw [hstale, if_neg Bool.false_ne_true, heq]
      rfl
    · rw [hpixels, Bool.or_true]

/-- A legend that is changed while it is hidden costs no layout, and showing it costs one. -/
example (axis : AxisPlan Rat) (measure : TextMeasure Rat) :
    ((Parts.sheet ⟨.default, axis, axis, ⟨"Noise", []⟩⟩).run measure
      [.ensureLayout, .setLegend ⟨"Gain", []⟩, .beginFrame, .setParams .withLegend,
        .beginFrame]).generation = 2 := by
  rfl

end Sheet

end LineCharts
