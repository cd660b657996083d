/-
Axes that nothing drawn can tell apart.

* `AxisPlan.Alike a b` — `a` and `b` have the same labels, fractions and steps;
* `alike_ofRange_top`, `alike_ofRange_bottom` — this is so for two ranges that have zero at
  one end and the same double, up to the sign of a zero, at the other;
* `AxisRange.Unsigned` — no end of a range is the negative zero, so that equal ranges are one
  range (`AxisRange.Unsigned.eq_of_beq`);
* `LimitRule.unsigned_resolve`, `unsigned_bitsRange` — the ranges that the vertical
  axes get are unsigned.

Design notes.  Two axes may differ in the sign of a zero and still be alike: a range without a
span has the fraction 0 everywhere, and its step is the first candidate.
-/
import LineCharts.Axis.Plan
import LineCharts.Proofs.Double.Same

namespace LineCharts

open Double (Same IsZero)

/-! ### Axes -/

/-- Two axes have the same labels, fractions and steps. -/
structure AxisPlan.Alike (a b : AxisPlan Float) : Prop where
  labelStart : a.labelStart = b.labelStart
  labelEnd : a.labelEnd = b.labelEnd
  digits : a.digits = b.digits
  format : a.format = b.format
  fraction : ∀ v, a.fraction v = b.fraction v
  step : ∀ pixels spacing, chooseStep a.steps a.range.span pixels spacing =
    chooseStep b.steps b.range.span pixels spacing

namespace AxisPlan

variable {a b c : AxisPlan Float}

theorem Alike.refl (a : AxisPlan Float) : a.Alike a :=
  ⟨rfl, rfl, rfl, rfl, fun _ => rfl, fun _ _ => rfl⟩

theorem Alike.symm (h : a.Alike b) : b.Alike a where
  labelStart := h.labelStart.symm
  labelEnd := h.labelEnd.symm
  digits := h.digits.symm
  format := h.format.symm
  fraction v := (h.fraction v).symm
  step pixels spacing := (h.step pixels spacing).symm

theorem Alike.trans (h : a.Alike b) (h' : b.Alike c) : a.Alike c where
  labelStart := h.labelStart.trans h'.labelStart
  labelEnd := h.labelEnd.trans h'.labelEnd
  digits := h.digits.trans h'.digits
  format := h.format.trans h'.format
  fraction v := (h.fraction v).trans (h'.fraction v)
  step pixels spacing := (h.step pixels spacing).trans (h'.step pixels spacing)

/-- Alike axes have the same ticks. -/
theorem Alike.ticks (h : a.Alike b) (step : Int) : a.ticks step = b.ticks step := by
  have hfirst (step : Int) : a.firstTick step = b.firstTick step := by
    rw [firstTick, firstTick, h.labelStart]
  simp only [AxisPlan.ticks, hfirst, h.labelEnd]

/-! ### Ranges without a span -/

theorem fraction_of_flat (h : IsZero a.range.span) (v : Float) : a.fraction v = 0.0 := by
  have hflat : (a.range.span == (0.0 : Float)) = true := h.beq (.inl rfl)
  rw [fraction, hflat]
  rfl

theorem chooseStep_of_flat {span : Float} (h : IsZero span) (steps : List Int)
    (pixels spacing : Float) :
    chooseStep steps span pixels spacing = max (steps.head?.getD 1) 1 := by
  have hflat : (Scalar.abs span == (0.0 : Float)) = true := by
    rcases h with rfl | rfl
    · decide
    · decide
  rw [chooseStep]
  dsimp only
  rw [hflat, Bool.or_true, if_pos rfl]

variable (steps : List Int) (digits : Float) (format : LabelFormat)

theorem alike_ofRange_flat {r r' : AxisRange Float} (hb : IsZero r.bottom) (ht : IsZero r.top)
    (hb' : IsZero r'.bottom) (ht' : IsZero r'.top) :
    (ofRange r steps digits format).Alike (ofRange r' steps digits format) := by
  have hspan {r : AxisRange Float} (hb : IsZero r.bottom) (ht : IsZero r.top) :
      IsZero r.span := by
    obtain ⟨bottom, top⟩ := r
    rcases hb with rfl | rfl <;> rcases ht with rfl | rfl <;> decide
  -- there are four such ranges, and for each of them the labels can be computed
  have hlabels {r : AxisRange Float} (hb : IsZero r.bottom) (ht : IsZero r.top) :
      (ofRange r steps digits format).labelStart = 0 ∧
        (ofRange r steps digits format).labelEnd = 0 := by
    obtain ⟨bottom, top⟩ := r
    rcases hb with rfl | rfl <;> rcases ht with rfl | rfl <;> exact ⟨rfl, rfl⟩
  have h := hlabels hb ht
  have h' := hlabels hb' ht'
  constructor
  · rw [h.1, h'.1]
  · rw [h.2, h'.2]
  · rfl
  · rfl
  · intro v
    rw [fraction_of_flat (hspan hb ht), fraction_of_flat (hspan hb' ht')]
  · intro pixels spacing
    exact (chooseStep_of_flat (hspan hb ht) steps pixels spacing).trans
      (chooseStep_of_flat (hspan hb' ht') steps pixels spacing).symm

variable {x y : Float}

/-- Axes from zero to the same double are alike. -/
theorem alike_ofRange_top (h : Same x y) :
    (ofRange ⟨0.0, x⟩ steps digits format).Alike (ofRange ⟨0.0, y⟩ steps digits format) := by
  rcases h.eq_or_isZero with rfl | ⟨hx, hy⟩
  · exact .refl _
  · exact alike_ofRange_flat steps digits format (.inl rfl) hx (.inl rfl) hy

/-- Axes from the same double to zero are alike. -/
theorem alike_ofRange_bottom (h : Same x y) :
    (ofRange ⟨x, 0.0⟩ steps digits format).Alike (ofRange ⟨y, 0.0⟩ steps digits format) := by
  rcases h.eq_or_isZero with rfl | ⟨hx, hy⟩
  · exact .refl _
  · exact alike_ofRange_flat steps digits format hx (.inl rfl) hy (.inl rfl)

/-- Equal axes have equal ends. -/
theorem beq_range (h : (a == b) = true) :
    (a.range.bottom == b.range.bottom) = true ∧ (a.range.top == b.range.top) = true := by
  have hfields : (a.range == b.range && (a.labelStart == b.labelStart &&
    (a.labelEnd == b.labelEnd && (a.steps == b.steps && (a.digits == b.digits &&
      a.format == b.format))))) = true := h
  exact Bool.and_eq_true_iff.1 (Bool.and_eq_true_iff.1 hfields).1

end AxisPlan

/-! ### Ranges -/

/-- No end is the negative zero. -/
structure AxisRange.Unsigned (r : AxisRange Float) : Prop where
  bottom : r.bottom ≠ -0.0
  top : r.top ≠ -0.0

theorem AxisRange.Unsigned.eq_of_beq {r r' : AxisRange Float} (h : r.Unsigned)
    (h' : r'.Unsigned) (hb : (r.bottom == r'.bottom) = true) (ht : (r.top == r'.top) = true) :
    r = r' := by
  have hbottom := Double.eq_of_beq hb h.bottom h'.bottom
  have htop := Double.eq_of_beq ht h.top h'.top
  obtain ⟨bottom, top⟩ := r
  obtain ⟨bottom', top'⟩ := r'
  obtain rfl : bottom = bottom' := hbottom
  obtain rfl : top = top' := htop
  rfl

/-- **Equal axes of unsigned ranges are one axis.** -/
theorem AxisPlan.ofRange_eq_of_beq {r r' : AxisRange Float} (h : r.Unsigned)
    (h' : r'.Unsigned) {steps : List Int} {digits : Float} {format : LabelFormat}
    (hbeq : (ofRange r steps digits format == ofRange r' steps digits format) = true) :
    ofRange r steps digits format = ofRange r' steps digits format := by
  obtain ⟨hb, ht⟩ := beq_range hbeq
  rw [h.eq_of_beq h' hb ht]

theorem max_ne_negZero {x y : Float} (hx : x ≠ -0.0) (hy : y ≠ -0.0) :
    Double.max x y ≠ -0.0 := by
  rw [Double.max]
  split
  · exact hy
  · split
    · exact hy
    · exact hx

theorem min_ne_negZero {x y : Float} (hx : x ≠ -0.0) (hy : y ≠ -0.0) :
    Double.min x y ≠ -0.0 := by
  rw [Double.min]
  split
  · exact hy
  · split
    · exact hy
    · exact hx

/-- A range that follows the data has margins, and whatever its room is taken from or added
to them is unsigned. -/
theorem unsigned_limitsAround {validMin validMax : Float} (hmin : validMin ≠ -0.0)
    (hmax : validMax ≠ -0.0) (low high : Float) :
    (limitsAround validMin validMax 20.0 low high).Unsigned := by
  have hmargin := Double.not_isZero_margin (high - low)
  have hbottom : low - Double.max (high - low) 20.0 * 0.1 ≠ -0.0 := fun h =>
    hmargin (.inl (Double.sub_eq_negZero h).2)
  have htop : high + Double.max (high - low) 20.0 * 0.1 ≠ -0.0 := fun h =>
    hmargin (.inr (Double.add_eq_negZero h).2)
  -- room is taken from an end that is no negative zero, and added to such an end
  have hsub (x : Float) : low - Double.max (high - low) 20.0 * 0.1 - x ≠ -0.0 := fun h =>
    hbottom (Double.sub_eq_negZero h).1
  have hadd (x : Float) : high + Double.max (high - low) 20.0 * 0.1 + x ≠ -0.0 := fun h =>
    htop (Double.add_eq_negZero h).1
  rw [limitsAround]
  refine ⟨max_ne_negZero ?_ hmin, min_ne_negZero ?_ hmax⟩
  · split
    · dsimp only
      split
      · exact hsub _
      · exact hsub _
    · exact hbottom
  · split
    · dsimp only
      split
      · exact hadd _
      · exact hadd _
    · exact htop

/-- The numbers of a rule are unsigned, and its least span is 20. -/
structure LimitRule.Unsigned (rule : LimitRule Float) : Prop where
  fixed : rule.fixed.Unsigned
  validMin : rule.validMin ≠ -0.0
  validMax : rule.validMax ≠ -0.0
  minRange : rule.minRange = 20.0

theorem LimitRule.unsigned_resolve {rule : LimitRule Float} (h : rule.Unsigned)
    (dynamic : Bool) (series : List (List (Option Float))) :
    (rule.resolve dynamic series).Unsigned := by
  rw [resolve]
  split
  · rw [dataLimits, h.minRange]
    generalize bounds (α := Float) _ = ends
    cases ends with
    | none => exact h.fixed
    | some ends => exact unsigned_limitsAround h.validMin h.validMax ends.1 ends.2
  · exact h.fixed

theorem unsigned_bitsRange {fixedTop : Float} (hfixed : fixedTop ≠ -0.0) (minRange : Float)
    (dynamic : Bool) (series : List (List (Option Float))) :
    (bitsRange fixedTop minRange dynamic series).Unsigned := by
  have hzero : (0.0 : Float) ≠ -0.0 := by decide
  have hstep (x : Float) : x + 0.75 ≠ -0.0 := fun h =>
    absurd (Double.add_eq_negZero h).2 (by decide)
  refine ⟨hzero, ?_⟩
  rw [bitsRange, bitsTop]
  dsimp only
  generalize bounds (α := Float) _ = ends
  split
  · cases ends with
    | none => exact hfixed
    | some ends =>
      rw [Option.map_some, Option.filter_some]
      split
      · exact hstep _
      · exact hfixed
  · exact hfixed

end LineCharts
