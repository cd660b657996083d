/-
The ticks of an axis are the multiples of its step, in exact arithmetic.

* `AxisRange.Bounded` — a range with something in it, whose ends are not beyond
  `2 ^ 53`; it may be reversed;
* `AxisPlan.labels_ofRange` — the values that may have a tick are the whole
  numbers of such a range;
* `AxisPlan.firstTick_spec` — the first tick is the first multiple of the step among them;
* `AxisPlan.mem_ticks_of_firstTick`, `AxisPlan.mem_ticks_iff` — so the ticks are the
  multiples of the step;
* `AxisPlan.pairwise_ticks` — they ascend, by a step at least;
* `AxisPlan.length_ticks_le` — there is one more of them at most than steps in the range;
* `div_chooseStep_le` — the range holds as many of the chosen steps as there is
  room for labels, at most.

Design notes.  Steps are words, and the first multiple of a word from a value up to `2 ^ 62`
on is a word, so nothing is cut off.
-/
import LineCharts.Proofs.Axis.Step
import LineCharts.Proofs.Geometry.Rounding

namespace LineCharts

theorem Exact.toInt_intCast {n : Int} (hlow : Scalar.minInt64 ≤ n)
    (hhigh : n ≤ Scalar.maxInt64) :
    Scalar.toInt (n : Rat) = n := by
  have hwhole : (if (n : Rat) < 0 then (n : Rat).ceil else (n : Rat).floor) = n := by
    rw [Rat.ceil_intCast, Rat.floor_intCast, ite_self]
  show Scalar.saturate (if (n : Rat) < 0 then (n : Rat).ceil else (n : Rat).floor) = n
  rw [hwhole, Scalar.saturate]
  omega

theorem Exact.ceil_eq (x : Rat) : (Scalar.ceil x : Rat) = ⌈x⌉ := by
  show (x.ceil : Rat) = _
  rw [Rat.ceil_eq_neg_floor_neg]
  rfl

theorem abs_ceil_le {x : Rat} (h : |x| ≤ 2 ^ 62) : |⌈x⌉| ≤ 2 ^ 62 := by
  obtain ⟨hlow, hhigh⟩ := abs_le.mp h
  rw [abs_le]
  constructor
  · refine Int.le_ceil_iff.mpr ?_
    push_cast
    linarith
  · refine Int.ceil_le.mpr ?_
    exact_mod_cast hhigh

/-- A range with something in it.  The top may be below the bottom. -/
structure AxisRange.Bounded (r : AxisRange Rat) : Prop where
  bottom : |r.bottom| ≤ 2 ^ 53
  top : |r.top| ≤ 2 ^ 53
  span : r.span ≠ 0

namespace AxisRange

/-- The least value of a range. -/
def low (r : AxisRange Rat) : Rat := min r.bottom r.top

/-- The greatest value of a range. -/
def high (r : AxisRange Rat) : Rat := max r.bottom r.top

theorem high_sub_low (r : AxisRange Rat) : r.high - r.low = |r.span| := by
  rw [high, low, span, max_sub_min_eq_abs]

theorem Bounded.bottom_le {r : AxisRange Rat} (h : r.Bounded) : |r.bottom| ≤ 2 ^ 62 :=
  h.bottom.trans (by norm_num)

theorem Bounded.top_le {r : AxisRange Rat} (h : r.Bounded) : |r.top| ≤ 2 ^ 62 :=
  h.top.trans (by norm_num)

theorem Bounded.abs_span_le {r : AxisRange Rat} (h : r.Bounded) : |r.span| ≤ 2 ^ 54 := by
  have hsum : |r.span| ≤ |r.top| + |r.bottom| := abs_sub _ _
  have hbottom := h.bottom
  have htop := h.top
  linarith

section

variable {r : AxisRange Rat} (hbottom : |r.bottom| ≤ 2 ^ 62) (htop : |r.top| ≤ 2 ^ 62)
include hbottom htop

theorem abs_low_le : |r.low| ≤ 2 ^ 62 := by
  have hbottom := abs_le.mp hbottom
  have htop := abs_le.mp htop
  exact abs_le.mpr ⟨le_min hbottom.1 htop.1, (min_le_left _ _).trans hbottom.2⟩

theorem abs_ceil_low_le : |⌈r.low⌉| ≤ 2 ^ 62 := abs_ceil_le (abs_low_le hbottom htop)

theorem abs_floor_high_le : |⌊r.high⌋| ≤ 2 ^ 62 := by
  have hbottom := abs_le.mp hbottom
  have htop := abs_le.mp htop
  have hfloor := (Int.floor_le r.high).trans (max_le hbottom.2 htop.2)
  rw [abs_le]
  constructor
  · refine Int.le_floor.mpr ?_
    push_cast
    exact hbottom.1.trans (le_max_left _ _)
  · exact_mod_cast hfloor

end

end AxisRange

namespace AxisPlan

/-! ### Values that may have a tick -/

theorem labelStart_ofRange {range : AxisRange Rat} (hlow : |range.low| ≤ 2 ^ 62)
    (steps : List Int) (digits : Rat) (format : LabelFormat) :
    (ofRange range steps digits format).labelStart = ⌈range.low⌉ := by
  have hwords : (Scalar.minInt64 : Int) ≤ -2 ^ 62 ∧ (2 : Int) ^ 62 ≤ Scalar.maxInt64 := by
    decide
  have hceil : Scalar.toInt (Scalar.ceil range.low : Rat) = ⌈range.low⌉ := by
    have hbounds := abs_le.mp (abs_ceil_le hlow)
    rw [Exact.ceil_eq]
    exact Exact.toInt_intCast (hwords.1.trans hbounds.1) (hbounds.2.trans hwords.2)
  rw [← hceil, ofRange]
  dsimp only
  split
  case isTrue hle => rw [AxisRange.low, min_eq_left hle]
  case isFalse hlt => rw [AxisRange.low, min_eq_right (not_le.mp hlt).le]

/-- The whole numbers of a range may have a tick, also where the range is one point. -/
theorem labels_ofRange {range : AxisRange Rat} (hbottom : |range.bottom| ≤ 2 ^ 62)
    (htop : |range.top| ≤ 2 ^ 62) (steps : List Int) (digits : Rat) (format : LabelFormat) :
    (ofRange range steps digits format).labelStart = ⌈range.low⌉ ∧
      (ofRange range steps digits format).labelEnd = ⌊range.high⌋ := by
  refine ⟨labelStart_ofRange (AxisRange.abs_low_le hbottom htop) steps digits format, ?_⟩
  have hwords : (Scalar.minInt64 : Int) ≤ -2 ^ 62 ∧ (2 : Int) ^ 62 ≤ Scalar.maxInt64 := by
    decide
  have hhigh : Scalar.toInt (Scalar.floor range.high : Rat) = ⌊range.high⌋ := by
    have hbounds := abs_le.mp (AxisRange.abs_floor_high_le hbottom htop)
    exact Exact.toInt_intCast (hwords.1.trans hbounds.1) (hbounds.2.trans hwords.2)
  rw [← hhigh, ofRange]
  dsimp only
  split
  case isTrue hle => rw [AxisRange.high, max_eq_right hle]
  case isFalse hlt => rw [AxisRange.high, max_eq_left (not_le.mp hlt).le]

/-! ### Multiples of the step -/

/-- If the first tick is the first multiple of the step that may have one, the
ticks are the multiples. -/
theorem mem_ticks_of_firstTick {α : Type} [Scalar α] {axis : AxisPlan α} {step v : Int}
    (hpos : 0 < step)
    (hfirst : step ∣ axis.firstTick step ∧ axis.labelStart ≤ axis.firstTick step ∧
      axis.firstTick step < axis.labelStart + step) :
    v ∈ axis.ticks step ↔ step ∣ v ∧ axis.labelStart ≤ v ∧ v ≤ axis.labelEnd := by
  obtain ⟨⟨k, hk⟩, hlow, hhigh⟩ := hfirst
  rw [mem_ticks hpos]
  constructor
  · rintro ⟨hend, i, rfl⟩
    have hi : 0 ≤ (i : Int) * step := Int.mul_nonneg (by omega) hpos.le
    exact ⟨hk ▸ Int.dvd_add (Int.dvd_mul_right step k) (Int.dvd_mul_left i step),
      by omega, hend⟩
  · rintro ⟨⟨n, rfl⟩, hstart, hend⟩
    -- no multiple lies between the start and the first tick
    have hkn : k ≤ n := by
      by_contra hlt
      have hle : step * n ≤ step * (k - 1) := Int.mul_le_mul_of_nonneg_left (by omega) hpos.le
      rw [Int.mul_sub, Int.mul_one, ← hk] at hle
      omega
    refine ⟨hend, (n - k).toNat, ?_⟩
    rw [hk, Int.toNat_of_nonneg (by omega)]
    ring

variable {axis : AxisPlan Rat} {step v : Int}

/-- **The first tick is the first multiple of the step** that may have one. -/
theorem firstTick_spec (hstart : |axis.labelStart| ≤ 2 ^ 62) (hpos : 0 < step)
    (hword : step ≤ Scalar.maxInt64) :
    step ∣ axis.firstTick step ∧ axis.labelStart ≤ axis.firstTick step ∧
      axis.firstTick step < axis.labelStart + step := by
  have hstep : (0 : Rat) < step := Int.cast_pos.mpr hpos
  -- the multiple as a rational number, and between which values it lies
  obtain ⟨k, hk⟩ : ∃ k : Int, k = ⌈(axis.labelStart : Rat) / step⌉ := ⟨_, rfl⟩
  have hlow : axis.labelStart ≤ k * step := by
    have hle := Int.le_ceil ((axis.labelStart : Rat) / step)
    rw [← hk, div_le_iff₀ hstep] at hle
    exact_mod_cast hle
  have hhigh : k * step < axis.labelStart + step := by
    have hlt := Int.ceil_lt_add_one ((axis.labelStart : Rat) / step)
    rw [← hk, ← sub_lt_iff_lt_add, lt_div_iff₀ hstep] at hlt
    have hcast : ((k * step : Int) : Rat) < ((axis.labelStart + step : Int) : Rat) := by
      push_cast
      linarith
    exact_mod_cast hcast
  have hsum : LineCharts.firstTick (axis.labelStart : Rat) step =
      ((k * step : Int) : Rat) := by
    rw [LineCharts.firstTick, Exact.zero_lit, if_pos hstep, add_zero, Int.cast_mul, hk,
      Exact.ceil_eq]
  have htick : axis.firstTick step = k * step := by
    show Scalar.toInt (LineCharts.firstTick (axis.labelStart : Rat) step) = _
    rw [hsum]
    have hbounds := abs_le.mp hstart
    have hlarge : (2 : Int) ^ 53 < Scalar.maxInt64 := by decide
    refine Exact.toInt_intCast ?_ ?_
    · exact le_trans (by decide) (hbounds.1.trans hlow)
    · -- a multiple of a positive start is the step itself, or less than twice the start
      by_cases hk1 : k ≤ 1
      · rcases Int.lt_or_le 0 k with h0 | h0
        · obtain rfl : k = 1 := by omega
          rwa [one_mul]
        · exact (Int.mul_nonpos_of_nonpos_of_nonneg h0 hpos.le).trans (by decide)
      · have htwice : 2 * step ≤ k * step := Int.mul_le_mul_of_nonneg_right (by omega) hpos.le
        rw [Scalar.maxInt64]
        omega
  rw [htick]
  exact ⟨Int.dvd_mul_left k step, hlow, hhigh⟩

/-- **The ticks are the multiples of the step** among the values that may have one. -/
theorem mem_ticks_iff (hstart : |axis.labelStart| ≤ 2 ^ 62) (hpos : 0 < step)
    (hword : step ≤ Scalar.maxInt64) :
    v ∈ axis.ticks step ↔ step ∣ v ∧ axis.labelStart ≤ v ∧ v ≤ axis.labelEnd :=
  mem_ticks_of_firstTick hpos (firstTick_spec hstart hpos hword)

end AxisPlan

section

variable {α : Type} [Scalar α] {axis : AxisPlan α} {step : Int}

/-- Each tick is at least a step behind the one before. -/
theorem AxisPlan.pairwise_ticks (hpos : 0 < step) :
    (axis.ticks step).Pairwise fun v w => v + step ≤ w := by
  have hmax : max step 1 = step := by omega
  simp only [ticks, hmax]
  split
  · exact List.Pairwise.nil
  · refine List.pairwise_map.mpr (List.pairwise_lt_range.imp fun {i j} hij => ?_)
    have hle : ((i : Int) + 1) * step ≤ j * step :=
      Int.mul_le_mul_of_nonneg_right (by omega) hpos.le
    rw [Int.add_mul] at hle
    omega

end

/-! ### Their number -/

/-- There is one tick more at most than steps between the values that may have one. -/
theorem AxisPlan.length_ticks_le {range : AxisRange Rat} (h : range.Bounded)
    (steps : List Int) (digits : Rat) (format : LabelFormat) {step : Int} (hpos : 0 < step)
    (hword : step ≤ Scalar.maxInt64) :
    (((ofRange range steps digits format).ticks step).length : Int) ≤
      ⌊|range.span| / step⌋ + 1 := by
  obtain ⟨hstart, hend⟩ := labels_ofRange h.bottom_le h.top_le steps digits format
  have hspan : (0 : Rat) ≤ |range.span| / step :=
    div_nonneg (abs_nonneg _) (Int.cast_pos.mpr hpos).le
  have hfloor : 0 ≤ ⌊|range.span| / step⌋ := Int.floor_nonneg.mpr hspan
  obtain ⟨_, hlow, _⟩ :=
    firstTick_spec (hstart ▸ AxisRange.abs_ceil_low_le h.bottom_le h.top_le) hpos hword
  generalize ofRange range steps digits format = axis at *
  have hmax : max step 1 = step := by omega
  simp only [ticks, hmax]
  split
  case isTrue =>
    rw [List.length_nil]
    omega
  case isFalse =>
    have hcount : (axis.labelEnd - axis.firstTick step) / step ≤ ⌊|range.span| / step⌋ := by
      refine Int.le_floor.mpr ((le_div_iff₀ (Int.cast_pos.mpr hpos)).mpr ?_)
      have hdiv := Int.ediv_mul_le (axis.labelEnd - axis.firstTick step) hpos.ne'
      have hroom : ((axis.labelEnd - axis.labelStart : Int) : Rat) ≤ |range.span| := by
        rw [← range.high_sub_low, hstart, hend]
        push_cast
        linarith [Int.le_ceil range.low, Int.floor_le range.high]
      calc (((axis.labelEnd - axis.firstTick step) / step : Int) : Rat) * step
          ≤ ((axis.labelEnd - axis.labelStart : Int) : Rat) := by
            exact_mod_cast hdiv.trans (by omega)
        _ ≤ |range.span| := hroom
    rw [List.length_map, List.length_range]
    omega

/-! ### The step that is chosen -/

theorem Exact.one_le_labelBudget (pixels spacing : Rat) : 1 ≤ labelBudget pixels spacing := by
  rw [labelBudget, one_lit]
  split
  · exact le_max_right _ _
  · exact le_rfl

/-- The room for labels that take some room. -/
theorem Exact.labelBudget_of_pos {pixels spacing : Rat} (hpos : 0 < spacing) :
    labelBudget pixels spacing = (max 1 ⌊pixels / spacing⌋ : Int) := by
  have hlit : (0.0 : Rat) < spacing := zero_lit ▸ hpos
  rw [labelBudget, decide_eq_true hlit, one_lit, Int.cast_max, Int.cast_one, max_comm]
  rfl

/-- The room for labels on an axis that has room for one. -/
theorem Exact.labelBudget_eq {pixels spacing : Rat} (hpos : 0 < spacing)
    (hle : spacing ≤ pixels) :
    labelBudget pixels spacing = ⌊pixels / spacing⌋ := by
  have hone : 1 ≤ ⌊pixels / spacing⌋ :=
    Int.le_floor.mpr (by rwa [Int.cast_one, one_le_div hpos])
  rw [labelBudget_of_pos hpos, max_eq_right hone]

theorem Exact.labelBudget_of_nonpos {pixels spacing : Rat} (h : spacing ≤ 0) :
    labelBudget pixels spacing = 1 := by
  have hlit : ¬ (0.0 : Rat) < spacing := by
    rw [zero_lit]
    exact not_lt.mpr h
  rw [labelBudget, decide_eq_false hlit, Bool.false_and, if_neg Bool.false_ne_true, one_lit]

/-- **The labels fit** with the step that is chosen. -/
theorem div_chooseStep_le {range : AxisRange Rat} (h : range.Bounded) (steps : List Int)
    (pixels spacing : Rat) :
    |range.span| / chooseStep steps range.span pixels spacing ≤
      labelBudget pixels spacing := by
  have hne : (Scalar.abs range.span == (0.0 : Rat)) = false := by
    rw [beq_eq_false_iff_ne, Scalar.abs_eq, Exact.zero_lit]
    exact abs_ne_zero.mpr h.span
  have hmax : stepFits (Scalar.abs range.span) (labelBudget pixels spacing)
      Scalar.maxInt64 = true := by
    rw [stepFits, Scalar.abs_eq, decide_eq_true_eq]
    show |range.span| / (Scalar.maxInt64 : Rat) ≤ _
    refine le_trans ?_ (Exact.one_le_labelBudget pixels spacing)
    rw [div_le_one (by norm_num [Scalar.maxInt64])]
    refine h.abs_span_le.trans ?_
    norm_num [Scalar.maxInt64]
  have hfits : stepFits _ _ (chooseStep steps range.span pixels spacing) = true :=
    fits_chooseStep rfl hne hmax
  rw [stepFits, Scalar.abs_eq, decide_eq_true_eq] at hfits
  exact hfits

end LineCharts
