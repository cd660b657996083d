/-
How many ticks an axis along the carriers has, and how large the integers are
that listing them forms.

* `FromZero` — an axis that starts at zero and ends at a number that is not negative, as
  `binAxis` and `frequencyAxis` do;
* `ticksBounded_iff` — on such an axis the ticks stay within the budget for labels, and all
  integers within a word, exactly if the last label is within the budget and the first
  multiple of the step behind it within a word;
* `ticksBounded_stepX` — an axis that ends below `2 ^ 62` has this property, with the step
  that a layout chooses;
* `ticksBounded_stepX_iff` — an axis that ends at `2 ^ 63` or beyond has it
  not, whatever the step.

Design notes.  The step is chosen by a rounded quotient.  The quotient is within the
budget, which is below `2 ^ 53`, so the exact quotient is less than one above it, and that
is enough for whole numbers.
-/
import LineCharts.Layout.Basic
import LineCharts.Proofs.Axis.Step
import LineCharts.Proofs.Double.Whole

namespace LineCharts

open Double

/-! ### What is claimed -/

/-- The ticks of an axis stay within a budget for labels, and the integers that listing
them forms within a word: the multiples of the step, up to the first one whose value is
refused, and the values. -/
structure AxisPlan.TicksBounded (axis : AxisPlan Float) (step : Int) (budget : Float) :
    Prop where
  count : ((axis.ticks step).length : Int) ≤ Double.toInt budget + 1
  product : ∀ i : Nat, i ≤ (axis.ticks step).length → Scalar.fitsInt64 (i * step) = true
  value : ∀ i : Nat, i ≤ (axis.ticks step).length →
    Scalar.fitsInt64 (axis.firstTick step + i * step) = true

/-- An axis that starts at zero, with steps of few digits. -/
structure AxisPlan.FromZero (axis : AxisPlan Float) : Prop where
  bottom : axis.range.bottom = 0.0
  top : Plus (parts axis.range.top)
  labelStart : axis.labelStart = 0
  labelEnd : axis.labelEnd = Double.toInt (Double.floor axis.range.top)
  steps : ∀ s ∈ axis.steps, 0 < s ∧ s < 2 ^ 53

variable {axis : AxisPlan Float} {step : Int}

theorem fromZero_ofRange {top : Float} (htop : Plus (parts top)) {steps : List Int}
    (hsteps : ∀ s ∈ steps, 0 < s ∧ s < 2 ^ 53) (digits : Float) (format : LabelFormat) :
    (AxisPlan.ofRange ⟨0.0, top⟩ steps digits format).FromZero := by
  have hle : (0.0 : Float) ≤ top := zero_le htop
  have hplan : AxisPlan.ofRange ⟨0.0, top⟩ steps digits format =
      ⟨⟨0.0, top⟩, Double.toInt (Double.ceil 0.0), Double.toInt (Double.floor top), steps,
        digits, format⟩ := by
    rw [AxisPlan.ofRange]
    dsimp only
    rw [if_pos hle]
    rfl
  have hstart : Double.toInt (Double.ceil 0.0) = 0 := by decide
  rw [hplan]
  exact ⟨rfl, htop, hstart, rfl, hsteps⟩

theorem fromZero_binAxis (n : Nat) : (binAxis n : AxisPlan Float).FromZero := by
  have htop : Rounds n (Scalar.ofNat n : Float) := rounds_ofNat n
  exact fromZero_ofRange htop.plus (by decide) _ _

theorem fromZero_frequencyAxis {n : Nat} (hn : n < 2 ^ 64) {spacing : Float}
    (hfinite : spacing.isFinite = true) (hpos : 0.0 < spacing) :
    (frequencyAxis n spacing).FromZero := by
  have hcount : Rounds n (Scalar.ofNat n : Float) := rounds_ofNat n
  have hword : Representable ((1 * 2 ^ 64 : Nat) : ℚ) :=
    representable_mul_pow (by norm_num) (by norm_num)
  have hle : (n : ℚ) ≤ ((1 * 2 ^ 64 : Nat) : ℚ) := Nat.cast_le.2 (by omega)
  obtain ⟨a, ha, _⟩ := hcount.exists_amount hword hle
  obtain ⟨b, _, hb⟩ := amount_of_isFinite (plus_of_pos hpos) hfinite
  exact fromZero_ofRange (rounds_mul hcount.plus (plus_of_pos hpos) ha hb).plus
    (by decide) _ _

theorem representable_one : Representable 1 := by
  exact_mod_cast representable_natCast (n := 1) (by norm_num)

/-- A step as a double: a number from one on. -/
theorem amount_ofInt_step (hpos : 1 ≤ step) (hle : step ≤ Scalar.maxInt64) :
    ∃ s : ℚ, Rounds step (Double.ofInt step) ∧
      amount (parts (Double.ofInt step)) = s ∧ 1 ≤ s := by
  rw [Scalar.maxInt64] at hle
  have hstep : Rounds (step : ℚ) (Double.ofInt step) := rounds_ofInt (by omega)
  have hword : Representable ((1 * 2 ^ 63 : Nat) : ℚ) :=
    representable_mul_pow (by norm_num) (by norm_num)
  have hbelow : (step : ℚ) ≤ ((1 * 2 ^ 63 : Nat) : ℚ) := by
    exact_mod_cast (show step ≤ 1 * 2 ^ 63 by omega)
  obtain ⟨s, hs, _⟩ := hstep.exists_amount hword hbelow
  have hlow := hstep.low representable_one (by exact_mod_cast hpos)
  rw [hs] at hlow
  exact ⟨s, hstep, hs, WithTop.coe_le_coe.1 hlow⟩

/-- Steps lead upwards. -/
theorem AxisPlan.firstTick_of_pos (hpos : 1 ≤ step) (hle : step ≤ Scalar.maxInt64) :
    axis.firstTick step = Double.toInt
      (Double.ceil (Double.ofInt axis.labelStart / Double.ofInt step) *
        Double.ofInt step + 0.0) := by
  obtain ⟨s, hstep, hs, hlow⟩ := amount_ofInt_step hpos hle
  have hsize : (0.0 : Float) < Double.ofInt step := by
    rw [lt_iff_amount plus_zero hstep.plus, hs, parts_zero]
    exact WithTop.coe_lt_coe.2 (by linarith)
  exact congrArg Double.toInt (if_pos hsize)

/-- Where values from zero on may have a tick, the first tick is at zero. -/
theorem AxisPlan.firstTick_of_labelStart (hzero : axis.labelStart = 0) (hpos : 1 ≤ step)
    (hle : step ≤ Scalar.maxInt64) : axis.firstTick step = 0 := by
  obtain ⟨s, hstep, hs, hlow⟩ := amount_ofInt_step hpos hle
  have hstart : Double.ofInt 0 = 0.0 := by decide
  have hceil : Double.ceil 0.0 = 0.0 := by decide
  rw [firstTick_of_pos hpos hle, hzero, hstart,
    zero_div_of_amount hstep.plus hs (by linarith), hceil, zero_mul_of_amount hstep.plus hs]
  decide

namespace AxisPlan.FromZero

variable {T : ℚ}

theorem labelEnd_eq (h : axis.FromZero) (hT : amount (parts axis.range.top) = T) :
    axis.labelEnd = min ⌊T⌋ Scalar.maxInt64 := by
  rw [h.labelEnd, toInt_floor h.top hT]

theorem labelEnd_of_infinity (h : axis.FromZero) (hT : amount (parts axis.range.top) = ⊤) :
    axis.labelEnd = Scalar.maxInt64 := by
  rw [h.labelEnd, toInt_floor_infinity (parts_of_top h.top hT)]

theorem labelEnd_nonneg (h : axis.FromZero) : 0 ≤ axis.labelEnd := by
  have hword : (0 : Int) ≤ Scalar.maxInt64 := by decide
  cases hT : amount (parts axis.range.top) with
  | top =>
    rw [h.labelEnd_of_infinity hT]
    exact hword
  | coe T =>
    have hnonneg : (0 : ℚ) ≤ T := by
      have hle := zero_le_amount (parts axis.range.top)
      rw [hT] at hle
      exact WithTop.coe_le_coe.1 hle
    rw [h.labelEnd_eq hT]
    exact le_min (Int.floor_nonneg.2 hnonneg) hword

/-- The first tick is at zero. -/
theorem firstTick_eq (h : axis.FromZero) (hpos : 1 ≤ step) (hle : step ≤ Scalar.maxInt64) :
    axis.firstTick step = 0 := firstTick_of_labelStart h.labelStart hpos hle

/-- There is one tick more than there are steps up to the last label. -/
theorem length_ticks (h : axis.FromZero) (hpos : 1 ≤ step) (hle : step ≤ Scalar.maxInt64) :
    ((axis.ticks step).length : Int) = axis.labelEnd / step + 1 := by
  have hend := h.labelEnd_nonneg
  have hstep : max step 1 = step := by omega
  have hdiv : 0 ≤ axis.labelEnd / step := Int.ediv_nonneg hend (by omega)
  simp only [AxisPlan.ticks, hstep, h.firstTick_eq hpos hle, Int.sub_zero]
  rw [if_neg (by omega), List.length_map, List.length_range]
  omega

/-- The greatest integer that listing the ticks forms is the first multiple of the
step that is refused. -/
theorem ticksBounded_iff (h : axis.FromZero) (hpos : 1 ≤ step) (hle : step ≤ Scalar.maxInt64)
    (budget : Float) : axis.TicksBounded step budget ↔
      axis.labelEnd / step ≤ Double.toInt budget ∧
        (axis.labelEnd / step + 1) * step ≤ Scalar.maxInt64 := by
  have hlength := h.length_ticks hpos hle
  have hfirst := h.firstTick_eq hpos hle
  constructor
  · rintro ⟨hcount, hproduct, _⟩
    have hlast := hproduct _ (Nat.le_refl _)
    rw [Scalar.fitsInt64_iff, hlength] at hlast
    exact ⟨by omega, hlast.2⟩
  · rintro ⟨hcount, hlast⟩
    -- no multiple up to the refused one is above it
    have hproduct : ∀ i : Nat, i ≤ (axis.ticks step).length →
        Scalar.fitsInt64 (i * step) = true := by
      intro i hi
      have hmul : (i : Int) * step ≤ (axis.labelEnd / step + 1) * step :=
        Int.mul_le_mul_of_nonneg_right (by omega) (by omega)
      have hnonneg : 0 ≤ (i : Int) * step := Int.mul_nonneg (by omega) (by omega)
      rw [Scalar.fitsInt64_iff, Scalar.minInt64]
      omega
    refine ⟨by omega, hproduct, ?_⟩
    intro i hi
    rw [hfirst, Int.zero_add]
    exact hproduct i hi

end AxisPlan.FromZero

/-! ### The budget -/

theorem one_le_max (x : Float) :
    Plus (parts (Double.max x 1.0)) ∧ 1 ≤ amount (parts (Double.max x 1.0)) := by
  obtain ⟨h, hone⟩ := parts_one
  have hmax := le_max hone x
  rwa [amount_one] at hmax

/-- There is room for a label. -/
theorem one_le_labelBudget (pixels spacing : Float) :
    Plus (parts (labelBudget pixels spacing)) ∧
      1 ≤ amount (parts (labelBudget pixels spacing)) := by
  rw [labelBudget]
  split
  · exact one_le_max _
  · have hmax := one_le_max 1.0
    rwa [show Double.max 1.0 1.0 = (1.0 : Float) by decide] at hmax

/-- The labels fit with a large word. -/
theorem stepFits_of_large {x : Float} {T : ℚ} (hx : Plus (parts x))
    (hT : amount (parts x) = T) (hle : T ≤ 2 ^ 62) (pixels spacing : Float)
    (hlarge : 2 ^ 62 ≤ step) (hword : step ≤ Scalar.maxInt64) :
    stepFits x (labelBudget pixels spacing) step = true := by
  obtain ⟨hplus, hbudget⟩ := one_le_labelBudget pixels spacing
  obtain ⟨s, hstep, hs, hone⟩ := amount_ofInt_step (by omega) hword
  have hhalf : Representable ((1 * 2 ^ 62 : Nat) : ℚ) :=
    representable_mul_pow (by norm_num) (by norm_num)
  have hlow := hstep.low hhalf (by exact_mod_cast (show 1 * 2 ^ 62 ≤ step by omega))
  rw [hs] at hlow
  have hsize : ((1 * 2 ^ 62 : Nat) : ℚ) ≤ s := WithTop.coe_le_coe.1 hlow
  push_cast at hsize
  have hquotient := rounds_div hx hstep.plus hT hs (by linarith)
  have hle : amount (parts (x / Double.ofInt step)) ≤ (1 : ℚ) := by
    refine hquotient.high representable_one ?_
    rw [div_le_one (by linarith)]
    linarith
  have hfit : x / Double.ofInt step ≤ labelBudget pixels spacing := by
    rw [le_iff_amount hquotient.plus hplus]
    exact le_trans hle hbudget
  exact decide_eq_true hfit

/-! ### The step of a layout -/

namespace AxisPlan.FromZero

variable {T : ℚ} {pixels spacing : Float}

theorem span_eq (h : axis.FromZero) : Scalar.abs axis.range.span = axis.range.top := by
  have hspan : axis.range.span = axis.range.top := by
    show axis.range.top - axis.range.bottom = axis.range.top
    rw [h.bottom]
    exact sub_zero_of_plus h.top
  rw [hspan]
  exact abs_of_plus h.top

theorem steps_fit (h : axis.FromZero) : ∀ s ∈ axis.steps, s ≤ Scalar.maxInt64 := by
  intro s hs
  have hlt := (h.steps s hs).2
  rw [Scalar.maxInt64]
  omega

/-- The chosen step is the greatest word, or a double holds it. -/
theorem representable_chooseStep (h : axis.FromZero) (range pixels spacing : Float) :
    chooseStep axis.steps range pixels spacing = Scalar.maxInt64 ∨
      Representable (chooseStep axis.steps range pixels spacing : ℚ) := by
  have hheld {s : Int} (hs : 0 < s ∧ s < 2 ^ 53) : Representable (s : ℚ) := by
    obtain ⟨n, rfl⟩ := Int.eq_ofNat_of_zero_le hs.1.le
    exact_mod_cast representable_natCast (n := n) (by omega)
  rcases chooseStep_cases axis.steps range pixels spacing with heq | ⟨hmem, _⟩ | heq
  · right
    rw [heq]
    have hsteps := h.steps
    generalize axis.steps = steps at *
    cases steps with
    | nil => exact hheld (by decide)
    | cons s rest =>
      have hs := hsteps s List.mem_cons_self
      refine hheld ?_
      show 0 < max s 1 ∧ max s 1 < 2 ^ 53
      omega
  · exact .inr (hheld (h.steps _ hmem))
  · -- a doubled candidate has as few bits as the candidate
    have hgreatest : 0 < greatestStep axis.steps ∧ greatestStep axis.steps < 2 ^ 53 := by
      rcases greatestStep_cases axis.steps with hone | hmem
      · rw [hone]
        norm_num
      · exact h.steps _ hmem
    rw [heq]
    generalize greatestStep axis.steps = g at *
    have hword : g ≤ Scalar.maxInt64 := by
      rw [Scalar.maxInt64]
      omega
    rcases doubleUntil_cases (stepFits (Scalar.abs range) (labelBudget pixels spacing)) 64
        hgreatest.1 hword with hmax | ⟨k, hk, hdouble, _⟩
    · exact .inl hmax
    · right
      rw [hdouble]
      obtain ⟨n, rfl⟩ := Int.eq_ofNat_of_zero_le hgreatest.1.le
      exact_mod_cast representable_mul_pow (g := n) (k := k) (by omega) (by omega)

/-- The labels fit with the greatest word. -/
theorem stepFits_maxInt64 (h : axis.FromZero) (pixels spacing : Float)
    (hT : amount (parts axis.range.top) = T) (hlt : T < 2 ^ 62) :
    stepFits axis.range.top (labelBudget pixels spacing) Scalar.maxInt64 = true :=
  stepFits_of_large h.top hT hlt.le pixels spacing (by decide) (le_refl _)

/-- The labels fit with the chosen step. -/
theorem stepFits_chooseStep (h : axis.FromZero) (pixels spacing : Float)
    (hT : amount (parts axis.range.top) = T) (hlt : T < 2 ^ 62)
    (hne : amount (parts axis.range.top) ≠ 0) :
    stepFits axis.range.top (labelBudget pixels spacing)
      (chooseStep axis.steps axis.range.span pixels spacing) = true := by
  have hfinite : Scalar.isFinite (Scalar.abs axis.range.span) = true := by
    rw [h.span_eq]
    exact isFinite_of_amount h.top hT
  have hnonzero : (Scalar.abs axis.range.span == (0.0 : Float)) = false := by
    rw [h.span_eq]
    exact Bool.eq_false_iff.2 fun hzero => hne (amount_of_beq_zero hzero)
  have hmax := h.stepFits_maxInt64 pixels spacing hT hlt
  rw [← h.span_eq] at hmax ⊢
  exact fits_chooseStep hfinite hnonzero hmax

/-- As many steps as fit below a range that fits are within the budget. -/
theorem ediv_le_of_stepFits {x budget : Float} {B : ℚ} {c n : Int} (hx : Plus (parts x))
    (hT : amount (parts x) = T) (hplus : Plus (parts budget)) (hB : amount (parts budget) = B)
    (hroom : B < 2 ^ 53) (hnonneg : 0 ≤ B) (hheld : Representable (c : ℚ)) (hpos : 1 ≤ c)
    (hword : c ≤ Scalar.maxInt64) (hfit : stepFits x budget c = true) (hn : n ≤ ⌊T⌋) :
    n / c ≤ ⌊B⌋ := by
  by_contra hmore
  have hcpos : (1 : ℚ) ≤ c := by exact_mod_cast hpos
  obtain ⟨s, hstep, _, _⟩ := amount_ofInt_step hpos hword
  have hquotient := rounds_div hx hstep.plus hT (hstep.amount_eq hheld) (by linarith)
  have hle : x / Double.ofInt c ≤ budget := of_decide_eq_true hfit
  rw [le_iff_amount hquotient.plus hplus, hB] at hle
  -- one more than the whole part of the budget is not above the quotient, so it is within the
  -- budget
  have hBfloor : 0 ≤ ⌊B⌋ := Int.floor_nonneg.2 hnonneg
  obtain ⟨k, hk⟩ := Int.eq_ofNat_of_zero_le (show 0 ≤ ⌊B⌋ + 1 by omega)
  have hkbits : k ≤ 2 ^ 53 := by
    have hfloorB : ⌊B⌋ < 2 ^ 53 := Int.floor_lt.2 (by exact_mod_cast hroom)
    omega
  have hkT : (k : ℚ) ≤ T / c := by
    rw [le_div_iff₀ (by linarith)]
    have hmul : (k : Int) * c ≤ n := by
      have hdiv := Int.ediv_mul_le n (b := c) (by omega)
      have hle : (k : Int) * c ≤ n / c * c :=
        Int.mul_le_mul_of_nonneg_right (by omega) (by omega)
      omega
    calc (k : ℚ) * c = (((k : Int) * c : Int) : ℚ) := by push_cast; ring
      _ ≤ (⌊T⌋ : ℚ) := Int.cast_le.2 (by omega)
      _ ≤ T := Int.floor_le T
  have hkB : (k : ℚ) ≤ B :=
    WithTop.coe_le_coe.1 (le_trans (hquotient.low (representable_natCast hkbits) hkT) hle)
  have hlast : B < (⌊B⌋ : ℚ) + 1 := Int.lt_floor_add_one B
  have hkq : (k : ℚ) = (⌊B⌋ : ℚ) + 1 := by exact_mod_cast hk.symm
  linarith

/-- **An axis that ends below `2 ^ 62` has as many ticks as there is room for labels, and
one**, if there is room for less than `2 ^ 53`. -/
theorem ticksBounded_chooseStep (h : axis.FromZero) (hT : amount (parts axis.range.top) = T)
    (hlt : T < 2 ^ 62) {B : ℚ} (hB : amount (parts (labelBudget pixels spacing)) = B)
    (hroom : B < 2 ^ 53) :
    axis.TicksBounded (chooseStep axis.steps axis.range.span pixels spacing)
      (labelBudget pixels spacing) := by
  obtain ⟨hpos, hle⟩ := chooseStep_pos axis.steps h.steps_fit axis.range.span pixels spacing
  have hheld := h.representable_chooseStep axis.range.span pixels spacing
  have hfits := h.stepFits_chooseStep pixels spacing hT hlt
  generalize chooseStep axis.steps axis.range.span pixels spacing = c at *
  have hend := h.labelEnd_nonneg
  have hfloor : axis.labelEnd ≤ ⌊T⌋ := by
    rw [h.labelEnd_eq hT]
    exact min_le_left _ _
  have hbelow : axis.labelEnd < 2 ^ 62 := by
    have hT' : ⌊T⌋ < 2 ^ 62 := Int.floor_lt.2 (by exact_mod_cast hlt)
    omega
  have hplus := (one_le_labelBudget pixels spacing).1
  have hnonneg : (0 : ℚ) ≤ B := by
    have hle := zero_le_amount (parts (labelBudget pixels spacing))
    rw [hB] at hle
    exact WithTop.coe_le_coe.1 hle
  have hBfloor : 0 ≤ ⌊B⌋ := Int.floor_nonneg.2 hnonneg
  rw [h.ticksBounded_iff hpos hle, toInt_of_amount hplus hB]
  rw [Scalar.maxInt64] at hle ⊢
  by_cases hlarge : axis.labelEnd < c
  · -- there is the tick at zero only
    rw [Int.ediv_eq_zero_of_lt hend hlarge]
    omega
  · have hdiv := Int.ediv_mul_le axis.labelEnd (b := c) (by omega)
    have hquot : axis.labelEnd / c ≤ axis.labelEnd := Int.ediv_le_self c hend
    have hcT : (c : ℚ) ≤ T := le_trans (Int.cast_le.2 (by omega)) (Int.floor_le T)
    have hcpos : (1 : ℚ) ≤ c := by exact_mod_cast hpos
    have hc : Representable (c : ℚ) := hheld.resolve_left (by rw [Scalar.maxInt64]; omega)
    have hfit := hfits (by rw [hT]; exact WithTop.coe_ne_zero.2 (by linarith))
    have hsteps := ediv_le_of_stepFits h.top hT hplus hB hroom hnonneg hc hpos
      (by rw [Scalar.maxInt64]; omega) hfit hfloor
    refine ⟨le_min hsteps (by omega), ?_⟩
    rw [Int.add_mul]
    omega

/-- An axis that ends at `2 ^ 63` or beyond has a tick too many: the value behind the last
label does not fit into a word. -/
theorem not_ticksBounded (h : axis.FromZero)
    (hlarge : ((2 ^ 63 : ℚ) : WithTop ℚ) ≤ amount (parts axis.range.top)) (hpos : 1 ≤ step)
    (hle : step ≤ Scalar.maxInt64) (budget : Float) : ¬ axis.TicksBounded step budget := by
  have hend : axis.labelEnd = Scalar.maxInt64 := by
    cases hT : amount (parts axis.range.top) with
    | top => exact h.labelEnd_of_infinity hT
    | coe T =>
      rw [hT] at hlarge
      have hfloor : (2 : Int) ^ 63 ≤ ⌊T⌋ :=
        Int.le_floor.2 (by exact_mod_cast WithTop.coe_le_coe.1 hlarge)
      rw [h.labelEnd_eq hT, Scalar.maxInt64]
      omega
  rw [h.ticksBounded_iff hpos hle, hend]
  rintro ⟨_, hlast⟩
  -- the first multiple behind the greatest word is beyond all words
  have hmod := Int.emod_lt_of_pos Scalar.maxInt64 (b := step) (by omega)
  have hdiv := Int.mul_ediv_add_emod Scalar.maxInt64 step
  rw [Int.add_mul, Int.mul_comm] at hlast
  omega

end AxisPlan.FromZero

/-- The axes along the carriers of a snapshot start at zero. -/
theorem fromZero_carriers {n : Nat} (hn : n < 2 ^ 64) {spacing : Float}
    (hfinite : spacing.isFinite = true) (hpos : 0.0 < spacing)
    (haxis : axis = binAxis n ∨ axis = frequencyAxis n spacing) : axis.FromZero := by
  rcases haxis with rfl | rfl
  · exact fromZero_binAxis n
  · exact fromZero_frequencyAxis hn hfinite hpos

namespace Layout

/-- The room for labels on the horizontal axis of a layout. -/
def budgetX (layout : Layout Float) (digits : Float) : Float :=
  labelBudget layout.plot.width (layout.metrics.labelSpacing digits)

theorem amount_ofNat_pow {k : Nat} (hk : k < 64) :
    Plus (parts (Scalar.ofNat (2 ^ k) : Float)) ∧
      amount (parts (Scalar.ofNat (2 ^ k) : Float)) = ((2 ^ k : ℚ) : WithTop ℚ) := by
  have hrounds : Rounds ((2 ^ k : Nat) : ℚ) (Scalar.ofNat (2 ^ k) : Float) := rounds_ofNat _
  have hheld := representable_mul_pow (g := 1) (k := k) (by norm_num) (by omega)
  rw [one_mul] at hheld
  exact ⟨hrounds.plus, by rw [hrounds.amount_eq hheld, Nat.cast_pow, Nat.cast_ofNat]⟩

section

variable {axis : AxisPlan Float} (h : axis.FromZero) (params : Params Float)
  (yAxis : AxisPlan Float) (legend : Option (Legend Float)) (measure : TextMeasure Float)
include h

theorem stepX_pos : 1 ≤ (compute params axis yAxis legend measure).stepX ∧
    (compute params axis yAxis legend measure).stepX ≤ Scalar.maxInt64 :=
  chooseStep_pos axis.steps h.steps_fit _ _ _

theorem ticksBounded_stepX (hend : axis.range.top < Scalar.ofNat (2 ^ 62))
    (hroom : (compute params axis yAxis legend measure).budgetX axis.digits <
      Scalar.ofNat (2 ^ 53)) :
    axis.TicksBounded (compute params axis yAxis legend measure).stepX
      ((compute params axis yAxis legend measure).budgetX axis.digits) := by
  have hbudget := (one_le_labelBudget (compute params axis yAxis legend measure).plot.width
    ((compute params axis yAxis legend measure).metrics.labelSpacing axis.digits)).1
  obtain ⟨hplus, hamount⟩ := amount_ofNat_pow (k := 62) (by norm_num)
  obtain ⟨hplus', hamount'⟩ := amount_ofNat_pow (k := 53) (by norm_num)
  rw [lt_iff_amount h.top hplus, hamount] at hend
  rw [budgetX, lt_iff_amount hbudget hplus', hamount'] at hroom
  obtain ⟨T, hT⟩ := WithTop.ne_top_iff_exists.1 hend.ne_top
  obtain ⟨B, hB⟩ := WithTop.ne_top_iff_exists.1 hroom.ne_top
  rw [← hT] at hend
  rw [← hB] at hroom
  exact h.ticksBounded_chooseStep hT.symm (WithTop.coe_lt_coe.1 hend) hB.symm
    (WithTop.coe_lt_coe.1 hroom)

theorem not_ticksBounded_stepX (hlarge : Scalar.ofNat (2 ^ 63) ≤ axis.range.top)
    (budget : Float) :
    ¬ axis.TicksBounded (compute params axis yAxis legend measure).stepX budget := by
  obtain ⟨hone, hword⟩ := stepX_pos h params yAxis legend measure
  obtain ⟨hplus, hamount⟩ := amount_ofNat_pow (k := 63) (by norm_num)
  rw [le_iff_amount hplus h.top, hamount] at hlarge
  exact h.not_ticksBounded hlarge hone hword budget

end

/-- **The ticks of the axis along the carriers stay within the room for labels, and all
integers within a word, exactly if** the last label is within the room and the first multiple
of the step behind it within a word.  An axis that ends below `2 ^ 62` is like this, if there
is room for less than `2 ^ 53` labels.  An axis that ends at `2 ^ 63` or beyond, for which the
last label is the greatest word, is not. -/
theorem ticksBounded_stepX_iff {n : Nat} (hn : n < 2 ^ 64) {spacing : Float}
    (hfinite : spacing.isFinite = true) (hpos : 0.0 < spacing) {axis : AxisPlan Float}
    (haxis : axis = binAxis n ∨ axis = frequencyAxis n spacing) (params : Params Float)
    (yAxis : AxisPlan Float) (legend : Option (Legend Float)) (measure : TextMeasure Float) :
    let layout := compute params axis yAxis legend measure
    let budget := layout.budgetX axis.digits
    (axis.TicksBounded layout.stepX budget ↔
      axis.labelEnd / layout.stepX ≤ Double.toInt budget ∧
        (axis.labelEnd / layout.stepX + 1) * layout.stepX ≤ Scalar.maxInt64) ∧
    (axis.range.top < Scalar.ofNat (2 ^ 62) → budget < Scalar.ofNat (2 ^ 53) →
      axis.TicksBounded layout.stepX budget) ∧
    (Scalar.ofNat (2 ^ 63) ≤ axis.range.top → ¬ axis.TicksBounded layout.stepX budget) := by
  intro layout budget
  have h := fromZero_carriers hn hfinite hpos haxis
  obtain ⟨hone, hword⟩ := stepX_pos h params yAxis legend measure
  refine ⟨h.ticksBounded_iff hone hword budget, ?_, ?_⟩
  · exact ticksBounded_stepX h params yAxis legend measure
  · intro hlarge
    exact not_ticksBounded_stepX h params yAxis legend measure hlarge budget

/-- The axis of a snapshot that does not tell its carriers, on the default surface. -/
theorem ticksBounded_stepX_default :
    let layout := compute .default (frequencyAxis 8192 4.3125)
      (.ofRange ⟨0.0, 65.0⟩ [1, 2, 5, 10] 3.75 .integer) none approximateWidth
    (frequencyAxis 8192 4.3125).TicksBounded layout.stepX
      (layout.budgetX (frequencyAxis 8192 (4.3125 : Float)).digits) := by
  intro layout
  have hfinite : (4.3125 : Float).isFinite = true := by decide
  have hpos : (0.0 : Float) < 4.3125 := by decide
  have h := ticksBounded_stepX_iff (n := 8192) (by norm_num) hfinite hpos (.inr rfl) .default
    (.ofRange ⟨0.0, 65.0⟩ [1, 2, 5, 10] 3.75 .integer) none approximateWidth
  exact h.2.1 (by decide +kernel) (by decide +kernel)

/-- The greatest number of carriers, so far apart that the axis has no end. -/
theorem not_ticksBounded_stepX_endless :
    let axis : AxisPlan Float := frequencyAxis 18446744073709551615 1e300
    let layout :=
      compute .default axis (.ofRange ⟨0.0, 65.0⟩ [1, 2, 5, 10] 3.75 .integer) none
        approximateWidth
    ¬ axis.TicksBounded layout.stepX (layout.budgetX axis.digits) := by
  have hfinite : (1e300 : Float).isFinite = true := by decide +kernel
  have hpos : (0.0 : Float) < 1e300 := by decide +kernel
  have h : (frequencyAxis 18446744073709551615 (1e300 : Float)).FromZero :=
    fromZero_frequencyAxis (by norm_num) hfinite hpos
  have hlarge : (Scalar.ofNat (2 ^ 63) : Float) ≤
      (frequencyAxis 18446744073709551615 (1e300 : Float)).range.top := by decide +kernel
  exact not_ticksBounded_stepX h _ _ _ _ hlarge _

end Layout

end LineCharts
