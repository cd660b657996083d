/-
The chosen step between ticks.

* `doubleUntil_eq` — doubling ends at the first step that fits;
* `chooseStep_cases` — the chosen step is a candidate, or one that was doubled some times;
* `zero_lt_chooseStep`, `chooseStep_pos` — it is positive, and fits into a
  word if all candidates do;
* `fits_chooseStep` — with it the labels fit, if they fit with the greatest word.

Design notes.  Doubling is saturated.  So it ends at the greatest word if nothing before it
fits, and 64 doublings are enough to get there from any positive candidate.
-/
import Mathlib.Tactic.Ring
import LineCharts.Axis.Plan

namespace LineCharts

/-! ### Doubling -/

variable {fits : Int → Bool} {step : Int}

theorem saturate_double (hpos : 1 ≤ step) :
    Scalar.saturate (step * 2) = min (step * 2) Scalar.maxInt64 := by
  rw [Scalar.saturate, Scalar.minInt64, Scalar.maxInt64]
  omega

theorem saturate_double_pos (hpos : 0 < step) : 0 < Scalar.saturate (step * 2) := by
  rw [saturate_double hpos, Scalar.maxInt64]
  omega

/-- Doubling a positive step ends at a positive one. -/
theorem doubleUntil_pos (fits : Int → Bool) (fuel : Nat) (hpos : 0 < step) :
    0 < doubleUntil fits fuel step := by
  induction fuel generalizing step with
  | zero => exact hpos
  | succ fuel ih =>
    have htwice := saturate_double_pos hpos
    rw [doubleUntil]
    split
    · exact htwice
    · exact ih htwice

/-- Doubling ends at the greatest word, or doubles some times without reaching it. -/
theorem doubleUntil_cases (fits : Int → Bool) (fuel : Nat) (hpos : 1 ≤ step)
    (hle : step ≤ Scalar.maxInt64) :
    doubleUntil fits fuel step = Scalar.maxInt64 ∨
      ∃ k ≤ fuel, doubleUntil fits fuel step = step * 2 ^ k ∧
        step * 2 ^ k ≤ Scalar.maxInt64 := by
  induction fuel generalizing step with
  | zero => exact .inr ⟨0, Nat.le_refl 0, by simp [doubleUntil], by simpa using hle⟩
  | succ fuel ih =>
    have htwice := saturate_double hpos
    rw [doubleUntil]
    generalize Scalar.saturate (step * 2) = twice at *
    by_cases hfull : Scalar.maxInt64 ≤ step * 2
    · obtain rfl : twice = Scalar.maxInt64 := by omega
      split
      · exact .inl rfl
      · have hword : 1 ≤ Scalar.maxInt64 := by decide
        -- doubling the greatest word leaves it where it is
        rcases ih hword (Int.le_refl _) with h | ⟨k, _, h, hk⟩
        · exact .inl h
        · have hone : (1 : Int) ≤ 2 ^ k := Int.pow_pos (by decide)
          have hge : Scalar.maxInt64 * 1 ≤ Scalar.maxInt64 * 2 ^ k :=
            Int.mul_le_mul_of_nonneg_left hone (by decide)
          left
          omega
    · obtain rfl : twice = step * 2 := by omega
      split
      · refine .inr ⟨1, by omega, by rw [pow_one], ?_⟩
        rw [pow_one]
        omega
      · have hdouble : 1 ≤ step * 2 := by omega
        rcases ih hdouble (by omega) with h | ⟨k, hk, h, hfit⟩
        · exact .inl h
        · have hpow : step * 2 ^ (k + 1) = step * 2 * 2 ^ k := by ring
          refine .inr ⟨k + 1, by omega, by rw [h, hpow], by rw [hpow]; exact hfit⟩

/-- Enough doublings end at a step that fits, if the greatest word does. -/
theorem fits_doubleUntil {fuel : Nat} (hpos : 1 ≤ step)
    (henough : Scalar.maxInt64 ≤ step * 2 ^ (fuel + 1)) (hmax : fits Scalar.maxInt64 = true) :
    fits (doubleUntil fits (fuel + 1) step) = true := by
  induction fuel generalizing step with
  | zero =>
    have htwice := saturate_double hpos
    rw [doubleUntil]
    generalize Scalar.saturate (step * 2) = twice at *
    obtain rfl : twice = Scalar.maxInt64 := by
      rw [zero_add, pow_one] at henough
      omega
    rw [if_pos hmax]
    exact hmax
  | succ fuel ih =>
    have htwice := saturate_double hpos
    rw [doubleUntil]
    generalize Scalar.saturate (step * 2) = twice at *
    split
    case isTrue h => exact h
    case isFalse h =>
      by_cases hfull : Scalar.maxInt64 ≤ step * 2
      · -- the greatest word was reached and refused, which cannot be
        obtain rfl : twice = Scalar.maxInt64 := by omega
        exact absurd hmax h
      · obtain rfl : twice = step * 2 := by omega
        refine ih (by omega) ?_
        have hpow : step * 2 ^ (fuel + 1 + 1) = step * 2 * 2 ^ (fuel + 1) := by ring
        rw [← hpow]
        exact henough

/-- Doubling ends at the first step that fits, however many doublings
are allowed beyond it. -/
theorem doubleUntil_eq {k fuel : Nat} (hpos : 1 ≤ step) (hk : 1 ≤ k) (hfuel : k ≤ fuel)
    (hword : step * 2 ^ k ≤ Scalar.maxInt64) (hfit : fits (step * 2 ^ k) = true)
    (hfirst : ∀ j, 1 ≤ j → j < k → fits (step * 2 ^ j) = false) :
    doubleUntil fits fuel step = step * 2 ^ k := by
  induction fuel generalizing step k with
  | zero => omega
  | succ fuel ih =>
    obtain ⟨k, rfl⟩ : ∃ i, k = i + 1 := ⟨k - 1, by omega⟩
    have hpow : ∀ j : Nat, step * 2 ^ (j + 1) = step * 2 * 2 ^ j := fun j => by ring
    have hone : (1 : Int) ≤ 2 ^ k := Int.pow_pos (by decide)
    have hle : step * 2 * 1 ≤ step * 2 * 2 ^ k :=
      Int.mul_le_mul_of_nonneg_left hone (by omega)
    have htwice := saturate_double hpos
    rw [hpow] at hword hfit ⊢
    have htwice : Scalar.saturate (step * 2) = step * 2 := by omega
    rw [doubleUntil, htwice]
    rcases Nat.eq_zero_or_pos k with rfl | hkpos
    · rw [pow_zero, mul_one] at hfit ⊢
      rw [if_pos hfit]
    · have hnot := hfirst 1 (Nat.le_refl 1) (by omega)
      rw [pow_one] at hnot
      rw [hnot, if_neg Bool.false_ne_true]
      refine ih (by omega) hkpos (by omega) hword hfit fun j hj hjk => ?_
      rw [← hpow]
      exact hfirst (j + 1) (by omega) (by omega)

/-! ### The choice -/

theorem le_foldl_max (steps : List Int) (init : Int) :
    init ≤ steps.foldl max init ∧ ∀ s ∈ steps, s ≤ steps.foldl max init := by
  induction steps generalizing init with
  | nil => exact ⟨Int.le_refl init, nofun⟩
  | cons s rest ih =>
    obtain ⟨hinit, hrest⟩ := ih (max init s)
    rw [List.foldl_cons]
    refine ⟨Int.le_trans (Int.le_max_left init s) hinit, List.forall_mem_cons.2 ⟨?_, hrest⟩⟩
    exact Int.le_trans (Int.le_max_right init s) hinit

theorem greatestStep_pos (steps : List Int) : 1 ≤ greatestStep steps :=
  (le_foldl_max steps 1).1

theorem le_greatestStep {steps : List Int} {s : Int} (hs : s ∈ steps) :
    s ≤ greatestStep steps :=
  (le_foldl_max steps 1).2 s hs

theorem greatestStep_cases (steps : List Int) :
    greatestStep steps = 1 ∨ greatestStep steps ∈ steps := by
  have h (init : Int) : steps.foldl max init = init ∨ steps.foldl max init ∈ steps := by
    induction steps generalizing init with
    | nil => exact .inl rfl
    | cons s rest ih =>
      rw [List.foldl_cons]
      rcases ih (max init s) with heq | hmem
      · rw [heq]
        rcases Int.le_total init s with hle | hle
        · rw [Int.max_eq_right hle]
          exact .inr List.mem_cons_self
        · rw [Int.max_eq_left hle]
          exact .inl rfl
      · exact .inr (List.mem_cons_of_mem s hmem)
  exact h 1

section

variable {α : Type} [Scalar α] {steps : List Int} {range pixels spacing : α}

/-- Whatever is chosen comes from the candidates: it is one of them, or it is one of them or 1
that was doubled until it fits or reaches the greatest word. -/
theorem chooseStep_cases (steps : List Int) (range pixels spacing : α) :
    chooseStep steps range pixels spacing = max (steps.head?.getD 1) 1 ∨
      chooseStep steps range pixels spacing ∈ steps ∧
        0 < chooseStep steps range pixels spacing ∨
      chooseStep steps range pixels spacing =
        doubleUntil (stepFits (Scalar.abs range) (labelBudget pixels spacing)) 64
          (greatestStep steps) := by
  simp only [chooseStep]
  split
  · exact .inl rfl
  · split
    case h_1 step hfind =>
      have hpos := List.find?_some hfind
      rw [Bool.and_eq_true, decide_eq_true_eq] at hpos
      exact .inr (.inl ⟨List.mem_of_find?_eq_some hfind, hpos.1⟩)
    case h_2 => exact .inr (.inr rfl)

/-- Every step is positive, whatever the candidates. -/
theorem zero_lt_chooseStep (steps : List Int) (range pixels spacing : α) :
    0 < chooseStep steps range pixels spacing := by
  rcases chooseStep_cases steps range pixels spacing with h | ⟨_, h⟩ | h
  · omega
  · exact h
  · rw [h]
    exact doubleUntil_pos _ 64 (greatestStep_pos steps)

theorem chooseStep_pos (steps : List Int) (hfit : ∀ s ∈ steps, s ≤ Scalar.maxInt64)
    (range pixels spacing : α) : 1 ≤ chooseStep steps range pixels spacing ∧
      chooseStep steps range pixels spacing ≤ Scalar.maxInt64 := by
  have hword : (1 : Int) ≤ Scalar.maxInt64 := by decide
  rcases chooseStep_cases steps range pixels spacing with h | ⟨hmem, hpos⟩ | h
  · rw [h]
    have hhead : steps.head?.getD 1 ≤ Scalar.maxInt64 := by
      cases steps with
      | nil => exact hword
      | cons s rest => exact hfit s List.mem_cons_self
    omega
  · exact ⟨hpos, hfit _ hmem⟩
  · rw [h]
    have hgreatest : greatestStep steps ≤ Scalar.maxInt64 := by
      rcases greatestStep_cases steps with heq | hmem
      · rw [heq]
        exact hword
      · exact hfit _ hmem
    have hpos := greatestStep_pos steps
    generalize greatestStep steps = g at *
    rcases doubleUntil_cases (stepFits (Scalar.abs range) (labelBudget pixels spacing)) 64
        hpos hgreatest with heq | ⟨k, _, heq, hle⟩
    · rw [heq]
      exact ⟨hword, Int.le_refl _⟩
    · rw [heq]
      have hone : (1 : Int) ≤ 2 ^ k := Int.pow_pos (by decide)
      have hge : g * 1 ≤ g * 2 ^ k := Int.mul_le_mul_of_nonneg_left hone (by omega)
      omega

/-- Where there is a range to divide, the step is the first candidate that fits, or
doubled until it does. -/
theorem chooseStep_eq (steps : List Int) (pixels spacing : α)
    (hfinite : Scalar.isFinite (Scalar.abs range) = true)
    (hne : (Scalar.abs range == (0.0 : α)) = false) :
    chooseStep steps range pixels spacing =
      let fits := stepFits (Scalar.abs range) (labelBudget pixels spacing)
      (steps.find? fun step => 0 < step && fits step).getD
        (doubleUntil fits 64 (greatestStep steps)) := by
  simp only [chooseStep, hfinite, hne]
  rw [if_neg (by decide)]
  split
  case h_1 step hfind => rw [hfind, Option.getD_some]
  case h_2 hfind => rw [hfind, Option.getD_none]

/-- With the chosen step the labels fit, if there is a range to divide and they fit
with the greatest word. -/
theorem fits_chooseStep (hfinite : Scalar.isFinite (Scalar.abs range) = true)
    (hne : (Scalar.abs range == (0.0 : α)) = false)
    (hmax : stepFits (Scalar.abs range) (labelBudget pixels spacing) Scalar.maxInt64 = true) :
    stepFits (Scalar.abs range) (labelBudget pixels spacing)
      (chooseStep steps range pixels spacing) = true := by
  have hgreatest := greatestStep_pos steps
  rw [chooseStep_eq steps pixels spacing hfinite hne]
  generalize stepFits (Scalar.abs range) (labelBudget pixels spacing) = fits at *
  dsimp only
  cases hfind : steps.find? fun step => 0 < step && fits step with
  | some step =>
    have hpos := List.find?_some hfind
    rw [Bool.and_eq_true] at hpos
    exact hpos.2
  | none =>
    have henough : Scalar.maxInt64 ≤ greatestStep steps * 2 ^ 64 := by
      rw [Scalar.maxInt64]
      omega
    exact fits_doubleUntil hgreatest henough hmax

end

end LineCharts
