/-
The chosen step is the least one that fits, in exact arithmetic.

* `Doubling` — the least doubling of a step that fits is within the bound on
  doublings, and within a word;
* `exists_doubling` — there is one, if large words fit;
* `chooseStep_mem_or_doubled` — so the chosen step is a candidate, or a
  doubling of the greatest one;
* `LeastStep` — the least step that fits, of some candidates or of the doublings
  of the greatest of them;
* `LeastStep.anti` — where more steps fit, it is not greater;
* `leastStep_chooseStep` — the chosen step is such a one, whatever the room for labels;
* `chooseStep_least` — so the step is the least with which the labels fit, and a longer
  axis has no greater step.

Design notes.  The candidates ascend, so the first that fits is the least.  A range of
`2 ^ 62` fits with every step from there on, and each step has a doubling between `2 ^ 62`
and the greatest word.
-/
import LineCharts.Proofs.Axis.Multiples

namespace LineCharts

/-! ### Doublings -/

/-- The least number of doublings with which a step fits, one at least.  There is no need
for more of them, the doubled step is a word, and the loop ends there however many
doublings it may still make. -/
structure Doubling (fits : Int → Bool) (step : Int) (k : Nat) : Prop where
  least : IsLeast {k | 1 ≤ k ∧ fits (step * 2 ^ k)} k
  few : k < 64
  word : step * 2 ^ k ≤ Scalar.maxInt64
  ends : ∀ fuel, k ≤ fuel → doubleUntil fits fuel step = step * 2 ^ k

/-- Some doubling is large and still a word. -/
theorem exists_large_doubling {step : Int} (hpos : 1 ≤ step) (hlt : step < 2 ^ 62) :
    ∃ k, 1 ≤ k ∧ k ≤ 62 ∧ 2 ^ 62 ≤ step * 2 ^ k ∧ step * 2 ^ k ≤ Scalar.maxInt64 := by
  have hex : ∃ k, 2 ^ 62 ≤ step * 2 ^ k := ⟨62, by omega⟩
  have hlarge := Nat.find_spec hex
  have hfew : Nat.find hex ≤ 62 := Nat.find_min' hex (by omega)
  have hmin := fun j => Nat.find_min (m := j) hex
  generalize Nat.find hex = k at *
  -- one doubling less is not large
  cases k with
  | zero => omega
  | succ k =>
    have hbefore := hmin k (Nat.lt_succ_self k)
    refine ⟨k + 1, by omega, hfew, hlarge, ?_⟩
    rw [pow_succ, ← mul_assoc, Scalar.maxInt64]
    omega

/-- **Some doubling fits**, if large words do. -/
theorem exists_doubling {fits : Int → Bool} {step : Int} (hpos : 1 ≤ step)
    (hlt : step < 2 ^ 62) (hlarge : ∀ s, 2 ^ 62 ≤ s → s ≤ Scalar.maxInt64 → fits s) :
    ∃ k, Doubling fits step k := by
  obtain ⟨top, hone, hfew, htop, hword⟩ := exists_large_doubling hpos hlt
  have hex : ∃ k, 1 ≤ k ∧ fits (step * 2 ^ k) := ⟨top, hone, hlarge _ htop hword⟩
  obtain ⟨hone, hfit⟩ := Nat.find_spec hex
  have hmin := fun j => Nat.find_min (m := j) hex
  have hleast : IsLeast {k | 1 ≤ k ∧ fits (step * 2 ^ k)} (Nat.find hex) :=
    ⟨⟨hone, hfit⟩, fun j hj => Nat.find_min' hex hj⟩
  have hle : Nat.find hex ≤ top := Nat.find_min' hex ⟨by omega, hlarge _ htop hword⟩
  generalize Nat.find hex = k at *
  have hpow : (2 : Int) ^ k ≤ 2 ^ top := pow_le_pow_right₀ (by norm_num) hle
  have hword : step * 2 ^ k ≤ Scalar.maxInt64 :=
    (Int.mul_le_mul_of_nonneg_left hpow (by omega)).trans hword
  refine ⟨k, hleast, by omega, hword, fun fuel hfuel => ?_⟩
  refine doubleUntil_eq hpos hone hfuel hword hfit fun j hj hjk => ?_
  exact Bool.eq_false_iff.mpr fun hfits => hmin j hjk ⟨hj, hfits⟩

/-- **The chosen step is a candidate, or a doubling of the greatest one**,
if large words fit. -/
theorem chooseStep_mem_or_doubled {α : Type} [Scalar α] {steps : List Int}
    {range pixels spacing : α} (hne : steps ≠ []) (hsteps : ∀ s ∈ steps, 0 < s ∧ s < 2 ^ 62)
    (hlarge : ∀ s, 2 ^ 62 ≤ s → s ≤ Scalar.maxInt64 →
      stepFits (Scalar.abs range) (labelBudget pixels spacing) s) :
    chooseStep steps range pixels spacing ∈ steps ∨
      ∃ k, 1 ≤ k ∧ chooseStep steps range pixels spacing = greatestStep steps * 2 ^ k := by
  rcases chooseStep_cases steps range pixels spacing with heq | ⟨hmem, _⟩ | heq
  · left
    obtain ⟨s, rest, rfl⟩ := List.exists_cons_of_ne_nil hne
    have hpos := (hsteps s List.mem_cons_self).1
    rw [heq, List.head?_cons, Option.getD_some, Int.max_eq_left (by omega)]
    exact List.mem_cons_self
  · exact .inl hmem
  · have hlt : greatestStep steps < 2 ^ 62 := by
      rcases greatestStep_cases steps with hone | hmem
      · rw [hone]
        norm_num
      · exact (hsteps _ hmem).2
    obtain ⟨k, hk⟩ := exists_doubling (greatestStep_pos steps) hlt hlarge
    exact .inr ⟨k, hk.least.1.1, heq.trans (hk.ends 64 hk.few.le)⟩

/-! ### The least step -/

/-- The least step that fits: of the candidates, or of the doublings of the greatest one
where no candidate fits. -/
inductive LeastStep (steps : List Int) (fits : Int → Bool) (step : Int) : Prop
  | candidate (least : IsLeast {s | s ∈ steps ∧ fits s} step)
  | doubled {greatest : Int} {k : Nat} (refused : ∀ s ∈ steps, ¬ fits s)
      (top : IsGreatest {s | s ∈ steps} greatest) (doubling : Doubling fits greatest k)
      (eq : step = greatest * 2 ^ k)

section

variable {steps : List Int}

/-- **Where more steps fit, the least one is not greater.** -/
theorem LeastStep.anti {fits fits' : Int → Bool} {step step' : Int}
    (h : LeastStep steps fits step) (h' : LeastStep steps fits' step')
    (hpos : ∀ s ∈ steps, 0 < s) (himp : ∀ s, fits s → fits' s) :
    step' ≤ step := by
  have hdouble {s : Int} {j k : Nat} (hs : s ∈ steps) (hjk : j ≤ k) : s * 2 ^ j ≤ s * 2 ^ k :=
    Int.mul_le_mul_of_nonneg_left (pow_le_pow_right₀ (by norm_num) hjk) (hpos s hs).le
  cases h with
  | candidate least =>
    cases h' with
    | candidate least' => exact least'.2 ⟨least.1.1, himp _ least.1.2⟩
    | doubled refused' => exact absurd (himp _ least.1.2) (refused' _ least.1.1)
  | @doubled greatest k refused top doubling eq =>
    cases h' with
    | candidate least' =>
      have hpow := hdouble top.1 (Nat.zero_le k)
      rw [pow_zero, mul_one, ← eq] at hpow
      exact (top.2 least'.1.1).trans hpow
    | doubled refused' top' doubling' eq' =>
      rw [eq, eq', top.unique top']
      exact hdouble top'.1 (doubling'.least.2
        ⟨doubling.least.1.1, himp _ (top.unique top' ▸ doubling.least.1.2)⟩)

/-- The first of some ascending numbers with a property is the least. -/
theorem isLeast_of_find? {p : Int → Bool} {step : Int} (hsorted : steps.Pairwise (· ≤ ·))
    (h : steps.find? p = some step) : IsLeast {s | s ∈ steps ∧ p s = true} step := by
  obtain ⟨hp, before, behind, rfl, hbefore⟩ := List.find?_eq_some_iff_append.mp h
  refine ⟨⟨by simp, hp⟩, fun s hs => ?_⟩
  obtain ⟨hmem, hps⟩ := hs
  rw [List.mem_append, List.mem_cons] at hmem
  rcases hmem with hmem | rfl | hmem
  · exact absurd hps (by simpa using hbefore s hmem)
  · exact le_rfl
  · exact List.rel_of_pairwise_cons (List.pairwise_append.mp hsorted).2.1 hmem

theorem isGreatest_greatestStep (hne : steps ≠ []) (hpos : ∀ s ∈ steps, 0 < s) :
    IsGreatest {s | s ∈ steps} (greatestStep steps) := by
  refine ⟨?_, fun s hs => le_greatestStep hs⟩
  rcases greatestStep_cases steps with hone | hmem
  · -- all candidates are 1
    obtain ⟨s, hs⟩ := List.exists_mem_of_ne_nil steps hne
    have hle := le_greatestStep hs
    have hs' := hpos s hs
    obtain rfl : s = greatestStep steps := by omega
    exact hs
  · exact hmem

/-- The labels fit with a large step. -/
theorem Exact.stepFits_of_large {range : Rat} (hbound : |range| ≤ 2 ^ 62)
    (pixels spacing : Rat) {s : Int} (hs : 2 ^ 62 ≤ s) :
    stepFits |range| (labelBudget pixels spacing) s = true := by
  have hs' : (2 : Rat) ^ 62 ≤ s := by exact_mod_cast hs
  have hquotient : |range| / s ≤ 1 := (div_le_one (by linarith)).mpr (hbound.trans hs')
  exact decide_eq_true (hquotient.trans (Exact.one_le_labelBudget pixels spacing))

/-- **The chosen step is the least that fits**, for every room and every
range up to `2 ^ 62`. -/
theorem leastStep_chooseStep (hne : steps ≠ []) (hsorted : steps.Pairwise (· ≤ ·))
    (hpos : ∀ s ∈ steps, 0 < s) {range : Rat} (hrange : range ≠ 0) (hbound : |range| ≤ 2 ^ 62)
    (pixels spacing : Rat) :
    LeastStep steps (stepFits |range| (labelBudget pixels spacing))
      (chooseStep steps range pixels spacing) := by
  have hzero : (Scalar.abs range == (0.0 : Rat)) = false := by
    rw [beq_eq_false_iff_ne, Scalar.abs_eq, Exact.zero_lit]
    exact abs_ne_zero.mpr hrange
  have hlarge := fun s => Exact.stepFits_of_large (s := s) hbound pixels spacing
  rw [chooseStep_eq steps pixels spacing rfl hzero, Scalar.abs_eq]
  generalize stepFits |range| (labelBudget pixels spacing) = fits at *
  dsimp only
  cases hfind : steps.find? fun s => decide (0 < s) && fits s with
  | some step =>
    have hset : {s | s ∈ steps ∧ fits s = true} =
        {s | s ∈ steps ∧ (decide (0 < s) && fits s) = true} := by
      ext s
      simp only [Set.mem_ofPred_eq, Bool.and_eq_true, decide_eq_true_eq]
      exact and_congr_right fun hs => (and_iff_right (hpos s hs)).symm
    exact .candidate (hset ▸ isLeast_of_find? hsorted hfind)
  | none =>
    have hrefused : ∀ s ∈ steps, ¬ fits s = true := by
      intro s hs hfit
      have hnone := List.find?_eq_none.mp hfind s hs
      simp [hpos s hs, hfit] at hnone
    have htop := isGreatest_greatestStep hne hpos
    have hlt : greatestStep steps < 2 ^ 62 :=
      not_le.mp fun hge => hrefused _ htop.1 (hlarge _ hge)
    obtain ⟨k, hk⟩ := exists_doubling (greatestStep_pos steps) hlt fun s hs _ => hlarge s hs
    exact .doubled hrefused htop hk (hk.ends 64 hk.few.le)

end

/-! ### The step of an axis -/

/-- **The step is the least with which the labels fit**: the least candidate with which they
do, else the greatest one doubled as often as it takes, within the bound on doublings and
within a word.  With more pixels the step does not grow. -/
theorem chooseStep_least {steps : List Int} (hne : steps ≠ [])
    (hsorted : steps.Pairwise (· ≤ ·)) (hpos : ∀ s ∈ steps, 0 < s) {range : Rat}
    (hrange : range ≠ 0) (hbound : |range| ≤ 2 ^ 53) {spacing : Rat} (hspacing : 0 < spacing)
    (pixels : Rat) :
    LeastStep steps (fun s => |range| / s ≤ (max 1 ⌊pixels / spacing⌋ : Int))
      (chooseStep steps range pixels spacing) ∧
    ∀ more, pixels ≤ more →
      chooseStep steps range more spacing ≤ chooseStep steps range pixels spacing := by
  have hleast (p : Rat) : LeastStep steps (fun s => |range| / s ≤ (max 1 ⌊p / spacing⌋ : Int))
      (chooseStep steps range p spacing) := by
    have h :=
      leastStep_chooseStep hne hsorted hpos hrange (hbound.trans (by norm_num)) p spacing
    rwa [Exact.labelBudget_of_pos hspacing] at h
  refine ⟨hleast pixels,
    fun more hmore => (hleast pixels).anti (hleast more) hpos fun s hs => ?_⟩
  have hroom : pixels / spacing ≤ more / spacing := by gcongr
  have hbudget : max 1 ⌊pixels / spacing⌋ ≤ max 1 ⌊more / spacing⌋ :=
    max_le_max le_rfl (Int.floor_mono hroom)
  exact decide_eq_true ((of_decide_eq_true hs).trans (Int.cast_le.mpr hbudget))

/-- A range of 65 on four labels of ten pixels each: the greater of two candidates is doubled
four times.  On a hundred labels the lesser one is enough. -/
theorem chooseStep_least_sixtyfive :
    (65 : Rat) ≠ 0 ∧ |(65 : Rat)| ≤ 2 ^ 53 ∧ chooseStep [1, 2] (65 : Rat) 40 10 = 32 ∧
      chooseStep [1, 2] (65 : Rat) 1000 10 = 1 ∧
      LeastStep [1, 2] (fun s => |(65 : Rat)| / s ≤ (max 1 ⌊(40 : Rat) / 10⌋ : Int)) 32 := by
  have hne : [(1 : Int), 2] ≠ [] := by decide
  have hsorted : [(1 : Int), 2].Pairwise (· ≤ ·) := by decide
  have hpos : ∀ s ∈ [(1 : Int), 2], 0 < s := by decide
  have hrange : (65 : Rat) ≠ 0 := by norm_num
  have hbound : |(65 : Rat)| ≤ 2 ^ 53 := by norm_num
  have hspacing : (0 : Rat) < 10 := by norm_num
  have hstep : chooseStep [1, 2] (65 : Rat) 40 10 = 32 := by decide +kernel
  have h := chooseStep_least hne hsorted hpos hrange hbound hspacing 40
  exact ⟨hrange, hbound, hstep, by decide +kernel, hstep ▸ h.1⟩

end LineCharts
