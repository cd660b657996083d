/-
Ranges that follow the data, in exact arithmetic.

* `countedSamples` — the samples that count for a range;
* `isLeast_bounds` — the ends of some numbers are the least and the greatest of them;
* `exists_of_dataLimits` — so a range that follows the data lies around the least and the
  greatest sample that count;
* `widened` — the range before it is cut to the window; `span_widened` — its
  span, in every window;
* `share_mem_uIcc`, `widened_near` — in a window that is wide enough a side moves towards the
  edge of the window at most up to it, so the data stays inside;
* `limitsAround_holds` — so do the data and the least span when the range is cut;
* `holds_of_dataLimits` — the range holds all samples that count;
* `dataLimits_span` — inside the window its span is that of the data, or the least
  one, with the margins.

Design notes.  If the data is close to the edge of the window, one side has no room but a lack
of it.  Its share of what is missing then moves it back, by no more than the lack.
-/
import LineCharts.Axis.Limits
import LineCharts.Proofs.Geometry.Rounding
import Mathlib.Order.Interval.Set.UnorderedInterval

namespace LineCharts

/-! ### Samples that count -/

section

variable (validMin validMax : Rat) (ignoreZero : Bool) (series : List (List (Option Rat)))

/-- The samples that are there, lie in the window, and are not zero where
zeros were not measured. -/
def countedSamples : Set Rat :=
  {v | (∃ samples ∈ series, some v ∈ samples) ∧ (validMin ≤ v ∧ v ≤ validMax) ∧
    (ignoreZero = true → v ≠ 0)}

variable {validMin validMax ignoreZero series} {v : Rat}

theorem countsFor_iff : countsFor validMin validMax ignoreZero v = true ↔
    (validMin ≤ v ∧ v ≤ validMax) ∧ (ignoreZero = true → v ≠ 0) := by
  rw [countsFor, Exact.zero_lit, Bool.and_eq_true, Scalar.within, Bool.and_eq_true,
    decide_eq_true_eq, decide_eq_true_eq]
  cases ignoreZero <;> simp

theorem mem_present : v ∈ present series ↔ ∃ samples ∈ series, some v ∈ samples := by
  simp [present]

theorem mem_countedSamples : v ∈ countedSamples validMin validMax ignoreZero series ↔
    v ∈ (present series).filter (countsFor validMin validMax ignoreZero) := by
  rw [List.mem_filter, mem_present, countsFor_iff]
  rfl

end

/-! ### The least and the greatest -/

section

variable {validMin validMax minRange low high : Rat} {ignoreZero : Bool}
  {series : List (List (Option Rat))} {r : AxisRange Rat}

/-- **The ends of some numbers** are the least and the greatest of them. -/
theorem isLeast_bounds {xs : List Rat} (h : bounds xs = some (low, high)) :
    IsLeast {x | x ∈ xs} low ∧ IsGreatest {x | x ∈ xs} high := by
  have hfold : ∀ (xs : List Rat) (seen : Set Rat) (p : Rat × Rat),
      IsLeast seen p.1 ∧ IsGreatest seen p.2 →
      let q := xs.foldl (fun (low, high) v => (min low v, max high v)) p
      IsLeast (seen ∪ {x | x ∈ xs}) q.1 ∧ IsGreatest (seen ∪ {x | x ∈ xs}) q.2 := by
    intro xs
    induction xs with
    | nil => simp
    | cons x xs ih =>
      rintro seen p ⟨hleast, hgreatest⟩
      have hseen : seen ∪ {y | y ∈ x :: xs} = insert x seen ∪ {y | y ∈ xs} := by
        ext y
        simp only [Set.mem_union, Set.mem_insert_iff, Set.mem_ofPred_eq, List.mem_cons]
        tauto
      have hnext := ih (insert x seen) (min p.1 x, max p.2 x)
        ⟨min_comm x p.1 ▸ hleast.insert x, max_comm x p.2 ▸ hgreatest.insert x⟩
      rw [hseen]
      exact hnext
  cases xs with
  | nil => cases h
  | cons x xs =>
    have hseen : {y | y ∈ x :: xs} = {x} ∪ {y | y ∈ xs} := by
      ext y
      simp
    rw [bounds, Option.some_inj] at h
    have hends := hfold xs {x} (x, x) ⟨isLeast_singleton, isGreatest_singleton⟩
    rw [h] at hends
    exact hseen ▸ hends

theorem bounds_eq_none_iff {xs : List Rat} : bounds xs = none ↔ xs = [] := by
  cases xs with
  | nil => exact ⟨fun _ => rfl, fun _ => rfl⟩
  | cons x xs => exact ⟨nofun, nofun⟩

/-- **A range that follows the data** lies around the least and the
greatest sample that count. -/
theorem exists_of_dataLimits
    (h : dataLimits validMin validMax minRange ignoreZero series = some r) :
    ∃ low high, IsLeast (countedSamples validMin validMax ignoreZero series) low ∧
      IsGreatest (countedSamples validMin validMax ignoreZero series) high ∧
      r = limitsAround validMin validMax minRange low high := by
  obtain ⟨⟨low, high⟩, hbounds, rfl⟩ := Option.map_eq_some_iff.mp h
  have hset : countedSamples validMin validMax ignoreZero series =
      {v | v ∈ (present series).filter (countsFor validMin validMax ignoreZero)} :=
    Set.ext fun v => mem_countedSamples
  rw [hset]
  exact ⟨low, high, (isLeast_bounds hbounds).1, (isLeast_bounds hbounds).2, rfl⟩

theorem dataLimits_eq_none_iff :
    dataLimits validMin validMax minRange ignoreZero series = none ↔
    countedSamples validMin validMax ignoreZero series = ∅ := by
  rw [dataLimits, Option.map_eq_none_iff, bounds_eq_none_iff, List.eq_nil_iff_forall_not_mem,
    Set.eq_empty_iff_forall_notMem]
  exact forall_congr' fun v => not_congr mem_countedSamples.symm

/-! ### Before the cut -/

/-- What one side gets of the span that is missing: in proportion to its room, or one half
where both sides together have none. -/
def share (missing side room : Rat) : Rat :=
  if 0 < room then missing * (side / room) else missing / 2

/-- Both sides together get all that is missing. -/
theorem share_add_share (missing below above : Rat) :
    share missing below (below + above) + share missing above (below + above) = missing := by
  rw [share, share]
  split
  case isTrue hroom => rw [← mul_add, ← add_div, div_self hroom.ne', mul_one]
  case isFalse => rw [add_halves]

/-- If there is room for all that is missing, no side moves over its edge of the
window, nor away from it. -/
theorem share_mem_uIcc {missing room : Rat} (hmissing : 0 < missing) (hroom : missing ≤ room)
    (side : Rat) : share missing side room ∈ Set.uIcc 0 side := by
  have hpos : 0 < room := hmissing.trans_le hroom
  have hpart : missing / room ≤ 1 := (div_le_one hpos).mpr hroom
  have hpart_pos : 0 < missing / room := div_pos hmissing hpos
  have hshare : share missing side room = missing / room * side := by
    rw [share, if_pos hpos]
    ring
  rw [hshare, Set.mem_uIcc]
  rcases le_total 0 side with hside | hside
  · exact .inl ⟨mul_nonneg hpart_pos.le hside, mul_le_of_le_one_left hside hpart⟩
  · refine .inr ⟨?_, mul_nonpos_of_nonneg_of_nonpos hpart_pos.le hside⟩
    nlinarith

variable (validMin validMax minRange low high) in
/-- The range around data, before it is cut to the window. -/
def widened : AxisRange Rat :=
  let margin := max (high - low) minRange / 10
  let missing := minRange - (high - low)
  let below := low - margin - validMin
  let above := validMax - (high + margin)
  if 0 < missing then
    ⟨low - margin - share missing below (below + above),
      high + margin + share missing above (below + above)⟩
  else ⟨low - margin, high + margin⟩

theorem limitsAround_eq : limitsAround validMin validMax minRange low high =
    ⟨max (widened validMin validMax minRange low high).bottom validMin,
      min (widened validMin validMax minRange low high).top validMax⟩ := by
  have htenth (x : Rat) : x * 0.1 = x / 10 := by ring
  have htwo : (2.0 : Rat) = 2 := by norm_num
  rw [limitsAround, widened, share, share, Exact.zero_lit, htwo, htenth]
  dsimp only
  split_ifs <;> rfl

/-- **The span before the cut** is that of the data, or the least one, with a
tenth on both sides. -/
theorem span_widened : (widened validMin validMax minRange low high).span =
    1.2 * max (high - low) minRange := by
  unfold widened
  extract_lets margin missing below above
  have hmargin : max (high - low) minRange = 10 * margin := by ring
  split
  case isTrue hmissing =>
    have hmax : max (high - low) minRange = minRange := max_eq_right (sub_pos.mp hmissing).le
    have hshares := share_add_share missing below above
    have hspread : missing = minRange - (high - low) := rfl
    show high + margin + _ - (low - margin - _) = _
    linarith
  case isFalse hmissing =>
    have hmax : max (high - low) minRange = high - low :=
      max_eq_left (sub_nonpos.mp (not_lt.mp hmissing))
    show high + margin - (low - margin) = _
    linarith

/-- **A window that is wide enough** leaves the data inside.  Where span was missing, no end
is more than the margin outside the window. -/
theorem widened_near (hmin : 0 < minRange) (hwide : 1.2 * minRange ≤ validMax - validMin)
    (hlow : validMin ≤ low) (hhigh : high ≤ validMax) :
    let w := widened validMin validMax minRange low high
    (w.bottom ≤ low ∧ high ≤ w.top) ∧ (high - low < minRange →
      validMin - minRange / 10 ≤ w.bottom ∧ w.top ≤ validMax + minRange / 10) := by
  intro w
  have hsides : ∀ side s : Rat, s ∈ Set.uIcc 0 side → min 0 side ≤ s ∧ s ≤ max 0 side :=
    fun side s hs => hs
  unfold w widened
  extract_lets margin missing below above
  have hmargin : 0 < margin := div_pos (hmin.trans_le (le_max_right _ _)) (by norm_num)
  have hbelow : below = low - margin - validMin := rfl
  have habove : above = validMax - (high + margin) := rfl
  have hmissing : missing = minRange - (high - low) := rfl
  split
  case isTrue hpos =>
    have hmax : margin = minRange / 10 :=
      congrArg (· / 10) (max_eq_right (sub_pos.mp hpos).le)
    have hroom : missing ≤ below + above := by linarith
    obtain ⟨hbelow₁, hbelow₂⟩ := hsides _ _ (share_mem_uIcc hpos hroom below)
    obtain ⟨habove₁, habove₂⟩ := hsides _ _ (share_mem_uIcc hpos hroom above)
    have hlack₁ : -margin ≤ min 0 below := le_min (by linarith) (by linarith)
    have hlack₂ : -margin ≤ min 0 above := le_min (by linarith) (by linarith)
    have hmost₁ : max 0 below ≤ low - validMin := max_le (by linarith) (by linarith)
    have hmost₂ : max 0 above ≤ validMax - high := max_le (by linarith) (by linarith)
    exact ⟨⟨by linarith, by linarith⟩, fun _ => ⟨by linarith, by linarith⟩⟩
  case isFalse hnone =>
    exact ⟨⟨sub_le_self low hmargin.le, le_add_of_nonneg_right hmargin.le⟩,
      fun hlt => absurd (sub_pos.mpr hlt) hnone⟩

/-! ### Behind the cut -/

/-- **A range holds the data and the least span**, and stays in the window, if
this is wide enough. -/
theorem limitsAround_holds (hmin : 0 < minRange)
    (hwide : 1.2 * minRange ≤ validMax - validMin) (hlow : validMin ≤ low)
    (hhigh : high ≤ validMax) :
    let r := limitsAround validMin validMax minRange low high
    (validMin ≤ r.bottom ∧ r.bottom ≤ low) ∧ (high ≤ r.top ∧ r.top ≤ validMax) ∧
      minRange ≤ r.span := by
  intro r
  obtain ⟨⟨hbottom, htop⟩, hnear⟩ := widened_near hmin hwide hlow hhigh
  have hspan := @span_widened validMin validMax minRange low high
  have hr : r = _ := limitsAround_eq
  generalize widened validMin validMax minRange low high = w at hbottom htop hnear hspan hr
  have hcut₁ : max w.bottom validMin ≤ low := max_le hbottom hlow
  have hcut₂ : high ≤ min w.top validMax := le_min htop hhigh
  rw [hr]
  refine ⟨⟨le_max_right _ _, hcut₁⟩, ⟨hcut₂, min_le_right _ _⟩, ?_⟩
  show minRange ≤ min w.top validMax - max w.bottom validMin
  rcases le_or_gt minRange (high - low) with hwhole | hmissing
  · linarith
  · -- the cut takes a margin on each side, and no more was added to the least span
    obtain ⟨hover₁, hover₂⟩ := hnear hmissing
    have hmax : max (high - low) minRange = minRange := max_eq_right hmissing.le
    have hspan : w.top - w.bottom = 1.2 * max (high - low) minRange := hspan
    have htaken₁ : max w.bottom validMin ≤ w.bottom + minRange / 10 :=
      max_le (by linarith) (by linarith)
    have htaken₂ : w.top - minRange / 10 ≤ min w.top validMax :=
      le_min (by linarith) (by linarith)
    linarith

/-- A range inside the window was not cut. -/
theorem span_limitsAround
    (hbottom : validMin < (limitsAround validMin validMax minRange low high).bottom)
    (htop : (limitsAround validMin validMax minRange low high).top < validMax) :
    (limitsAround validMin validMax minRange low high).span =
      1.2 * max (high - low) minRange := by
  rw [← @span_widened validMin validMax]
  rw [limitsAround_eq] at hbottom htop ⊢
  generalize widened validMin validMax minRange low high = w at hbottom htop ⊢
  have hlow : validMin < w.bottom := (lt_max_iff.mp hbottom).resolve_right (lt_irrefl _)
  have hhigh : w.top < validMax := (min_lt_iff.mp htop).resolve_right (lt_irrefl _)
  rw [max_eq_left hlow.le, min_eq_left hhigh.le]

/-! ### All samples -/

/-- **A range that follows the data holds it**, and the least span, and
stays in the window. -/
theorem holds_of_dataLimits (hmin : 0 < minRange)
    (hwide : 1.2 * minRange ≤ validMax - validMin)
    (h : dataLimits validMin validMax minRange ignoreZero series = some r) :
    validMin ≤ r.bottom ∧
      (∀ v ∈ countedSamples validMin validMax ignoreZero series, r.bottom ≤ v ∧ v ≤ r.top) ∧
      r.top ≤ validMax ∧ minRange ≤ r.span := by
  obtain ⟨low, high, hlow, hhigh, rfl⟩ := exists_of_dataLimits h
  obtain ⟨⟨hbottom, hbottom'⟩, ⟨htop, htop'⟩, hspan⟩ :=
    limitsAround_holds hmin hwide hlow.1.2.1.1 hhigh.1.2.1.2
  refine ⟨hbottom, fun v hv => ?_, htop', hspan⟩
  exact ⟨hbottom'.trans (hlow.2 hv), (hhigh.2 hv).trans htop⟩

/-- **The span of a range inside the window** is that of the samples, or the least one, with a
tenth on both sides.  So more samples never make such a range narrower. -/
theorem dataLimits_span (validMin validMax minRange : Rat) :
    (∀ ignoreZero series r, dataLimits validMin validMax minRange ignoreZero series = some r →
      validMin < r.bottom → r.top < validMax →
      ∃ low high, IsLeast (countedSamples validMin validMax ignoreZero series) low ∧
        IsGreatest (countedSamples validMin validMax ignoreZero series) high ∧
        r.span = 1.2 * max (high - low) minRange) ∧
    ∀ ignoreZero ignoreZero' series series' r r',
      dataLimits validMin validMax minRange ignoreZero series = some r →
      dataLimits validMin validMax minRange ignoreZero' series' = some r' →
      validMin < r.bottom → r.top < validMax → validMin < r'.bottom → r'.top < validMax →
      countedSamples validMin validMax ignoreZero series ⊆
        countedSamples validMin validMax ignoreZero' series' →
      r.span ≤ r'.span := by
  have hlaw : ∀ ignoreZero series r, dataLimits validMin validMax minRange ignoreZero series =
      some r → validMin < r.bottom → r.top < validMax →
      ∃ low high, IsLeast (countedSamples validMin validMax ignoreZero series) low ∧
        IsGreatest (countedSamples validMin validMax ignoreZero series) high ∧
        r.span = 1.2 * max (high - low) minRange := by
    intro ignoreZero series r hr hbottom htop
    obtain ⟨low, high, hlow, hhigh, rfl⟩ := exists_of_dataLimits hr
    exact ⟨low, high, hlow, hhigh, span_limitsAround hbottom htop⟩
  refine ⟨hlaw, ?_⟩
  intro ignoreZero ignoreZero' series series' r r' hr hr' hbottom htop hbottom' htop' hsubset
  obtain ⟨low, high, hlow, hhigh, hspan⟩ := hlaw _ _ _ hr hbottom htop
  obtain ⟨low', high', hlow', hhigh', hspan'⟩ := hlaw _ _ _ hr' hbottom' htop'
  have hspread : high - low ≤ high' - low' :=
    sub_le_sub (hhigh'.2 (hsubset hhigh.1)) (hlow'.2 (hsubset hlow.1))
  rw [hspan, hspan']
  exact mul_le_mul_of_nonneg_left (max_le_max hspread le_rfl) (by norm_num)

/-- Samples on both sides of two others, in other series. -/
theorem dataLimits_span_more :
    let few : List (List (Option Rat)) := [[some 40, some 50]]
    let more : List (List (Option Rat)) := [[some 50, none], [some 60, some 20, some 40]]
    ∃ r r', dataLimits (-32) 95 20 true few = some r ∧ dataLimits (-32) 95 20 true more =
      some r' ∧ (-32 < r.bottom ∧ r.top < 95) ∧ (-32 < r'.bottom ∧ r'.top < 95) ∧
      countedSamples (-32) 95 true few ⊆ countedSamples (-32) 95 true more ∧
        r.span ≤ r'.span := by
  intro few more
  have hfew : bounds ((present few).filter (countsFor (-32) 95 true)) = some (40, 50) := by
    decide +kernel
  have hmore : bounds ((present more).filter (countsFor (-32) 95 true)) = some (20, 60) := by
    decide +kernel
  have hr : dataLimits (-32) 95 20 true few = some (limitsAround (-32) 95 20 40 50) := by
    rw [dataLimits, hfew, Option.map_some]
  have hr' : dataLimits (-32) 95 20 true more = some (limitsAround (-32) 95 20 20 60) := by
    rw [dataLimits, hmore, Option.map_some]
  have hinside : -32 < (limitsAround (-32) 95 20 (40 : Rat) 50).bottom ∧
      (limitsAround (-32) 95 20 (40 : Rat) 50).top < 95 := by decide +kernel
  have hinside' : -32 < (limitsAround (-32) 95 20 (20 : Rat) 60).bottom ∧
      (limitsAround (-32) 95 20 (20 : Rat) 60).top < 95 := by decide +kernel
  have hlist : ∀ v ∈ (present few).filter (countsFor (-32) 95 true),
      v ∈ (present more).filter (countsFor (-32) 95 true) := by decide +kernel
  have hsubset : countedSamples (-32) 95 true few ⊆ countedSamples (-32) 95 true more :=
    fun v hv => mem_countedSamples.mpr (hlist v (mem_countedSamples.mp hv))
  exact ⟨_, _, hr, hr', hinside, hinside', hsubset,
    (dataLimits_span (-32) 95 20).2 true true few more _ _ hr hr' hinside.1 hinside.2
    hinside'.1 hinside'.2 hsubset⟩

end

end LineCharts
