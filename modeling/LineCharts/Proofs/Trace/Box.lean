/-
Outlines of runs in a box over the base line, in exact arithmetic.

* `Point.Within` — a point of a box; `Point.Within.round` — it stays in a box of whole
  pixels when it is rounded;
* `Trace.mem_corners` — the corners of a line are its points, rounded;
* `Trace.within_area`, `Trace.within_stepsArea` — the outline of a run is in the box that
  holds its groups and their heights;
* `Trace.exists_mem_stairs` — the steps of a run have a corner as high as each of its groups;
* `Trace.mem_vertices_steps` — the vertices of bit loading are the corners of its runs.
-/
import LineCharts.Proofs.Trace.Fill
import LineCharts.Proofs.Trace.Steps
import LineCharts.Proofs.Trace.Vertices

namespace LineCharts

/-- A whole number that is a bound stays one when the other number is rounded. -/
theorem Path.roundTo_mem (digits : Nat) {lo hi : Int} {x : Rat} (hlo : (lo : Rat) ≤ x)
    (hhi : x ≤ hi) :
    (lo : Rat) ≤ roundTo (10 ^ digits) x ∧ roundTo (10 ^ digits) x ≤ hi := by
  have hlow := roundTo_mono (10 ^ digits) hlo
  have hhigh := roundTo_mono (10 ^ digits) hhi
  rw [roundTo_intCast] at hlow hhigh
  exact ⟨hlow, hhigh⟩

/-- A point of the box with a corner in the origin. -/
def Point.Within (width height : Rat) (p : Point Rat) : Prop :=
  (0 ≤ p.x ∧ p.x ≤ width) ∧ 0 ≤ p.y ∧ p.y ≤ height

theorem Point.Within.round {width height : Int} {p : Point Rat} (h : p.Within width height)
    (digits : Nat) :
    (p.round (10 ^ digits)).Within width height := by
  have hzero : ((0 : Int) : Rat) = 0 := Int.cast_zero
  exact ⟨hzero ▸ Path.roundTo_mem digits (hzero ▸ h.1.1) h.1.2,
    hzero ▸ Path.roundTo_mem digits (hzero ▸ h.2.1) h.2.2⟩

namespace Trace

/-! ### Corners -/

theorem mem_destutter {ps : List (Point Rat)} {p : Point Rat} :
    p ∈ ps.destutter (· ≠ ·) ↔ p ∈ ps := by
  cases ps with
  | nil => exact Iff.rfl
  | cons q ps =>
    rw [List.destutter_cons']
    induction ps generalizing q with
    | nil => exact Iff.rfl
    | cons r ps ih =>
      by_cases h : q = r
      · subst h
        rw [List.destutter'_cons_neg _ (not_not.mpr rfl), ih, List.mem_cons, List.mem_cons,
          List.mem_cons, ← or_assoc, or_self]
      · rw [List.destutter'_cons_pos _ h, List.mem_cons, ih]
        exact List.mem_cons.symm

/-- **The corners of a line are its points, rounded.** -/
theorem mem_corners {unit : Rat} {ps : List (Point Rat)} {p : Point Rat} :
    p ∈ corners unit ps ↔ ∃ q ∈ ps, q.round unit = p := by
  rw [corners, mem_destutter, List.mem_map]

theorem filterMap_polygon (ps : List (Point Rat)) :
    (polygon ps).filterMap PathCommand.point? = ps := by
  rw [polygon, List.filterMap_append, filterMap_openLine]
  exact List.append_nil ps

/-! ### Outlines -/

section

variable {sample : Nat → Option Rat} {width : Nat} {height : Nat → Rat} {a b : Nat}
  {right top : Rat}

theorem edge_mem (hright : b * width ≤ right) {i : Nat} (hi : i ≤ b) :
    0 ≤ (i : Rat) * width ∧ (i : Rat) * width ≤ right := by
  have hle : (i : Rat) * width ≤ b * width :=
    mul_le_mul_of_nonneg_right (Nat.cast_le.mpr hi) (Nat.cast_nonneg _)
  exact ⟨by positivity, hle.trans hright⟩

variable (hab : a < b) (hright : b * width ≤ right) (htop : 0 ≤ top)
  (hheight : ∀ i, a ≤ i → i < b → 0 ≤ height i ∧ height i ≤ top)

include hab hright htop hheight

/-- **The area below a run is as wide as its groups and as high as their heights.** -/
theorem within_area : ∀ p ∈ area sample width height a b, p.Within right top := by
  intro p hp
  rw [area, segmentLine, List.mem_append, List.mem_cons, List.mem_append, List.mem_cons,
    List.mem_singleton, List.mem_singleton] at hp
  rcases hp with (rfl | (rfl | hp) | rfl) | rfl
  · exact ⟨edge_mem hright hab.le, le_rfl, htop⟩
  · exact ⟨edge_mem hright hab.le, hheight a le_rfl hab⟩
  · obtain ⟨i, hi, rfl⟩ := List.mem_map.mp hp
    obtain ⟨j, hj, rfl⟩ := List.mem_range'.mp (List.mem_of_mem_filter hi)
    -- a centre lies between the edges of its group
    obtain ⟨hlow, _⟩ := edge_mem (i := a + 1 * j) hright (by omega)
    obtain ⟨_, hhigh⟩ := edge_mem (i := a + 1 * j + 1) hright (by omega)
    have hwidth : (0 : Rat) ≤ width := Nat.cast_nonneg _
    push_cast at hlow hhigh
    refine ⟨⟨?_, ?_⟩, hheight _ (by omega) (by omega)⟩
    · show 0 ≤ ((a + 1 * j : Nat) + 0.5 : Rat) * width
      positivity
    · show ((a + 1 * j : Nat) + 0.5 : Rat) * width ≤ right
      push_cast
      linarith
  · exact ⟨edge_mem hright le_rfl, hheight (b - 1) (by omega) (by omega)⟩
  · exact ⟨edge_mem hright le_rfl, le_rfl, htop⟩

/-- So are the steps of a run. -/
theorem within_stepsArea : ∀ p ∈ stepsArea sample width height a b, p.Within right top := by
  intro p hp
  rw [stepsArea, stairs, List.mem_append, List.mem_cons, List.mem_append, List.mem_cons,
    List.mem_singleton, List.mem_singleton] at hp
  rcases hp with (rfl | (rfl | hp) | rfl) | rfl
  · exact ⟨edge_mem hright hab.le, le_rfl, htop⟩
  · exact ⟨edge_mem hright hab.le, hheight a le_rfl hab⟩
  · obtain ⟨i, hi, hp⟩ := List.mem_flatMap.mp hp
    obtain ⟨j, hj, rfl⟩ := List.mem_range'.mp (List.mem_of_mem_filter hi)
    have hedge := edge_mem (i := a + 1 + 1 * j) hright (by omega)
    rcases List.mem_pair.mp hp with rfl | rfl
    · exact ⟨hedge, hheight _ (by omega) (by omega)⟩
    · exact ⟨hedge, hheight _ (by omega) (by omega)⟩
  · exact ⟨edge_mem hright le_rfl, hheight (b - 1) (by omega) (by omega)⟩
  · exact ⟨edge_mem hright le_rfl, le_rfl, htop⟩

end

/-- **The steps of a run have a corner as high as each of its groups.** -/
theorem exists_mem_stairs {sample : Nat → Option Rat} {width : Rat} {height : Nat → Rat}
    (hheight : ∀ i j, sample i = sample j → height i = height j) {a b i : Nat} (ha : a ≤ i)
    (hb : i < b) :
    ∃ p ∈ stairs sample width height a b, p.y = height i := by
  induction i, ha using Nat.le_induction with
  | base => exact ⟨_, List.mem_append_left _ List.mem_cons_self, rfl⟩
  | succ i ha ih =>
    by_cases hsame : sample i = sample (i + 1)
    · -- no corner of its own: the group goes on as high as the one before
      obtain ⟨p, hp, hy⟩ := ih (by omega)
      exact ⟨p, hp, hy.trans (hheight _ _ hsame)⟩
    · have hmem : i + 1 ∈ (List.range' (a + 1) (b - (a + 1))).filter fun i =>
          sample (i - 1) != sample i :=
        List.mem_filter.mpr ⟨List.mem_range'.mpr ⟨i - a, by omega, by omega⟩,
          by simpa using hsame⟩
      have hcorner : ⟨(i + 1 : Nat) * width, height (i + 1)⟩ ∈
          changes sample width height a b :=
        List.mem_flatMap.mpr ⟨i + 1, hmem, List.mem_cons_of_mem _ List.mem_cons_self⟩
      exact ⟨_, List.mem_append_left _ (List.mem_cons_of_mem _ hcorner), rfl⟩

/-! ### Bit loading -/

/-- **The vertices of bit loading are the corners of its runs.** -/
theorem mem_vertices_steps (series : CarrierSeries Rat) (scaleY : Rat) {p : Point Rat} :
    p ∈ (steps .empty series scaleY).vertices ↔
      ∃ run ∈ stepsRuns (sampleAt series.samples) series.samples.length,
        p ∈ stepsArea (sampleAt series.samples) (max series.groupSize 1 : Nat)
          (stepsHeight (sampleAt series.samples) scaleY) run.1 run.2 := by
  have hunit : (Path.empty : Path Rat).unit = 10 ^ (4 + 1) := Scalar.tenPow_eq 5
  rw [Path.vertices, commands_steps, List.filterMap_append, List.filterMap_flatMap, hunit]
  show p ∈ [] ++ _ ↔ _
  rw [List.nil_append, List.mem_flatMap]
  refine exists_congr fun run => and_congr_right fun _ => ?_
  rw [filterMap_polygon, corners_of_whole _ whole_of_mem_stepsArea, mem_destutter]

end Trace

end LineCharts
