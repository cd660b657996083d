/-
A stroked trace has one vertex for each of its points, in exact arithmetic.

* `Path.vertices` — the points that a path leads to, in order;
* `Trace.StrokePlan.points` — the points of a trace: carriers or periods
  across, pixels upwards;
* `Trace.vertex` — what a path makes of a point: its height is scaled and rounded;
* `Trace.pairwise_segmentLine` — the points of a line go from left to right;
* `Trace.StrokePlan.vertices_draw` — so none of them is left out.

Design notes.  Points stand at whole numbers of carriers and at the middles between
them, which a path with a decimal place holds as they are.  So two points of a line
are never taken for one.
-/
import LineCharts.Proofs.Trace.Stroke

namespace LineCharts

/-- The point that a command leads to, if it says one. -/
def PathCommand.point? : PathCommand Rat → Option (Point Rat)
  | .moveTo p => some p
  | .lineTo p => some p
  | .close => none

/-- The points that a path leads to. -/
def Path.vertices (path : Path Rat) : List (Point Rat) :=
  path.commands.toList.filterMap PathCommand.point?

namespace Trace

theorem filterMap_openLine (ps : List (Point Rat)) :
    (openLine ps).filterMap PathCommand.point? = ps := by
  cases ps with
  | nil => rfl
  | cons p ps =>
    have hlines : (ps.map PathCommand.lineTo).filterMap PathCommand.point? = ps := by
      rw [List.filterMap_map]
      exact List.filterMap_some
    exact congrArg (p :: ·) hlines

/-- What a path makes of a point: its height is multiplied and rounded. -/
def vertex (unit post : Rat) (q : Point Rat) : Point Rat :=
  ⟨q.x, Path.roundTo unit (q.y * post)⟩

section

variable (sample : Nat → Option Rat) {width : Nat} (height : Nat → Rat) {a b : Nat}

/-- The points of a line go from left to right. -/
theorem pairwise_segmentLine (hwidth : 1 ≤ width) (hab : a < b) :
    (segmentLine sample width height a b).Pairwise fun p q => p.x < q.x := by
  have hpos : (0 : Rat) < width := Nat.cast_pos.mpr hwidth
  have hcentre {i j : Nat} (hij : i < j) : ((i : Rat) + 0.5) * width < j * width := by
    have hle : (i : Rat) + 1 ≤ j := by exact_mod_cast hij
    exact mul_lt_mul_of_pos_right (by linarith) hpos
  have hedge {i j : Nat} (hij : i ≤ j) : (i : Rat) * width < (j + 0.5) * width := by
    have hle : (i : Rat) ≤ j := by exact_mod_cast hij
    exact mul_lt_mul_of_pos_right (by linarith) hpos
  have hmem : ∀ p ∈ centres sample (centre width height) a b,
      a * width < p.x ∧ p.x < b * width := by
    intro p hp
    obtain ⟨i, hi, rfl⟩ := List.mem_map.mp hp
    obtain ⟨j, hj, rfl⟩ := List.mem_range'.mp (List.mem_of_mem_filter hi)
    exact ⟨hedge (by omega), hcentre (by omega)⟩
  have hcentres : (centres sample (centre width height) a b).Pairwise fun p q =>
      p.x < q.x := by
    refine List.pairwise_map.mpr
      ((List.pairwise_lt_range' ..).filter _ |>.imp fun {i j} hij => ?_)
    exact (hcentre hij).trans (hedge le_rfl)
  rw [segmentLine, List.cons_append, List.pairwise_cons, List.pairwise_append]
  refine ⟨?_, hcentres, List.pairwise_singleton _ _, ?_⟩
  · intro p hp
    rcases List.mem_append.mp hp with hp | hp
    · exact (hmem p hp).1
    · rw [List.mem_singleton.mp hp]
      exact mul_lt_mul_of_pos_right (Nat.cast_lt.mpr hab) hpos
  · intro p hp q hq
    rw [List.mem_singleton.mp hq]
    exact (hmem p hp).2

/-- The points of a line stand at places that a path holds as they are. -/
theorem mem_halves_of_mem_segmentLine :
    ∀ p ∈ segmentLine sample width height a b, p.x ∈ Exact.halves := by
  have hedge (i : Nat) : (i : Rat) * width ∈ Exact.halves := by
    rw [← Nat.cast_mul]
    exact Exact.intCast_mem_halves (i * width : Nat)
  intro p hp
  rw [segmentLine, List.mem_append, List.mem_cons, List.mem_singleton] at hp
  rcases hp with (rfl | hp) | rfl
  · exact hedge a
  · obtain ⟨i, _, rfl⟩ := List.mem_map.mp hp
    exact centre_mem_halves width i
  · exact hedge b

theorem segmentLine_mul (width post : Rat) :
    segmentLine sample width (fun i => height i * post) a b =
      (segmentLine sample width height a b).map fun q => ⟨q.x, q.y * post⟩ := by
  rw [segmentLine, segmentLine, List.map_append, List.map_cons, centres,
    centres, List.map_map]
  rfl

/-- **No point of a line is left out** when it is rounded. -/
theorem corners_segmentLine (hwidth : 1 ≤ width) (hab : a < b) (digits : Nat) (post : Rat) :
    corners (10 ^ (digits + 1)) (segmentLine sample width (fun i => height i * post) a b) =
      (segmentLine sample width height a b).map (vertex (10 ^ (digits + 1)) post) := by
  have hround : (segmentLine sample width (fun i => height i * post) a b).map
      (Point.round (10 ^ (digits + 1))) =
        (segmentLine sample width height a b).map (vertex (10 ^ (digits + 1)) post) := by
    rw [segmentLine_mul, List.map_map]
    refine List.map_congr_left fun q hq => ?_
    have hx := mem_halves_of_mem_segmentLine sample height q hq
    rw [Function.comp_apply, Point.round, Path.roundTo_of_mem_halves digits hx, vertex]
  rw [corners, hround]
  refine List.destutter_of_isChain _ _ (List.Pairwise.isChain (List.pairwise_map.mpr ?_))
  refine (pairwise_segmentLine sample height hwidth hab).imp fun {p q} hpq heq => ?_
  have hx : (vertex (10 ^ (digits + 1)) post p).x = (vertex (10 ^ (digits + 1)) post q).x :=
    congrArg Point.x heq
  exact hpq.ne hx

end

namespace StrokePlan

variable (plan : StrokePlan) (count : Nat) (width : Nat)

/-- The points of a trace, from left to right. -/
def points : List (Point Rat) :=
  (segments plan.drawn plan.cut count).flatMap fun s =>
    segmentLine plan.sample width plan.height s.1 s.2

theorem unit_draw (width post : Rat) (path : Path Rat) :
    (plan.draw count width post path).unit = path.unit := by
  rw [draw, lines_eq_foldl, Path.unit_foldl_through]

/-- **A path gets one vertex for each point**, in order. -/
theorem vertices_draw (hwidth : 1 ≤ width) (post : Rat) {path : Path Rat} {digits : Nat}
    (hpath : path.unit = 10 ^ (digits + 1)) :
    (plan.draw count width post path).vertices =
      path.vertices ++ (plan.points count width).map (vertex path.unit post) := by
  rw [Path.vertices, draw, commands_lines, List.filterMap_append, List.filterMap_flatMap,
    points, List.map_flatMap, hpath]
  refine congrArg (_ ++ ·) (List.flatMap_congr fun s hs => ?_)
  rw [corners_segmentLine _ _ hwidth (mem_segments.mp hs).lt, filterMap_openLine]

/-- So it is for a path with one decimal place. -/
theorem vertices_draw_tenths (hwidth : 1 ≤ width) (post : Rat) {path : Path Rat}
    (hpath : path.unit = 10) :
    (plan.draw count width post path).vertices =
      path.vertices ++ (plan.points count width).map (vertex 10 post) := by
  have hunit : path.unit = 10 ^ (0 + 1) := by rw [hpath, zero_add, pow_one]
  rw [vertices_draw plan count width hwidth post hunit, hpath]

/-- Every point is as high as a sample. -/
theorem exists_height_of_mem_points {q : Point Rat} (hq : q ∈ plan.points count width) :
    ∃ i, q.y = plan.height i := by
  obtain ⟨s, _, hq⟩ := List.mem_flatMap.mp hq
  rw [segmentLine, List.mem_append, List.mem_cons, List.mem_singleton] at hq
  rcases hq with (rfl | hq) | rfl
  · exact ⟨s.1, rfl⟩
  · obtain ⟨i, _, rfl⟩ := List.mem_map.mp hq
    exact ⟨i, rfl⟩
  · exact ⟨s.2 - 1, rfl⟩

/-- A trace that draws its first sample has a point at its height. -/
theorem exists_mem_points (hcount : 0 < count) (hdrawn : plan.drawn 0 = true) :
    ∃ q ∈ plan.points count width, q.y = plan.height 0 := by
  obtain ⟨a, b, hmem, ha, hb⟩ := @exists_mem_segments _ plan.cut _ _ hcount hdrawn
  obtain rfl : a = 0 := by omega
  exact ⟨_, List.mem_flatMap.mpr ⟨(0, b), hmem, List.mem_cons_self⟩, rfl⟩

end StrokePlan

end Trace

end LineCharts
