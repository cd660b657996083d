/-
Least and greatest samples in exchanged roles.

* `Extremes.exchanged` — the greatest samples as the least, and the other way round;
* `Extremes.Matched` — behind the end of one list the other has no
  sample that can be measured;
* `Trace.segments_eq_of_not_drawn` — groups that are not drawn add no segment;
* `Trace.StrokePlan.draw_eq_iff` — two traces of one plan are the same if nothing is
  drawn between their ends;
* `Trace.StrokePlan.covers_iff` — a trace shows exactly the groups in front of
  its end that are drawn;
* `Trace.extremes_exchanged_iff` — exchanged lists give exchanged traces if and only if
  the lists are matched;
* `Trace.not_exchanged_longer` — which fails for one greatest sample too many.

Design notes.  Both traces end with the least samples.  A list of least samples may therefore
be the longer one, a list of greatest samples may not.
-/
import LineCharts.Proofs.Trace.Vertices

namespace LineCharts

/-- The greatest samples as the least, and the least as the greatest. -/
def Extremes.exchanged (e : Extremes Rat) : Extremes Rat := ⟨e.groupSize, e.greatest, e.least⟩

/-- Behind the end of one list the other one has no sample that can be measured. -/
def Extremes.Matched (e : Extremes Rat) : Prop :=
  ∀ i, min e.least.length e.greatest.length ≤ i →
    Trace.measurable (Trace.sampleAt e.least i) = false ∧
      Trace.measurable (Trace.sampleAt e.greatest i) = false

namespace Trace

/-! ### Groups that are not drawn -/

section

variable {drawn cut : Nat → Bool} {n m : Nat}

theorem segments_succ_of_not_drawn (hn : drawn n = false) :
    segments drawn cut (n + 1) = segments drawn cut n := by
  rcases hw : walk drawn cut n with ⟨ended, _ | a⟩
  · rw [segments, segments, walk_outside hw hn, hw]
    rfl
  · rw [segments, segments, walk_leave hw hn, hw]
    simp

/-- **Groups that are not drawn add no segment.** -/
theorem segments_eq_of_not_drawn (h : n ≤ m) (hnot : ∀ i, n ≤ i → i < m → drawn i = false) :
    segments drawn cut m = segments drawn cut n := by
  induction m, h using Nat.le_induction with
  | base => rfl
  | succ m hle ih =>
    rw [segments_succ_of_not_drawn (hnot m hle (Nat.lt_succ_self m))]
    exact ih fun i hi him => hnot i hi (Nat.lt_succ_of_lt him)

end

namespace StrokePlan

variable (plan : StrokePlan) {n m width i : Nat}

/-- No point of a trace lies behind its end. -/
theorem x_le_of_mem_points {q : Point Rat} (hq : q ∈ plan.points n width) :
    q.x ≤ n * width := by
  obtain ⟨s, hs, hq⟩ := List.mem_flatMap.mp hq
  have hseg := mem_segments.mp hs
  have hlt := hseg.lt
  have hle := hseg.le
  have hedge {x : Rat} (hx : x ≤ n) : x * width ≤ n * width :=
    mul_le_mul_of_nonneg_right hx (Nat.cast_nonneg width)
  rw [segmentLine, List.mem_append, List.mem_cons, List.mem_singleton] at hq
  rcases hq with (rfl | hq) | rfl
  · exact hedge (by exact_mod_cast hlt.le.trans hle)
  · obtain ⟨j, hj, rfl⟩ := List.mem_map.mp hq
    obtain ⟨k, hk, rfl⟩ := List.mem_range'.mp (List.mem_of_mem_filter hj)
    have hj : ((s.1 + 1 * k : Nat) : Rat) + 1 ≤ n := by
      exact_mod_cast (show s.1 + 1 * k + 1 ≤ n by omega)
    exact hedge (by linarith)
  · exact hedge (by exact_mod_cast hle)

/-- A group that is drawn has a point behind its left edge. -/
theorem exists_lt_mem_points (hwidth : 1 ≤ width) (hi : i < m) (h : plan.drawn i = true) :
    ∃ q ∈ plan.points m width, (i : Rat) * width < q.x := by
  obtain ⟨a, b, hmem, _, hib⟩ := @exists_mem_segments _ plan.cut _ _ hi h
  refine ⟨⟨b * width, plan.height (b - 1)⟩, List.mem_flatMap.mpr ⟨(a, b), hmem, ?_⟩, ?_⟩
  · exact List.mem_append_right _ (List.mem_singleton_self _)
  · exact mul_lt_mul_of_pos_right (Nat.cast_lt.mpr hib) (Nat.cast_pos.mpr hwidth)

variable {post : Rat} {path : Path Rat} {digits : Nat}

theorem draw_eq_of_not_drawn (h : n ≤ m) (hnot : ∀ i, n ≤ i → i < m → plan.drawn i = false) :
    plan.draw m width post path = plan.draw n width post path := by
  rw [draw, draw, segments_eq_of_not_drawn h hnot]

/-- A group that is drawn behind the end of the shorter trace tells both apart. -/
theorem not_drawn_of_draw_eq (hpath : path.unit = 10 ^ (digits + 1)) (hwidth : 1 ≤ width)
    (h : plan.draw m width post path = plan.draw n width post path) (hi : n ≤ i)
    (him : i < m) :
    plan.drawn i = false := by
  by_contra hdrawn
  rw [Bool.not_eq_false] at hdrawn
  obtain ⟨q, hq, hx⟩ := plan.exists_lt_mem_points hwidth him hdrawn
  have hvertices := congrArg Path.vertices h
  rw [vertices_draw plan m width hwidth post hpath,
    vertices_draw plan n width hwidth post hpath, List.append_cancel_left_eq] at hvertices
  -- the shorter trace would have a vertex where the longer one has the point
  have hmem : vertex path.unit post q ∈ (plan.points m width).map (vertex path.unit post) :=
    List.mem_map_of_mem hq
  rw [hvertices] at hmem
  obtain ⟨r, hr, heq⟩ := List.mem_map.mp hmem
  have hxr : (vertex path.unit post r).x = (vertex path.unit post q).x := congrArg Point.x heq
  change r.x = q.x at hxr
  have hle := plan.x_le_of_mem_points hr
  have hedge : (n : Rat) * width ≤ i * width :=
    mul_le_mul_of_nonneg_right (Nat.cast_le.mpr hi) (Nat.cast_nonneg width)
  linarith

/-- **Two traces of one plan are the same if nothing is drawn between their
ends**, and only then. -/
theorem draw_eq_iff (hpath : path.unit = 10 ^ (digits + 1)) (hwidth : 1 ≤ width) :
    plan.draw n width post path = plan.draw m width post path ↔
      ∀ i, min n m ≤ i → i < max n m → plan.drawn i = false := by
  rcases le_total n m with hle | hle
  · rw [min_eq_left hle, max_eq_right hle]
    constructor
    · exact fun h i hi him => plan.not_drawn_of_draw_eq hpath hwidth h.symm hi him
    · exact fun h => (plan.draw_eq_of_not_drawn hle h).symm
  · rw [min_eq_right hle, max_eq_left hle]
    constructor
    · exact fun h i hi him => plan.not_drawn_of_draw_eq hpath hwidth h hi him
    · exact fun h => plan.draw_eq_of_not_drawn hle h

/-- One of the segments of a trace holds the group. -/
def Covers (count i : Nat) : Prop :=
  ∃ a b, (a, b) ∈ segments plan.drawn plan.cut count ∧ a ≤ i ∧ i < b

/-- **A trace shows exactly the groups in front of its end that are drawn.** -/
theorem covers_iff {count : Nat} : plan.Covers count i ↔ i < count ∧ plan.drawn i = true := by
  constructor
  · rintro ⟨a, b, hmem, hai, hib⟩
    have hseg := mem_segments.mp hmem
    exact ⟨hib.trans_le hseg.le, hseg.all i hai hib⟩
  · rintro ⟨hi, hdrawn⟩
    exact exists_mem_segments hi hdrawn

end StrokePlan

/-! ### Extremes -/

variable {own other : List (Option Rat)} (scale : StrokeScale Rat) {i : Nat}

theorem drawn_extremes : (StrokePlan.extremes own other scale).drawn i =
    ((sampleAt own i).isSome &&
      (measurable (sampleAt own i) || measurable (sampleAt other i))) := by
  rw [measurable_eq, measurable_eq, StrokePlan.extremes]
  simp

theorem isSome_of_measurable {x : Option Rat} (h : measurable x = true) :
    x.isSome = true := by
  cases x with
  | none => cases h
  | some v => rfl

theorem drawn_of_measurable (h : measurable (sampleAt own i) = true) :
    (StrokePlan.extremes own other scale).drawn i = true := by
  rw [drawn_extremes, isSome_of_measurable h, h]
  rfl

theorem sampleAt_of_le {samples : List (Option Rat)} (h : samples.length ≤ i) :
    sampleAt samples i = none := by
  rw [sampleAt, List.getD_eq_getElem?_getD, List.getElem?_eq_none h, Option.getD_none]

/-- Behind the end of the shorter list nothing is drawn exactly if no sample
there can be measured. -/
theorem not_drawn_iff (h : min own.length other.length ≤ i) :
    (StrokePlan.extremes own other scale).drawn i = false ∧
        (StrokePlan.extremes other own scale).drawn i = false ↔
      measurable (sampleAt own i) = false ∧ measurable (sampleAt other i) = false := by
  have hnone : measurable (none : Option Rat) = false := rfl
  have hone {x : Option Rat} : (x.isSome && measurable x) = measurable x := by
    cases x <;> rfl
  rw [drawn_extremes, drawn_extremes]
  rcases min_le_iff.mp h with hend | hend
  · simp [sampleAt_of_le hend, hnone, hone]
  · simp [sampleAt_of_le hend, hnone, hone]

/-- Nothing is drawn between the ends of both lists exactly if they are matched. -/
theorem matched_iff (series : Extremes Rat) : series.Matched ↔
    ∀ i, min series.greatest.length series.least.length ≤ i →
      i < max series.greatest.length series.least.length →
      (StrokePlan.extremes series.greatest series.least scale).drawn i = false ∧
        (StrokePlan.extremes series.least series.greatest scale).drawn i = false := by
  constructor
  · intro h i hi _
    exact (not_drawn_iff scale hi).mpr (h i (by rwa [min_comm])).symm
  · intro h i hi
    rw [min_comm] at hi
    rcases lt_or_ge i (max series.greatest.length series.least.length) with hlt | hge
    · exact ((not_drawn_iff scale hi).mp (h i hi hlt)).symm
    · obtain ⟨hgreatest, hleast⟩ := max_le_iff.mp hge
      rw [sampleAt_of_le hgreatest, sampleAt_of_le hleast]
      exact ⟨rfl, rfl⟩

/-- **Exchanged lists give exchanged traces if and only if they are matched.**  The least
samples are all shown; the greatest samples are shown as far as there are least ones. -/
theorem extremes_exchanged_iff {digits digits' : Nat} {low high : Path Rat}
    (hlow : low.unit = 10 ^ (digits + 1)) (hhigh : high.unit = 10 ^ (digits' + 1))
    (series : Extremes Rat) (scale : StrokeScale Rat) :
    (extremes high low series.exchanged scale = (extremes low high series scale).swap ↔
      series.Matched) ∧
    (∀ i, measurable (sampleAt series.least i) = true →
      (StrokePlan.extremes series.least series.greatest scale).Covers series.least.length i) ∧
    ∀ i, measurable (sampleAt series.greatest i) = true →
      ((StrokePlan.extremes series.greatest series.least scale).Covers series.least.length i ↔
        i < series.least.length) := by
  have hwidth : 1 ≤ max series.groupSize 1 := le_max_right _ _
  obtain ⟨hleast, hgreatest⟩ := extremes_eq_lines low high series scale
  obtain ⟨hleast', hgreatest'⟩ :
      (extremes high low series.exchanged scale).1 =
          (StrokePlan.extremes series.greatest series.least scale).draw series.greatest.length
            (max series.groupSize 1 : Nat) scale.postScaleY high ∧
        (extremes high low series.exchanged scale).2 =
          (StrokePlan.extremes series.least series.greatest scale).draw series.greatest.length
            (max series.groupSize 1 : Nat) scale.postScaleY low :=
    extremes_eq_lines high low series.exchanged scale
  refine ⟨?_, ?_, ?_⟩
  · rw [Prod.ext_iff, Prod.fst_swap, Prod.snd_swap, hleast, hgreatest, hleast', hgreatest',
      StrokePlan.draw_eq_iff _ hhigh hwidth, StrokePlan.draw_eq_iff _ hlow hwidth,
        matched_iff scale]
    constructor
    · rintro ⟨hhighs, hlows⟩ i hi him
      exact ⟨hhighs i hi him, hlows i hi him⟩
    · intro h
      exact ⟨fun i hi him => (h i hi him).1, fun i hi him => (h i hi him).2⟩
  · intro i hi
    obtain ⟨v, hv⟩ := Option.isSome_iff_exists.mp (isSome_of_measurable hi)
    exact (StrokePlan.covers_iff _).mpr ⟨lt_of_sampleAt hv, drawn_of_measurable scale hi⟩
  · intro i hi
    rw [StrokePlan.covers_iff, drawn_of_measurable scale hi, and_iff_left rfl]

/-- A greatest sample too many does no harm where it cannot be measured. -/
theorem extremes_exchanged_outside :
    let series : Extremes Rat := ⟨2, [some 20, none], [some 30, some 31, some 200]⟩
    let scale : StrokeScale Rat := ⟨1, 0, 65, 1⟩
    let path : Path Rat := .withPrecision 1
    path.unit = 10 ^ (0 + 1) ∧ series.Matched ∧
      extremes path path series.exchanged scale = (extremes path path series scale).swap := by
  intro series scale path
  have hunit : path.unit = 10 ^ (0 + 1) := Scalar.tenPow_eq 1
  have hmatched : series.Matched := by
    intro i hi
    have hend : 2 ≤ i := hi
    rcases Nat.lt_or_eq_of_le hend with hlt | rfl
    · rw [sampleAt_of_le (show series.least.length ≤ i from hend),
        sampleAt_of_le (show series.greatest.length ≤ i from hlt)]
      exact ⟨rfl, rfl⟩
    · exact ⟨rfl, by decide +kernel⟩
  exact ⟨hunit, hmatched, (extremes_exchanged_iff hunit hunit series scale).1.mpr hmatched⟩

/-- **One greatest sample too many is lost**, and is shown as soon as the
lists are exchanged. -/
theorem not_exchanged_longer :
    let series : Extremes Rat := ⟨1, [some 20], [some 30, some 31]⟩
    let scale : StrokeScale Rat := ⟨1, 0, 65, 1⟩
    let path : Path Rat := .withPrecision 1
    (extremes path path series scale).2.vertices = [⟨0, 59 / 2⟩, ⟨1, 59 / 2⟩] ∧
    (extremes path path series.exchanged scale).1.vertices =
      [⟨0, 59 / 2⟩, ⟨1 / 2, 59 / 2⟩, ⟨3 / 2, 61 / 2⟩, ⟨2, 61 / 2⟩] ∧
    extremes path path series.exchanged scale ≠ (extremes path path series scale).swap := by
  intro series scale path
  have hlost : (extremes path path series scale).2.vertices = [⟨0, 59 / 2⟩, ⟨1, 59 / 2⟩] := by
    decide +kernel
  have hshown : (extremes path path series.exchanged scale).1.vertices =
      [⟨0, 59 / 2⟩, ⟨1 / 2, 59 / 2⟩, ⟨3 / 2, 61 / 2⟩, ⟨2, 61 / 2⟩] := by
    decide +kernel
  refine ⟨hlost, hshown, fun h => ?_⟩
  have hsame : (extremes path path series.exchanged scale).1.vertices =
      (extremes path path series scale).2.vertices :=
    congrArg (fun paths : Path Rat × Path Rat => paths.1.vertices) h
  rw [hlost, hshown] at hsame
  exact absurd (congrArg List.length hsame) (by decide)

end Trace

end LineCharts
