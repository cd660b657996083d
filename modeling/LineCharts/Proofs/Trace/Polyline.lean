/-
Lines as sets of points, and what may be left out of them.

* `Trace.OnPolyline` — a point lies on the line through some points;
* `Trace.onSegment_level`, `Trace.onSegment_upright` — the points of a level
  and of an upright part;
* `Trace.onPolyline_skip` — a point between two others at its own height may be left out;
* `Trace.onPolyline_begun` — so may all points of a segment whose sample
  differs from none next to it;
* `Trace.onPolyline_destutter` — and all points that are equal to the point before;
* `Trace.onPolyline_segmentLine` — so the line of a segment is the line
  through all its centres;
* `Trace.TopsAt` — a path has a polygon over the base line whose upper
  edge goes through a point.
-/
import LineCharts.Proofs.Trace.Outline
import Mathlib.Analysis.Convex.Segment

namespace LineCharts.Trace

/-- A point between two others. -/
def OnSegment (p q r : Point Rat) : Prop :=
  ∃ t : Rat, 0 ≤ t ∧ t ≤ 1 ∧ r.x = p.x + t * (q.x - p.x) ∧ r.y = p.y + t * (q.y - p.y)

/-- A point on the line through some points. -/
def OnPolyline : List (Point Rat) → Point Rat → Prop
  | [], _ => False
  | [p], r => r = p
  | p :: q :: ps, r => OnSegment p q r ∨ OnPolyline (q :: ps) r

variable {p q s r : Point Rat} {ps qs : List (Point Rat)}

theorem onSegment_self : OnSegment p p r ↔ r = p := by
  constructor
  · rintro ⟨t, _, _, hx, hy⟩
    rw [sub_self, mul_zero, add_zero] at hx hy
    exact (Point.mk.injEq ..).mpr ⟨hx, hy⟩
  · rintro rfl
    exact ⟨0, le_rfl, zero_le_one, by ring, by ring⟩

theorem onSegment_left : OnSegment p q p := ⟨0, le_rfl, zero_le_one, by ring, by ring⟩

theorem onSegment_right : OnSegment p q q := ⟨1, zero_le_one, le_rfl, by ring, by ring⟩

/-- On a level segment. -/
theorem onSegment_level (hy : p.y = q.y) (hx : p.x ≤ q.x) :
    OnSegment p q r ↔ r.y = p.y ∧ p.x ≤ r.x ∧ r.x ≤ q.x := by
  constructor
  · rintro ⟨t, h0, h1, hrx, hry⟩
    have hlow := mul_nonneg h0 (sub_nonneg.mpr hx)
    have hhigh := mul_le_of_le_one_left (sub_nonneg.mpr hx) h1
    rw [← hy, sub_self, mul_zero, add_zero] at hry
    exact ⟨hry, by linarith, by linarith⟩
  · rintro ⟨hry, hlow, hhigh⟩
    rcases hx.eq_or_lt with heq | hlt
    · exact ⟨0, le_rfl, zero_le_one, by linarith, by linarith⟩
    · have hpos := sub_pos.mpr hlt
      refine ⟨(r.x - p.x) / (q.x - p.x), div_nonneg (by linarith) hpos.le,
        (div_le_one hpos).mpr (by linarith), ?_, ?_⟩
      · rw [div_mul_cancel₀ _ hpos.ne']
        ring
      · rw [← hy, sub_self, mul_zero, add_zero]
        exact hry

/-- On an upright segment. -/
theorem onSegment_upright {x y y' : Rat} :
    OnSegment ⟨x, y⟩ ⟨x, y'⟩ r ↔ r.x = x ∧ r.y ∈ Set.uIcc y y' := by
  have himage : r.y ∈ Set.uIcc y y' ↔
      ∃ t : Rat, (0 ≤ t ∧ t ≤ 1) ∧ r.y = y + t * (y' - y) := by
    rw [← segment_eq_uIcc, segment_eq_image']
    exact exists_congr fun t => and_congr_right fun _ => eq_comm
  rw [himage, OnSegment]
  constructor
  · rintro ⟨t, h0, h1, hx, hy⟩
    rw [sub_self, mul_zero, add_zero] at hx
    exact ⟨hx, t, ⟨h0, h1⟩, hy⟩
  · rintro ⟨hx, t, ⟨h0, h1⟩, hy⟩
    exact ⟨t, h0, h1, by rw [hx, sub_self, mul_zero, add_zero], hy⟩

/-- Two level segments one behind the other. -/
theorem onSegment_level_append (hpq : p.y = q.y) (hqs : q.y = s.y) (hx : p.x ≤ q.x)
    (hx' : q.x ≤ s.x) : OnSegment p q r ∨ OnSegment q s r ↔ OnSegment p s r := by
  rw [onSegment_level hpq hx, onSegment_level hqs hx', onSegment_level (hpq.trans hqs)
    (hx.trans hx'), hpq]
  constructor
  · rintro (⟨hy, h1, h2⟩ | ⟨hy, h1, h2⟩)
    · exact ⟨hy, h1, h2.trans hx'⟩
    · exact ⟨hy, hx.trans h1, h2⟩
  · rintro ⟨hy, h1, h2⟩
    rcases le_total r.x q.x with h | h
    · exact .inl ⟨hy, h1, h⟩
    · exact .inr ⟨hy, h, h2⟩

theorem onPolyline_head : OnPolyline (p :: ps) p := by
  cases ps with
  | nil => rfl
  | cons q ps => exact .inl onSegment_left

/-- A point between two others at its own height may be left out. -/
theorem onPolyline_skip (hpq : p.y = q.y) (hqs : q.y = s.y) (hx : p.x ≤ q.x)
    (hx' : q.x ≤ s.x) :
    OnPolyline (p :: q :: s :: ps) r ↔ OnPolyline (p :: s :: ps) r := by
  show _ ∨ _ ∨ _ ↔ _ ∨ _
  rw [← or_assoc, onSegment_level_append hpq hqs hx hx']

theorem onPolyline_twice : OnPolyline (p :: p :: ps) r ↔ OnPolyline (p :: ps) r := by
  constructor
  · rintro (h | h)
    · rw [onSegment_self.mp h]
      exact onPolyline_head
    · exact h
  · exact .inr

/-- What comes before a point on a line does not matter behind it. -/
theorem onPolyline_append_congr (h : OnPolyline (p :: ps) r ↔ OnPolyline (p :: qs) r)
    (front : List (Point Rat)) :
    OnPolyline (front ++ p :: ps) r ↔ OnPolyline (front ++ p :: qs) r := by
  induction front with
  | nil => exact h
  | cons f front ih =>
    cases front with
    | nil => exact or_congr_right h
    | cons g front => exact or_congr_right ih

theorem onPolyline_of_mem (h : r ∈ ps) : OnPolyline ps r := by
  induction ps with
  | nil => exact absurd h List.not_mem_nil
  | cons p ps ih =>
    rcases List.mem_cons.mp h with rfl | h
    · exact onPolyline_head
    · cases ps with
      | nil => exact absurd h List.not_mem_nil
      | cons q ps => exact .inr (ih h)

/-- A line that goes on to one more point. -/
theorem onPolyline_concat (front : List (Point Rat)) :
    OnPolyline (front ++ [p, q]) r ↔ OnPolyline (front ++ [p]) r ∨ OnSegment p q r := by
  induction front with
  | nil =>
    show OnSegment p q r ∨ r = q ↔ r = p ∨ OnSegment p q r
    have hp : r = p → OnSegment p q r := by
      rintro rfl
      exact onSegment_left
    have hq : r = q → OnSegment p q r := by
      rintro rfl
      exact onSegment_right
    tauto
  | cons f front ih =>
    cases front with
    | nil => exact (or_congr_right ih).trans (or_assoc).symm
    | cons g front => exact (or_congr_right ih).trans (or_assoc).symm

/-- A line through the points of a path is the line through its corners. -/
theorem onPolyline_destutter : OnPolyline (ps.destutter (· ≠ ·)) r ↔ OnPolyline ps r := by
  cases ps with
  | nil => exact Iff.rfl
  | cons p ps =>
    rw [List.destutter_cons']
    induction ps generalizing p with
    | nil => exact Iff.rfl
    | cons q ps ih =>
      by_cases hpq : p = q
      · subst hpq
        rw [List.destutter'_cons_neg _ (not_not.mpr rfl), onPolyline_twice]
        exact ih p
      · have hq := ih q
        rw [destutter'_eq_cons] at hq
        rw [List.destutter'_cons_pos _ hpq, destutter'_eq_cons]
        exact or_congr_right hq

/-! ### Centres -/

variable {sample : Nat → Option Rat} {point : Nat → Point Rat} {a b n : Nat}

/-- The points of all indices of a segment. -/
def allCentres (point : Nat → Point Rat) (a b : Nat) : List (Point Rat) :=
  (List.range' a (b - a)).map point

theorem allCentres_succ (h : a ≤ n) :
    allCentres point a (n + 1) = allCentres point a n ++ [point n] := by
  rw [allCentres, allCentres, range'_succ_last h, List.map_append]
  rfl

/-- The line through all centres of a segment, from its left end to its right end. -/
def centreLine (width : Rat) (height : Nat → Rat) (a b : Nat) : List (Point Rat) :=
  ⟨a * width, height a⟩ :: allCentres (centre width height) a b ++
    [⟨b * width, height (b - 1)⟩]

/-- **Centres on straight parts may be left out**, if what follows goes on at the same height,
or the last centre is not left out. -/
theorem onPolyline_begun (hlevel : ∀ i j, sample i = sample j → (point i).y = (point j).y)
    (hmono : Monotone fun i => (point i).x) (hp : p.y = (point a).y) (hpx : p.x ≤ (point a).x)
    (ha : a ≤ n)
    (hnext : turns sample a (n + 1) n = true ∨
      ∃ q rest, ps = q :: rest ∧ (point n).y = q.y ∧ (point n).x ≤ q.x) :
    OnPolyline (p :: centres sample point a (n + 1) ++ ps) r ↔
      OnPolyline (p :: allCentres point a (n + 1) ++ ps) r := by
  induction n, ha using Nat.le_induction generalizing ps with
  | base =>
    rw [turns_singleton] at hnext
    obtain ⟨q, rest, rfl, hy, hx⟩ := hnext.resolve_left (by simp)
    rw [centres_singleton, allCentres, Nat.add_sub_cancel_left]
    exact (onPolyline_skip hp hy hpx hx).symm
  | succ n ha ih =>
    have hstep : (point n).x ≤ (point (n + 1)).x := hmono (Nat.le_succ n)
    rw [centres_succ sample point ha, allCentres_succ (Nat.le_succ_of_le ha),
      allCentres_succ ha]
    by_cases heq : sample n = sample (n + 1)
    · -- the new centre is left out, and lies between the last one and what follows
      have hturns : turns sample a (n + 2) (n + 1) = false := by simp [turns, heq]
      rw [hturns] at hnext
      obtain ⟨q, rest, rfl, hy, hx⟩ := hnext.resolve_left (by simp)
      have hbefore := ih (.inr ⟨q, rest, rfl, (hlevel _ _ heq).trans hy, hstep.trans hx⟩)
      have hlevels : OnPolyline (point n :: point (n + 1) :: q :: rest) r ↔
          OnPolyline (point n :: q :: rest) r := onPolyline_skip (hlevel _ _ heq) hy hstep hx
      have hskip := onPolyline_append_congr hlevels (p :: allCentres point a n)
      rw [allCentres_succ ha] at hbefore
      rw [if_pos heq, List.append_nil, hbefore]
      simpa using hskip.symm
    · rw [if_neg heq]
      cases hturns : turns sample a (n + 1) n with
      | true =>
        have hbefore := @ih (point (n + 1) :: ps) (.inl hturns)
        rw [allCentres_succ ha] at hbefore
        simpa using hbefore
      | false =>
        -- the last centre is added late; a line through all centres is there already
        have hbefore :=
          @ih (point n :: point (n + 1) :: ps) (.inr ⟨point n, _, rfl, rfl, le_rfl⟩)
        have hsame : OnPolyline (point n :: point n :: point (n + 1) :: ps) r ↔
            OnPolyline (point n :: point (n + 1) :: ps) r := onPolyline_twice
        have htwice := onPolyline_append_congr hsame (p :: allCentres point a n)
        rw [allCentres_succ ha] at hbefore
        have hboth := hbefore.trans (by simpa using htwice)
        simpa using hboth

/-- **The corners of a line through the centres that turn lie on the line
through all centres.** -/
theorem onPolyline_centres {width : Rat} {height : Nat → Rat} (hwidth : 0 ≤ width)
    (hheight : ∀ i j, sample i = sample j → height i = height j) (unit : Rat) (ha : a ≤ n)
    {left right : Rat} (hleft : left ≤ (a + 0.5) * width)
    (hright : (n + 0.5) * width ≤ right) :
    OnPolyline (corners unit (Point.mk left (height a) ::
        centres sample (centre width height) a (n + 1) ++ [Point.mk right (height n)])) r ↔
      OnPolyline ((Point.mk left (height a) ::
        allCentres (centre width height) a (n + 1) ++ [Point.mk right (height n)]).map
          (Point.round unit)) r := by
  have hlevel : ∀ i j, sample i = sample j →
      ((centre width height i).round unit).y = ((centre width height j).round unit).y := by
    intro i j hij
    exact congrArg (Path.roundTo unit) (hheight i j hij)
  have hmono : Monotone fun i => ((centre width height i).round unit).x := by
    intro i j hij
    have hij' : (i : Rat) ≤ j := Nat.cast_le.mpr hij
    exact Path.roundTo_mono unit (mul_le_mul_of_nonneg_right (by linarith) hwidth)
  have hend : ∀ (x : Rat) (i : Nat), (Point.round unit ⟨x, height i⟩).y =
      ((centre width height i).round unit).y := by
    intro x i
    rw [Point.round, Point.round, centre]
  have hbegun :=
    onPolyline_begun (r := r) hlevel hmono (hend left a) (Path.roundTo_mono unit hleft) ha
      (.inr ⟨Point.round unit ⟨right, height n⟩, [], rfl, (hend right n).symm,
      Path.roundTo_mono unit hright⟩)
  rw [corners, onPolyline_destutter]
  simpa [centres, allCentres, Function.comp_def] using hbegun

/-- **The line of a segment is the line through all its centres**, also
when both are rounded. -/
theorem onPolyline_segmentLine {width : Rat} {height : Nat → Rat} (hwidth : 0 ≤ width)
    (hheight : ∀ i j, sample i = sample j → height i = height j) (unit : Rat) {a b : Nat}
    (hab : a < b) (p : Point Rat) :
    OnPolyline (corners unit (segmentLine sample width height a b)) p ↔
      OnPolyline ((centreLine width height a b).map (Point.round unit)) p := by
  obtain ⟨n, rfl⟩ : ∃ n, b = n + 1 := ⟨b - 1, by omega⟩
  refine onPolyline_centres hwidth hheight unit (Nat.le_of_lt_succ hab) ?_ ?_
  · exact mul_le_mul_of_nonneg_right (by norm_num) hwidth
  · refine mul_le_mul_of_nonneg_right ?_ hwidth
    push_cast
    norm_num

/-! ### Upper edges -/

/-- A path has a polygon over the base line whose upper edge goes through a point. -/
def TopsAt (path : Path Rat) (p : Point Rat) : Prop :=
  ∃ before left upper right after,
    path.commands.toList =
      before ++ polygon (corners path.unit (⟨left, 0⟩ :: upper ++ [⟨right, 0⟩])) ++ after ∧
    OnPolyline (corners path.unit upper) p

/-- One of the polygons that are appended. -/
theorem topsAt_polygons {path : Path Rat} {outlines : List (List (Point Rat))}
    {left right : Rat} {upper : List (Point Rat)}
    (hmem : ⟨left, 0⟩ :: upper ++ [⟨right, 0⟩] ∈ outlines)
    (hp : OnPolyline (corners path.unit upper) p) : TopsAt (path.polygons outlines) p := by
  have hcommands := path.commands_polygons outlines
  obtain ⟨front, back, rfl⟩ := List.append_of_mem hmem
  rw [← path.unit_polygons (front ++ _ :: back), List.flatMap_append, List.flatMap_cons,
    ← List.append_assoc, ← List.append_assoc] at hcommands
  rw [← path.unit_polygons (front ++ _ :: back)] at hp
  exact ⟨_, left, upper, right, _, hcommands, hp⟩

/-- Polygons that are appended leave those before them where they are. -/
theorem TopsAt.polygons {path : Path Rat} (h : TopsAt path p)
    (outlines : List (List (Point Rat))) :
    TopsAt (path.polygons outlines) p := by
  obtain ⟨before, left, upper, right, after, hcommands, hp⟩ := h
  have hall := path.commands_polygons outlines
  rw [hcommands, List.append_assoc, ← path.unit_polygons outlines] at hall
  exact ⟨before, left, upper, right, _, hall, (path.unit_polygons outlines).symm ▸ hp⟩

theorem TopsAt.isEmpty {path : Path Rat} (h : TopsAt path p) : path.isEmpty = false := by
  obtain ⟨before, left, upper, right, after, hcommands, -⟩ := h
  have hne : path.commands.toList ≠ [] := by
    rw [hcommands, polygon]
    simp
  rw [Path.isEmpty, ← Array.isEmpty_toList]
  simpa using hne

end LineCharts.Trace
