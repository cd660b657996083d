/-
Filled areas are the outlines of runs.

* `Trace.area` — the area below the line of a run;
* `Trace.Fill.Follows` — the state between two samples has drawn the runs so far: the areas of
  those that have ended, and of the open one as much as is known to turn;
* `Trace.Fill.Follows.outside`, `Trace.Fill.Follows.leave`,
  `Trace.Fill.Follows.enter`, `Trace.Fill.Follows.stay`, `Trace.Fill.Follows.turn` —
  what a sample can do, and that it keeps this up;
* `Trace.commands_fill` — a fill appends the area of each run, from left to right;
* `Trace.topsAt_fill` — so above the centre of a group that is drawn there is its height.

Design notes.  A centre can be left out of the upper edge only when the sample behind it is
known, so the state is one centre behind.
-/
import LineCharts.Proofs.Geometry.Rounding
import LineCharts.Proofs.Trace.Polyline
import LineCharts.Trace.Fill

namespace LineCharts.Trace

namespace FillScale

variable {scale : FillScale Rat} {sample : Nat → Option Rat} {i : Nat} {v : Rat}

/-- How high a group is to be: as far above `offsetY` as its sample, which
is cut off at `maxY`. -/
def heightAt (scale : FillScale Rat) (sample : Nat → Option Rat) (i : Nat) : Rat :=
  (min scale.maxY ((sample i).getD 0) - scale.offsetY) * scale.scaleY

/-- The group is to be drawn: its sample is above `offsetY` and in the window. -/
def drawsAt (scale : FillScale Rat) (sample : Nat → Option Rat) (i : Nat) : Bool :=
  (sample i).any fun v => decide (scale.offsetY < v ∧ scale.validMin ≤ v ∧ v ≤ scale.validMax)

theorem draws_iff : scale.draws v = true ↔
    scale.offsetY < v ∧ scale.validMin ≤ v ∧ v ≤ scale.validMax := by
  rw [draws, Scalar.within, Bool.and_eq_true, Bool.and_eq_true, decide_eq_true_eq,
    decide_eq_true_eq, decide_eq_true_eq]

/-- A fill draws the samples that it is to draw. -/
theorem drawsAt_eq (scale : FillScale Rat) (sample : Nat → Option Rat) (i : Nat) :
    scale.drawsAt sample i = (sample i).any scale.draws := by
  have hdraws : scale.draws = fun v =>
      decide (scale.offsetY < v ∧ scale.validMin ≤ v ∧ v ≤ scale.validMax) := by
    funext v
    rw [Bool.eq_iff_iff, draws_iff, decide_eq_true_eq]
  rw [drawsAt, hdraws]

/-- And it draws each one as high as it is to be. -/
theorem drawsAt_of_eq (scale : FillScale Rat) (hi : sample i = some v) :
    scale.drawsAt sample i = scale.draws v ∧ scale.heightAt sample i = scale.height v := by
  rw [drawsAt_eq, heightAt, hi]
  exact ⟨rfl, rfl⟩

theorem exists_of_drawsAt (h : scale.drawsAt sample i = true) :
    ∃ v, sample i = some v ∧ scale.draws v = true ∧
      scale.heightAt sample i = scale.height v := by
  rw [drawsAt_eq] at h
  obtain ⟨v, hi, hdraws⟩ := (Option.any_eq_true _ _).mp h
  exact ⟨v, hi, hdraws, (drawsAt_of_eq scale hi).2⟩

/-- Equal samples are equally high. -/
theorem heightAt_congr (scale : FillScale Rat) {i j : Nat} (h : sample i = sample j) :
    scale.heightAt sample i = scale.heightAt sample j := by
  rw [heightAt, heightAt, h]

end FillScale

section

variable (sample : Nat → Option Rat) (width : Rat) (height : Nat → Rat)

/-- The corners of the area below the line of a run. -/
def area (a b : Nat) : List (Point Rat) :=
  ⟨a * width, 0⟩ :: segmentLine sample width height a b ++ [⟨b * width, 0⟩]

/-- Appends the areas of some runs. -/
def areas (path : Path Rat) (runs : List (Nat × Nat)) : Path Rat :=
  runs.foldl (fun path run => (path.through (area sample width height run.1 run.2)).close)
    path

theorem areas_append (path : Path Rat) (runs : List (Nat × Nat)) (a b : Nat) :
    areas sample width height path (runs ++ [(a, b)]) =
      ((areas sample width height path runs).through (area sample width height a b)).close :=
  List.foldl_append

theorem areas_eq_polygons (path : Path Rat) (runs : List (Nat × Nat)) :
    areas sample width height path runs =
      path.polygons (runs.map fun run => area sample width height run.1 run.2) := by
  rw [areas, Path.polygons, List.foldl_map]

theorem commands_areas (path : Path Rat) (runs : List (Nat × Nat)) :
    (areas sample width height path runs).commands.toList = path.commands.toList ++
      runs.flatMap fun run =>
        polygon (corners path.unit (area sample width height run.1 run.2)) := by
  rw [areas_eq_polygons, Path.commands_polygons, List.flatMap_map]

end

namespace Fill

variable {width : Rat} {scale : FillScale Rat} {s : Fill Rat} {x : Option Rat} {v : Rat}

/-! ### One sample -/

theorem next_of_not_drawn (hx : x.any scale.draws = false) (i : Nat) :
    s.next width scale x i =
      ⟨if s.inside then closeDown s.path (i * width) s.height else s.path, false, false, x,
        s.height⟩ := by
  have hnone : x.filter scale.draws = none := by
    cases x with
    | none => rfl
    | some v => exact Option.filter_eq_none_iff.mpr (by simpa using hx)
  rw [next, hnone, ← edge_eq]
  rfl

theorem filter_of_draws (hv : scale.draws v = true) : (some v).filter scale.draws = some v :=
  Option.filter_eq_some_iff.mpr ⟨rfl, hv⟩

/-- A run starts: up from the base line to the height of its first sample. -/
theorem next_enter (hv : scale.draws v = true) (hin : s.inside = false)
    (hlast : s.last ≠ some v) (i : Nat) : s.next width scale (some v) i =
      ⟨(s.path.moveTo (i * width) 0).lineTo (i * width) (scale.height v), true, false, some v,
        scale.height v⟩ := by
  have hchanged : (!(s.last == some v)) = true := by simpa using hlast
  rw [next, filter_of_draws hv]
  dsimp only
  rw [hchanged, hin, ← edge_eq, ← Exact.zero_lit]
  rfl

/-- A run goes on at another height: the centre of the last sample, if it
is due, and its own. -/
theorem next_turn (hv : scale.draws v = true) (hin : s.inside = true)
    (hlast : s.last ≠ some v) (i : Nat) : s.next width scale (some v) (i + 1) =
      ⟨(if s.drawn then s.path else s.path.lineTo ((i + 0.5) * width) s.height).lineTo
        ((↑(i + 1) + 0.5) * width) (scale.height v), true, true, some v, scale.height v⟩ := by
  have hchanged : (!(s.last == some v)) = true := by simpa using hlast
  rw [next, filter_of_draws hv]
  dsimp only
  rw [hchanged, hin, centre_eq_succ_sub]
  rfl

/-- A run goes on at the same height. -/
theorem next_stay (hv : scale.draws v = true) (hin : s.inside = true)
    (hlast : s.last = some v) (i : Nat) :
    s.next width scale (some v) i = ⟨s.path, true, false, some v, s.height⟩ := by
  have hsame : (!(s.last == some v)) = false := by simpa using hlast
  rw [next, filter_of_draws hv]
  dsimp only
  rw [hsame, hin]
  rfl

/-! ### The invariant -/

variable (width scale) (path : Path Rat) (sample : Nat → Option Rat)

/-- The runs in front of the index `n`, and the start of the open one. -/
def runs (n : Nat) : List (Nat × Nat) × Option Nat :=
  walk (scale.drawsAt sample) (fun _ => false) n

/-- The path behind the areas of some runs. -/
def behind (ended : List (Nat × Nat)) : Path Rat :=
  areas sample width (scale.heightAt sample) path ended

/-- What is known of the area of an open run that starts at `a`. -/
def begun (a n : Nat) : List (Point Rat) :=
  [⟨a * width, 0⟩, ⟨a * width, scale.heightAt sample a⟩] ++
    centres sample (centre width (scale.heightAt sample)) a n

/-- The state in front of the sample number `n` has drawn the runs so far, behind `path`. -/
structure Follows (n : Nat) (s : Fill Rat) : Prop where
  last : ∀ m, n = m + 1 → s.last = sample m
  inside : s.inside = s.last.any scale.draws
  closed : ∀ ended, runs scale sample n = (ended, none) →
    s.inside = false ∧ s.path = behind width scale path sample ended
  running : ∀ ended a, runs scale sample n = (ended, some a) → s.inside = true ∧
    s.path = (behind width scale path sample ended).through (begun width scale sample a n) ∧
    s.drawn = turns sample a n (n - 1) ∧ s.height = scale.heightAt sample (n - 1)

variable {width scale path sample} {a n : Nat} {ended : List (Nat × Nat)}

theorem follows_start : Follows width scale path sample 0 (start path scale) := by
  refine ⟨nofun, ?_, ?_, nofun⟩
  · -- the value that stands before the first sample is not drawn
    show false = scale.draws scale.offsetY
    have hirrefl : decide (scale.offsetY < scale.offsetY) = false :=
      decide_eq_false (lt_irrefl _)
    rw [FillScale.draws, hirrefl, Bool.false_and]
  · rintro _ ⟨⟩
    exact ⟨rfl, rfl⟩

theorem closeDown_through (p : Path Rat) (a n : Nat) :
    closeDown (p.through (begun width scale sample a n)) (n * width)
      (scale.heightAt sample (n - 1)) =
      (p.through (area sample width (scale.heightAt sample) a n)).close := by
  have harea : area sample width (scale.heightAt sample) a n = begun width scale sample a n ++
      [⟨n * width, scale.heightAt sample (n - 1)⟩, ⟨n * width, 0⟩] := by
    simp [area, segmentLine, begun]
  have hne : begun width scale sample a n ≠ [] := by simp [begun]
  rw [harea, Path.through_append _ _ _ hne, ← Exact.zero_lit]
  rfl

namespace Follows

theorem outside (h : Follows width scale path sample n s)
    (hw : runs scale sample n = (ended, none)) (hn : scale.drawsAt sample n = false) :
    Follows width scale path sample (n + 1) (s.next width scale (sample n) n) := by
  have hstep : runs scale sample (n + 1) = (ended, none) := walk_outside hw hn
  obtain ⟨hin, hpath⟩ := h.closed ended hw
  rw [scale.drawsAt_eq] at hn
  rw [next_of_not_drawn hn, hin, hpath]
  refine ⟨?_, hn.symm, ?_, ?_⟩
  · rintro _ ⟨⟩
    rfl
  · intro e he
    cases hstep.symm.trans he
    exact ⟨rfl, rfl⟩
  · intro e a he
    cases hstep.symm.trans he

theorem leave (h : Follows width scale path sample n s)
    (hw : runs scale sample n = (ended, some a)) (hn : scale.drawsAt sample n = false) :
    Follows width scale path sample (n + 1) (s.next width scale (sample n) n) := by
  have hstep : runs scale sample (n + 1) = (ended ++ [(a, n)], none) := walk_leave hw hn
  obtain ⟨hin, hpath, _, hheight⟩ := h.running ended a hw
  rw [scale.drawsAt_eq] at hn
  rw [next_of_not_drawn hn, hin, hpath, hheight, if_pos rfl, closeDown_through]
  refine ⟨?_, hn.symm, ?_, ?_⟩
  · rintro _ ⟨⟩
    rfl
  · intro e he
    cases hstep.symm.trans he
    exact ⟨rfl, (areas_append sample width (scale.heightAt sample) path ended a n).symm⟩
  · intro e a he
    cases hstep.symm.trans he

theorem enter (h : Follows width scale path sample n s)
    (hw : runs scale sample n = (ended, none)) (hn : sample n = some v)
    (hv : scale.draws v = true) :
    Follows width scale path sample (n + 1) (s.next width scale (sample n) n) := by
  obtain ⟨hdraws, hheight⟩ := scale.drawsAt_of_eq hn
  have hstep : runs scale sample (n + 1) = (ended, some n) := walk_enter hw (hdraws.trans hv)
  obtain ⟨hin, hpath⟩ := h.closed ended hw
  -- the value before is not drawn, so it is another one
  have hlast : s.last ≠ some v := by
    intro heq
    have hinside := h.inside
    rw [hin, heq, Option.any_some, hv] at hinside
    cases hinside
  rw [hn, next_enter hv hin hlast, hpath]
  refine ⟨?_, hv.symm, ?_, ?_⟩
  · rintro _ ⟨⟩
    exact hn.symm
  · intro e he
    cases hstep.symm.trans he
  · intro e b he
    cases hstep.symm.trans he
    refine ⟨rfl, ?_, (turns_singleton sample).symm, hheight.symm⟩
    rw [begun, centres_singleton, List.append_nil, hheight]
    rfl

theorem stay (h : Follows width scale path sample (n + 1) s)
    (hw : runs scale sample (n + 1) = (ended, some a)) (hn : sample (n + 1) = some v)
    (hv : scale.draws v = true) (heq : sample n = sample (n + 1)) :
    Follows width scale path sample (n + 2)
      (s.next width scale (sample (n + 1)) (n + 1)) := by
  obtain ⟨hdraws, hheight⟩ := scale.drawsAt_of_eq hn
  have hstep : runs scale sample (n + 2) = (ended, some a) :=
    walk_stay hw (hdraws.trans hv) rfl
  have hle : a ≤ n := Nat.le_of_lt_succ (run_of_walk hw).lt
  obtain ⟨hin, hpath, _, hlow⟩ := h.running ended a hw
  have hlast : s.last = some v := (h.last n rfl).trans (heq.trans hn)
  have hcentres := centres_succ sample (centre width (scale.heightAt sample)) hle
  rw [if_pos heq, List.append_nil] at hcentres
  rw [hn, next_stay hv hin hlast, hpath, hlow]
  refine ⟨?_, hv.symm, ?_, ?_⟩
  · rintro _ ⟨⟩
    exact hn.symm
  · intro e he
    cases hstep.symm.trans he
  · intro e b he
    cases hstep.symm.trans he
    refine ⟨rfl, ?_, ?_, ?_⟩
    · rw [begun, begun, hcentres]
    · simp [turns, heq]
    · exact scale.heightAt_congr heq

theorem turn (h : Follows width scale path sample (n + 1) s)
    (hw : runs scale sample (n + 1) = (ended, some a)) (hn : sample (n + 1) = some v)
    (hv : scale.draws v = true) (hne : sample n ≠ sample (n + 1)) :
    Follows width scale path sample (n + 2)
      (s.next width scale (sample (n + 1)) (n + 1)) := by
  obtain ⟨hdraws, hheight⟩ := scale.drawsAt_of_eq hn
  have hstep : runs scale sample (n + 2) = (ended, some a) :=
    walk_stay hw (hdraws.trans hv) rfl
  have hlt := (run_of_walk hw).lt
  obtain ⟨hin, hpath, hdrawn, hlow⟩ := h.running ended a hw
  have hlast : s.last ≠ some v := h.last n rfl ▸ hn ▸ hne
  have hcentres := Path.through_centres (behind width scale path sample ended)
    [⟨a * width, 0⟩, ⟨a * width, scale.heightAt sample a⟩] sample
    (centre width (scale.heightAt sample)) (by simp) (Nat.le_of_lt_succ hlt) hne
  rw [hn, next_turn hv hin hlast, hpath, hdrawn, hlow, ← hheight]
  refine ⟨?_, hv.symm, ?_, ?_⟩
  · rintro _ ⟨⟩
    exact hn.symm
  · intro e he
    cases hstep.symm.trans he
  · intro e b he
    cases hstep.symm.trans he
    refine ⟨rfl, hcentres, ?_, rfl⟩
    simp [turns, hne, hlt]

/-- **Every sample keeps it up.** -/
theorem next (h : Follows width scale path sample n s) :
    Follows width scale path sample (n + 1) (s.next width scale (sample n) n) := by
  rcases hw : runs scale sample n with ⟨ended, _ | a⟩
  · cases hn : scale.drawsAt sample n with
    | false => exact h.outside hw hn
    | true =>
      obtain ⟨v, hv, hdraws, _⟩ := FillScale.exists_of_drawsAt hn
      exact h.enter hw hv hdraws
  · cases hn : scale.drawsAt sample n with
    | false => exact h.leave hw hn
    | true =>
      obtain ⟨v, hv, hdraws, _⟩ := FillScale.exists_of_drawsAt hn
      have hlt := (run_of_walk hw).lt
      obtain ⟨m, rfl⟩ : ∃ m, n = m + 1 := ⟨n - 1, by omega⟩
      by_cases heq : sample m = sample (m + 1)
      · exact h.stay hw hv hdraws heq
      · exact h.turn hw hv hdraws heq

/-- Behind the last sample an open run ends. -/
theorem finish (h : Follows width scale path sample n s) : s.finish width n =
    areas sample width (scale.heightAt sample) path
      (segments (scale.drawsAt sample) (fun _ => false) n) := by
  rcases hw : runs scale sample n with ⟨ended, _ | a⟩
  · obtain ⟨hin, hpath⟩ := h.closed ended hw
    rw [Fill.finish, hin, hpath, segments, ← runs, hw]
    simp [behind]
  · obtain ⟨hin, hpath, _, hlow⟩ := h.running ended a hw
    rw [Fill.finish, hin, hpath, hlow, if_pos rfl, segments, ← runs, hw]
    exact (closeDown_through _ a n).trans
      (areas_append sample width (scale.heightAt sample) path ended a n).symm

end Follows

end Fill

/-! ### All samples -/

/-- **A fill appends the areas of the runs.** -/
theorem fill_eq_areas (path : Path Rat) (series : CarrierSeries Rat) (scale : FillScale Rat) :
    fill path series scale = areas (sampleAt series.samples) (groupWidth series.groupSize)
      (scale.heightAt (sampleAt series.samples)) path
      (segments (scale.drawsAt (sampleAt series.samples)) (fun _ => false)
        series.samples.length) := by
  have hstart :
    Fill.Follows (groupWidth series.groupSize) scale path (sampleAt series.samples) 0
    (Fill.start path scale) := Fill.follows_start
  refine Fill.Follows.finish (foldl_zipIdx series.samples hstart fun i hi s hs => ?_)
  exact sampleAt_of_lt hi ▸ hs.next

/-- **A fill appends one polygon for each run**, whatever the path holds: a run is a maximal
segment of samples that are drawn, its polygon has the corners of the area below the run, and
the upper edge of this is the line through all centres of the run. -/
theorem commands_fill (path : Path Rat) (series : CarrierSeries Rat) (scale : FillScale Rat) :
    let sample := sampleAt series.samples
    let width : Rat := (max series.groupSize 1 : Nat)
    let height := scale.heightAt sample
    let runs := segments (scale.drawsAt sample) (fun _ => false) series.samples.length
    (∀ a b, (a, b) ∈ runs ↔
      IsMaximal (scale.drawsAt sample) (fun _ => false) series.samples.length a b) ∧
    runs.Pairwise (fun r s => r.2 ≤ s.1) ∧
    (fill path series scale).commands.toList = path.commands.toList ++
      runs.flatMap
        (fun run => polygon (corners path.unit (area sample width height run.1 run.2))) ∧
    ∀ a b, (a, b) ∈ runs → ∀ p,
      OnPolyline (corners path.unit (segmentLine sample width height a b)) p ↔
        OnPolyline ((centreLine width height a b).map (Point.round path.unit)) p := by
  intro sample width height runs
  refine ⟨fun a b => mem_segments, pairwise_segments, ?_, ?_⟩
  · rw [fill_eq_areas]
    exact commands_areas sample width height path runs
  · intro a b hrun
    exact onPolyline_segmentLine (Nat.cast_nonneg _) (fun i j => scale.heightAt_congr)
      path.unit (mem_segments.mp hrun).lt

/-- A plateau in front of a gap, a sample that is cut off at `maxY` and one outside the
window: a fill with two runs. -/
theorem commands_fill_runs :
    let samples : List (Option Rat) := [some 10, some 10, none, some 30, some 5, some 50]
    let scale : FillScale Rat := ⟨2, 0, 20, 1, 40⟩
    let path : Path Rat := (Path.withPrecision 1).lineTo 3 4
    IsMaximal (scale.drawsAt (sampleAt samples)) (fun _ => false) 6 3 5 ∧
    (fill path ⟨2, samples⟩ scale).commands.toList = .lineTo ⟨3, 4⟩ ::
      (polygon [⟨0, 0⟩, ⟨0, 20⟩, ⟨4, 20⟩, ⟨4, 0⟩] ++
        polygon [⟨6, 0⟩, ⟨6, 40⟩, ⟨7, 40⟩, ⟨9, 10⟩, ⟨10, 10⟩, ⟨10, 0⟩]) := by
  intro samples scale path
  obtain ⟨hruns, _, hcommands, _⟩ := commands_fill path ⟨2, samples⟩ scale
  refine ⟨(hruns 3 5).mp (by decide +kernel), ?_⟩
  rw [hcommands]
  decide +kernel

/-! ### Heights -/

@[simp] theorem unit_fill (path : Path Rat) (series : CarrierSeries Rat)
    (scale : FillScale Rat) :
    (fill path series scale).unit = path.unit := by
  rw [fill_eq_areas, areas_eq_polygons, Path.unit_polygons]

/-- A fill leaves the polygons before it where they are. -/
theorem TopsAt.fill {path : Path Rat} {p : Point Rat} (h : TopsAt path p)
    (series : CarrierSeries Rat) (scale : FillScale Rat) :
    TopsAt (fill path series scale) p := by
  rw [fill_eq_areas, areas_eq_polygons]
  exact h.polygons _

/-- **The upper edge goes through the centre of each group that is drawn**, at its height. -/
theorem topsAt_fill (path : Path Rat) {digits : Nat} (hpath : path.unit = 10 ^ (digits + 1))
    (series : CarrierSeries Rat) (scale : FillScale Rat) {i : Nat} {v : Rat}
    (hi : sampleAt series.samples i = some v) (hv : scale.draws v = true) :
    TopsAt (fill path series scale)
      ⟨(i + 0.5) * (max series.groupSize 1 : Nat),
        Path.roundTo path.unit (scale.height v)⟩ := by
  obtain ⟨hdraws, hheight⟩ := scale.drawsAt_of_eq hi
  obtain ⟨a, b, hrun, hai, hib⟩ :=
    @exists_mem_segments _ (fun _ => false) _ _ (lt_of_sampleAt hi) (hdraws.trans hv)
  rw [fill_eq_areas, areas_eq_polygons]
  refine topsAt_polygons (List.mem_map_of_mem hrun) ?_
  -- the centre of the group is one of those that the upper edge goes through
  refine (onPolyline_segmentLine (Nat.cast_nonneg _) (fun i j => scale.heightAt_congr) _
    (hai.trans_lt hib) _).mpr (onPolyline_of_mem ?_)
  · have hcentre : Point.round path.unit
        (centre (max series.groupSize 1 : Nat) (scale.heightAt (sampleAt series.samples)) i) =
          ⟨(i + 0.5) * (max series.groupSize 1 : Nat),
            Path.roundTo path.unit (scale.height v)⟩ := by
      rw [Point.round, centre, hpath,
        Path.roundTo_of_mem_halves digits (centre_mem_halves _ i), hheight]
    rw [← hcentre]
    refine List.mem_map_of_mem (List.mem_append_left _ (List.mem_cons_of_mem _ ?_))
    refine List.mem_map_of_mem (List.mem_range'.mpr ⟨i - a, ?_, ?_⟩) <;> omega

end LineCharts.Trace
