/-
Stroked traces are the lines of segments.

* `Trace.StrokePlan` — what a trace is to draw: which samples, how high, and where it is cut;
* `Trace.Stroke.Follows` — the state between two samples has drawn the segments so far: the
  lines of those that have ended, and of the open one as much as is known to turn;
* `Trace.Stroke.Follows.next` — a sample keeps this up, if it is drawn as the plan says;
* `Trace.Draws` — one path is another with the line of each segment behind
  it, and no line is empty;
* `Trace.draws_hlog`, `Trace.draws_counts`, `Trace.draws_extremes` — a trace of
  each kind draws its plan;
* `Trace.draws_traces` — all of them, whatever the paths hold.

Design notes.  A sample is compared with the one before it, drawn or not; where a segment
starts, its height is taken over even if both are equal.
-/
import LineCharts.Proofs.Geometry.Rounding
import LineCharts.Proofs.Trace.Outline
import LineCharts.Trace.Stroke

namespace LineCharts.Trace

/-! ### Lines of segments -/

section

variable (sample : Nat → Option Rat) (width : Rat) (height : Nat → Rat)

/-- Appends the lines of some segments. -/
def lines (path : Path Rat) (segments : List (Nat × Nat)) : Path Rat :=
  segments.foldl (fun path s => path.through (segmentLine sample width height s.1 s.2)) path

theorem lines_append (path : Path Rat) (segments : List (Nat × Nat)) (a b : Nat) :
    lines sample width height path (segments ++ [(a, b)]) =
      (lines sample width height path segments).through
        (segmentLine sample width height a b) :=
  List.foldl_append

theorem lines_eq_foldl (path : Path Rat) (segments : List (Nat × Nat)) :
    lines sample width height path segments =
      (segments.map fun s => segmentLine sample width height s.1 s.2).foldl
        Path.through path :=
  List.foldl_map.symm

theorem commands_lines (path : Path Rat) (segments : List (Nat × Nat)) :
    (lines sample width height path segments).commands.toList = path.commands.toList ++
      segments.flatMap fun s =>
        openLine (corners path.unit (segmentLine sample width height s.1 s.2)) := by
  rw [lines_eq_foldl, Path.commands_foldl_through, List.flatMap_map]

end

namespace Stroke

variable {s : Stroke Rat} {x : Option Rat} {y : Rat}

/-! ### One sample -/

theorem next_none (x : Option Rat) (i : Nat) : s.next x none false i =
    { s with
      path := if s.inside then s.path.lineTo (i * s.width) (s.height * s.postScaleY)
        else s.path
      inside := false
      drawn := false
      last := x } := by
  rw [next, ← edge_eq]
  cases s.inside <;> rfl

theorem next_enter (hin : s.inside = false) (i : Nat) : s.next x (some y) false i =
    { s with
      path := s.path.moveTo (i * s.width) (y * s.postScaleY)
      inside := true
      drawn := false
      last := x
      height := y } := by
  rw [next, hin, ← edge_eq]
  cases s.last == x <;> rfl

theorem next_break (hin : s.inside = true) (i : Nat) : s.next x (some y) true i =
    { s with
      path := (s.path.lineTo (i * s.width) (s.height * s.postScaleY)).moveTo (i * s.width)
        (y * s.postScaleY)
      inside := true
      drawn := false
      last := x
      height := y } := by
  rw [next, hin, ← edge_eq]
  cases s.last == x <;> rfl

theorem next_turn (hin : s.inside = true) (hlast : s.last ≠ x) (i : Nat) :
    s.next x (some y) false (i + 1) =
      { s with
        path := (if s.drawn then s.path
          else s.path.lineTo ((i + 0.5) * s.width) (s.height * s.postScaleY)).lineTo
            ((↑(i + 1) + 0.5) * s.width) (y * s.postScaleY)
        inside := true
        drawn := true
        last := x
        height := y } := by
  have hchanged : (s.last == x) = false := by simpa using hlast
  rw [next, hchanged, hin, centre_eq_succ_sub]
  rfl

theorem next_stay (hin : s.inside = true) (hlast : s.last = x) (i : Nat) :
    s.next x (some y) false i = { s with inside := true, drawn := false, last := x } := by
  have hsame : (s.last == x) = true := by simpa using hlast
  rw [next, hsame, hin]
  rfl

end Stroke

/-! ### The invariant -/

/-- What a trace is to draw: which samples, how high, and in front of which of them it is cut.
The height of a sample is that of every equal sample. -/
structure StrokePlan where
  sample : Nat → Option Rat
  drawn : Nat → Bool
  cut : Nat → Bool
  height : Nat → Rat
  height_congr : ∀ i j, sample i = sample j → height i = height j

namespace Stroke

variable (plan : StrokePlan) (width post : Rat) (path : Path Rat)

/-- The path behind the lines of some segments. -/
def behind (ended : List (Nat × Nat)) : Path Rat :=
  lines plan.sample width (fun i => plan.height i * post) path ended

/-- What is known of the line of an open segment that starts at `a`. -/
def begun (a n : Nat) : List (Point Rat) :=
  [⟨a * width, plan.height a * post⟩] ++
    centres plan.sample (centre width fun i => plan.height i * post) a n

/-- The state in front of the sample number `n` has drawn the segments so
far, behind `path`. -/
structure Follows (n : Nat) (s : Stroke Rat) : Prop where
  width_eq : s.width = width
  post_eq : s.postScaleY = post
  last : ∀ m, n = m + 1 → s.last = plan.sample m
  closed : ∀ ended, walk plan.drawn plan.cut n = (ended, none) →
    s.inside = false ∧ s.path = behind plan width post path ended
  running : ∀ ended a, walk plan.drawn plan.cut n = (ended, some a) → s.inside = true ∧
    s.path = (behind plan width post path ended).through (begun plan width post a n) ∧
    s.drawn = turns plan.sample a n (n - 1) ∧ s.height = plan.height (n - 1)

variable {plan width post path} {s : Stroke Rat} {a n : Nat} {ended : List (Nat × Nat)}

theorem follows_start (last : Option Rat) :
    Follows plan width post path 0 (start path width post last) := by
  refine ⟨rfl, rfl, nofun, ?_, nofun⟩
  rintro _ ⟨⟩
  exact ⟨rfl, rfl⟩

theorem lineTo_through (p : Path Rat) (a n : Nat) :
    (p.through (begun plan width post a n)).lineTo (n * width) (plan.height (n - 1) * post) =
      p.through (segmentLine plan.sample width (fun i => plan.height i * post) a n) := by
  have hne : begun plan width post a n ≠ [] := by simp [begun]
  exact (Path.through_append p _ [⟨n * width, plan.height (n - 1) * post⟩] hne).symm

namespace Follows

theorem outside (h : Follows plan width post path n s)
    (hw : walk plan.drawn plan.cut n = (ended, none)) (hn : plan.drawn n = false) :
    Follows plan width post path (n + 1) (s.next (plan.sample n) none false n) := by
  obtain ⟨hin, hpath⟩ := h.closed ended hw
  rw [next_none, hin]
  refine ⟨h.width_eq, h.post_eq, ?_, ?_, ?_⟩
  · rintro _ ⟨⟩
    rfl
  · intro e he
    cases (walk_outside hw hn).symm.trans he
    exact ⟨rfl, hpath⟩
  · intro e b he
    cases (walk_outside hw hn).symm.trans he

theorem leave (h : Follows plan width post path n s)
    (hw : walk plan.drawn plan.cut n = (ended, some a)) (hn : plan.drawn n = false) :
    Follows plan width post path (n + 1) (s.next (plan.sample n) none false n) := by
  obtain ⟨hin, hpath, _, hheight⟩ := h.running ended a hw
  rw [next_none, hin, hpath, hheight, h.width_eq, h.post_eq, if_pos rfl, lineTo_through]
  refine ⟨rfl, rfl, ?_, ?_, ?_⟩
  · rintro _ ⟨⟩
    rfl
  · intro e he
    cases (walk_leave hw hn).symm.trans he
    exact ⟨rfl, (lines_append plan.sample width _ path ended a n).symm⟩
  · intro e b he
    cases (walk_leave hw hn).symm.trans he

theorem enter (h : Follows plan width post path n s)
    (hw : walk plan.drawn plan.cut n = (ended, none)) (hn : plan.drawn n = true) :
    Follows plan width post path (n + 1)
      (s.next (plan.sample n) (some (plan.height n)) false n) := by
  obtain ⟨hin, hpath⟩ := h.closed ended hw
  rw [next_enter hin, hpath, h.width_eq, h.post_eq]
  refine ⟨rfl, rfl, ?_, ?_, ?_⟩
  · rintro _ ⟨⟩
    rfl
  · intro e he
    cases (walk_enter hw hn).symm.trans he
  · intro e b he
    cases (walk_enter hw hn).symm.trans he
    refine ⟨rfl, ?_, (turns_singleton plan.sample).symm, rfl⟩
    rw [begun, centres_singleton]
    rfl

/-- A segment ends and the next one starts. -/
theorem restart (h : Follows plan width post path n s)
    (hw : walk plan.drawn plan.cut n = (ended, some a)) (hn : plan.drawn n = true)
    (hcut : plan.cut n = true) : Follows plan width post path (n + 1)
      (s.next (plan.sample n) (some (plan.height n)) true n) := by
  obtain ⟨hin, hpath, _, hheight⟩ := h.running ended a hw
  rw [next_break hin, hpath, hheight, h.width_eq, h.post_eq, lineTo_through]
  refine ⟨rfl, rfl, ?_, ?_, ?_⟩
  · rintro _ ⟨⟩
    rfl
  · intro e he
    cases (walk_cut hw hn hcut).symm.trans he
  · intro e b he
    cases (walk_cut hw hn hcut).symm.trans he
    refine ⟨rfl, ?_, (turns_singleton plan.sample).symm, rfl⟩
    have hended :=
      lines_append plan.sample width (fun i => plan.height i * post) path ended a n
    rw [begun, centres_singleton, behind, behind, hended]
    rfl

theorem stay (h : Follows plan width post path (n + 1) s)
    (hw : walk plan.drawn plan.cut (n + 1) = (ended, some a)) (hn : plan.drawn (n + 1) = true)
    (hcut : plan.cut (n + 1) = false) (heq : plan.sample n = plan.sample (n + 1)) :
    Follows plan width post path (n + 2)
      (s.next (plan.sample (n + 1)) (some (plan.height (n + 1))) false (n + 1)) := by
  obtain ⟨hin, hpath, _, hlow⟩ := h.running ended a hw
  have hcentres := centres_succ plan.sample (centre width fun i => plan.height i * post)
    (Nat.le_of_lt_succ (run_of_walk hw).lt)
  rw [if_pos heq, List.append_nil] at hcentres
  rw [next_stay hin ((h.last n rfl).trans heq), hpath, hlow]
  refine ⟨h.width_eq, h.post_eq, ?_, ?_, ?_⟩
  · rintro _ ⟨⟩
    rfl
  · intro e he
    cases (walk_stay hw hn hcut).symm.trans he
  · intro e b he
    cases (walk_stay hw hn hcut).symm.trans he
    refine ⟨rfl, ?_, ?_, plan.height_congr _ _ heq⟩
    · rw [begun, begun, hcentres]
    · simp [turns, heq]

theorem turn (h : Follows plan width post path (n + 1) s)
    (hw : walk plan.drawn plan.cut (n + 1) = (ended, some a)) (hn : plan.drawn (n + 1) = true)
    (hcut : plan.cut (n + 1) = false) (hne : plan.sample n ≠ plan.sample (n + 1)) :
    Follows plan width post path (n + 2)
      (s.next (plan.sample (n + 1)) (some (plan.height (n + 1))) false (n + 1)) := by
  obtain ⟨hin, hpath, hdrawn, hlow⟩ := h.running ended a hw
  have hlt := (run_of_walk hw).lt
  have hcentres := Path.through_centres (behind plan width post path ended)
    [⟨a * width, plan.height a * post⟩] plan.sample
      (centre width fun i => plan.height i * post)
    (by simp) (Nat.le_of_lt_succ hlt) hne
  rw [next_turn hin ((h.last n rfl).trans_ne hne), hpath, hdrawn, hlow, h.width_eq, h.post_eq]
  refine ⟨rfl, rfl, ?_, ?_, ?_⟩
  · rintro _ ⟨⟩
    rfl
  · intro e he
    cases (walk_stay hw hn hcut).symm.trans he
  · intro e b he
    cases (walk_stay hw hn hcut).symm.trans he
    refine ⟨rfl, hcentres, ?_, rfl⟩
    simp [turns, hne, hlt]

/-- **Every sample keeps it up**, if it is drawn as the plan says. -/
theorem next (h : Follows plan width post path n s) {y? : Option Rat} {breaks : Bool}
    (hy : y? = if plan.drawn n then some (plan.height n) else none)
    (hbreaks : breaks = (s.inside && plan.drawn n && plan.cut n)) :
    Follows plan width post path (n + 1) (s.next (plan.sample n) y? breaks n) := by
  subst hy hbreaks
  rcases hw : walk plan.drawn plan.cut n with ⟨ended, _ | a⟩
  · rw [(h.closed ended hw).1]
    cases hn : plan.drawn n with
    | false => exact h.outside hw hn
    | true => exact h.enter hw hn
  · rw [(h.running ended a hw).1]
    -- an open segment is not empty, so there is a sample before
    have hlt := (run_of_walk hw).lt
    obtain ⟨m, rfl⟩ : ∃ m, n = m + 1 := ⟨n - 1, by omega⟩
    cases hn : plan.drawn (m + 1) with
    | false => exact h.leave hw hn
    | true =>
      cases hcut : plan.cut (m + 1) with
      | true => exact h.restart hw hn hcut
      | false =>
        by_cases heq : plan.sample m = plan.sample (m + 1)
        · exact h.stay hw hn hcut heq
        · exact h.turn hw hn hcut heq

theorem pos_of_inside (h : Follows plan width post path n s) (hin : s.inside = true) :
    0 < n := by
  rcases hw : walk plan.drawn plan.cut n with ⟨ended, _ | a⟩
  · rw [(h.closed ended hw).1] at hin
    cases hin
  · exact Nat.zero_lt_of_lt (run_of_walk hw).lt

/-- Behind the last sample an open segment is drawn to its end. -/
theorem finish (h : Follows plan width post path n s) : s.finish n =
    lines plan.sample width (fun i => plan.height i * post) path
      (segments plan.drawn plan.cut n) := by
  rcases hw : walk plan.drawn plan.cut n with ⟨ended, _ | a⟩
  · obtain ⟨hin, hpath⟩ := h.closed ended hw
    rw [Stroke.finish, hin, hpath, segments, hw]
    simp [behind]
  · obtain ⟨hin, hpath, _, hlow⟩ := h.running ended a hw
    rw [Stroke.finish, hin, hpath, hlow, h.width_eq, h.post_eq, if_pos rfl, segments, hw]
    exact (lineTo_through _ a n).trans (lines_append plan.sample width _ path ended a n).symm

end Follows

end Stroke

/-! ### Plans of the traces -/

namespace StrokePlan

/-- A channel characteristic is drawn within its window, and cut between two samples that
differ by 10 or more. -/
def hlog (samples : List (Option Rat)) (scale : StrokeScale Rat) : StrokePlan where
  sample := sampleAt samples
  drawn i := (sampleAt samples i).any fun v => -96.2 ≤ v && v ≤ 6
  cut i := match sampleAt samples (i - 1), sampleAt samples i with
    | some u, some v => decide (10 ≤ |v - u|)
    | _, _ => false
  height i :=
    max (min scale.maxY ((sampleAt samples i).getD 0) - scale.offsetY) 0 * scale.scaleY - 0.5
  height_congr i j h := by rw [h]

/-- A counter is drawn where it has a sample. -/
def counts (samples : List (Option Nat)) (scaleY maxY : Rat) : StrokePlan where
  sample i := (samples.getD i none).map fun n : Nat => (n : Rat)
  drawn i := (samples.getD i none).isSome
  cut _ := false
  height i :=
    min maxY (((samples.getD i none).map fun n : Nat => (n : Rat)).getD 0) * scaleY - 0.5
  height_congr i j h := by rw [h]

/-- An extreme is drawn where it has a sample and this, or the other
extreme, can be measured. -/
def extremes (own other : List (Option Rat)) (scale : StrokeScale Rat) : StrokePlan where
  sample := sampleAt own
  drawn i := (sampleAt own i).isSome &&
    [own, other].any fun samples => (sampleAt samples i).any fun v => -32 ≤ v && v ≤ 95
  cut _ := false
  height i :=
    max ((min scale.maxY ((sampleAt own i).getD 0) - scale.offsetY) * scale.scaleY - 0.5) 0
  height_congr i j h := by rw [h]

end StrokePlan

/-- One path is another one with the line of each segment of a plan behind it, from left to
right.  No line is empty: behind the move there is a line. -/
structure Draws (plan : StrokePlan) (count : Nat) (width post : Rat) (path path' : Path Rat) :
    Prop where
  maximal : ∀ a b, (a, b) ∈ segments plan.drawn plan.cut count ↔
    IsMaximal plan.drawn plan.cut count a b
  ordered : (segments plan.drawn plan.cut count).Pairwise fun s t => s.2 ≤ t.1
  commands : path'.commands.toList = path.commands.toList ++
    (segments plan.drawn plan.cut count).flatMap fun s =>
      openLine (corners path.unit
        (segmentLine plan.sample width (fun i => plan.height i * post) s.1 s.2))
  lines : ∀ a b, (a, b) ∈ segments plan.drawn plan.cut count → ∃ p q ps,
    corners path.unit (segmentLine plan.sample width (fun i => plan.height i * post) a b) =
      p :: q :: ps

/-! ### No line is empty -/

theorem eq_of_destutter' {p : Point Rat} {ps : List (Point Rat)}
    (h : ps.destutter' (· ≠ ·) p = [p]) : ∀ q ∈ ps, q = p := by
  induction ps with
  | nil => nofun
  | cons r ps ih =>
    by_cases hpr : p = r
    · subst hpr
      rw [List.destutter'_cons_neg _ (not_not.mpr rfl)] at h
      intro q hq
      rcases List.mem_cons.mp hq with rfl | hmem
      · rfl
      · exact ih h q hmem
    · rw [List.destutter'_cons_pos _ hpr] at h
      exact absurd (List.cons.inj h).2 (List.destutter'_ne_nil _ _)

theorem exists_corners {unit : Rat} {p q : Point Rat} {ps : List (Point Rat)} (hq : q ∈ ps)
    (hne : q.round unit ≠ p.round unit) :
    ∃ r s rs, corners unit (p :: ps) = r :: s :: rs := by
  have hcorners : corners unit (p :: ps) =
      p.round unit :: (corners unit (p :: ps)).tail := destutter'_eq_cons _ _
  cases htail : (corners unit (p :: ps)).tail with
  | nil =>
    rw [htail] at hcorners
    exact absurd (eq_of_destutter' hcorners _ (List.mem_map_of_mem hq)) hne
  | cons s rs =>
    rw [htail] at hcorners
    exact ⟨_, s, rs, hcorners⟩

/-- **Both ends of a segment stay apart** when they are rounded. -/
theorem exists_corners_segmentLine {digits width : Nat} (hwidth : 1 ≤ width)
    (sample : Nat → Option Rat) (height : Nat → Rat) {a b : Nat} (hab : a < b) :
    ∃ p q ps, corners (10 ^ digits) (segmentLine sample width height a b) = p :: q :: ps := by
  refine exists_corners (q := ⟨b * width, height (b - 1)⟩) (by simp) ?_
  -- the edges of groups are whole numbers, which rounding keeps
  intro heq
  have hx := congrArg Point.x heq
  rw [Point.round, Point.round] at hx
  dsimp only at hx
  rw [← Nat.cast_mul, ← Nat.cast_mul, Path.roundTo_natCast, Path.roundTo_natCast,
    Nat.cast_inj] at hx
  exact absurd (Nat.eq_of_mul_eq_mul_right hwidth hx) (Nat.ne_of_gt hab)

theorem draws_of_eq_lines {plan : StrokePlan} {count digits group : Nat} {width post : Rat}
    {path path' : Path Rat} (hpath : path.unit = 10 ^ digits) (hwidth : width = group)
    (hgroup : 1 ≤ group)
    (h : path' = lines plan.sample width (fun i => plan.height i * post) path
      (segments plan.drawn plan.cut count)) : Draws plan count width post path path' := by
  refine ⟨fun a b => mem_segments, pairwise_segments, ?_, ?_⟩
  · rw [h, commands_lines]
  · intro a b hab
    rw [hpath, hwidth]
    exact exists_corners_segmentLine hgroup _ _ (mem_segments.mp hab).lt

/-! ### All traces -/

theorem within_hlog (v : Rat) :
    Scalar.within hlogValidMin hlogValidMax v = (decide (-96.2 ≤ v) && decide (v ≤ 6)) := by
  have htop : (hlogValidMax : Rat) = 6 := by
    show (6.0 : Rat) = 6
    norm_num
  rw [Scalar.within, htop]
  rfl

theorem hlogJump_eq : (hlogJump : Rat) = 10 := by
  show (10.0 : Rat) = 10
  norm_num

/-- One sample of a channel characteristic. -/
theorem Stroke.Follows.nextHlog {samples : List (Option Rat)} {scale : StrokeScale Rat}
    {width post : Rat} {path : Path Rat} {n : Nat} {s : Stroke Rat}
    (h : Stroke.Follows (.hlog samples scale) width post path n s) :
    Stroke.Follows (.hlog samples scale) width post path (n + 1)
      (Trace.nextHlog scale s (sampleAt samples n) n) := by
  refine h.next ?_ ?_
  · show ((sampleAt samples n).filter _).map _ = if (sampleAt samples n).any _ = true then
      some (max (min scale.maxY ((sampleAt samples n).getD 0) - scale.offsetY) 0 *
        scale.scaleY - 0.5)
      else none
    cases sampleAt samples n with
    | none => rfl
    | some v =>
      rw [Option.filter_some, within_hlog, Option.any_some, Option.getD_some]
      split
      · rw [Option.map_some, ← Exact.zero_lit]
      · rfl
  · cases hin : s.inside with
    | false => rfl
    | true =>
      -- the jump is measured from the sample before, which the state holds
      -- whether drawn or not
      obtain ⟨m, rfl⟩ : ∃ m, n = m + 1 := ⟨n - 1, by have := h.pos_of_inside hin; omega⟩
      have hlast : s.last = sampleAt samples m := h.last m rfl
      rw [hlast]
      show _ = (true && (sampleAt samples (m + 1)).any _ &&
        match sampleAt samples m, sampleAt samples (m + 1) with
        | some u, some v => decide (10 ≤ |v - u|)
        | _, _ => false)
      cases sampleAt samples m with
      | none => cases sampleAt samples (m + 1) <;> simp
      | some u =>
        cases sampleAt samples (m + 1) with
        | none => rfl
        | some v =>
          rw [Option.filter_some, within_hlog, Option.any_some]
          cases decide (-96.2 ≤ v) && decide (v ≤ 6) with
          | false => rfl
          | true =>
            show decide (hlogJump ≤ Scalar.abs (v - u)) = _
            rw [hlogJump_eq, Scalar.abs_eq]
            rfl

/-- One sample of a counter. -/
theorem Stroke.Follows.nextCount {samples : List (Option Nat)} {scaleY maxY width post : Rat}
    {path : Path Rat} {n : Nat} {s : Stroke Rat}
    (h : Stroke.Follows (.counts samples scaleY maxY) width post path n s) :
    Stroke.Follows (.counts samples scaleY maxY) width post path (n + 1)
      (Trace.nextCount scaleY maxY s (samples.getD n none) n) := by
  refine h.next ?_ ?_
  · show ((samples.getD n none).map _).map _ = if (samples.getD n none).isSome = true then
      some (min maxY (((samples.getD n none).map _).getD 0) * scaleY - 0.5) else none
    cases samples.getD n none <;> rfl
  · exact (Bool.and_false _).symm

theorem length_pairUp (as bs : List (Option Rat)) : (pairUp as bs).length = as.length := by
  induction as generalizing bs with
  | nil => rfl
  | cons a as ih => cases bs <;> exact congrArg (· + 1) (ih _)

theorem getElem_pairUp {as bs : List (Option Rat)} {i : Nat} (h : i < (pairUp as bs).length) :
    (pairUp as bs)[i] = (sampleAt as i, sampleAt bs i) := by
  induction as generalizing bs i with
  | nil => exact absurd h (Nat.not_lt_zero i)
  | cons a as ih =>
    cases bs with
    | nil =>
      cases i with
      | zero => rfl
      | succ i => exact ih (Nat.lt_of_succ_lt_succ h)
    | cons b bs =>
      cases i with
      | zero => rfl
      | succ i => exact ih (Nat.lt_of_succ_lt_succ h)

theorem measurable_eq (x : Option Rat) :
    measurable x = x.any fun v => decide (-32 ≤ v) && decide (v ≤ 95) := by
  have hlow : (snrValidMin : Rat) = -32 := by
    show (-32.0 : Rat) = -32
    norm_num
  have htop : (snrValidMax : Rat) = 95 := by
    show (95.0 : Rat) = 95
    norm_num
  rw [measurable, hlow, htop]
  rfl

/-- One sample of an extreme. -/
theorem Stroke.Follows.nextExtreme {own other : List (Option Rat)} {scale : StrokeScale Rat}
    {width post : Rat} {path : Path Rat} {n : Nat} {s : Stroke Rat}
    (h : Stroke.Follows (.extremes own other scale) width post path n s) {drawn : Bool}
    (hdrawn : drawn = (measurable (sampleAt own n) || measurable (sampleAt other n))) :
    Stroke.Follows (.extremes own other scale) width post path (n + 1)
      (s.next (sampleAt own n)
        (((sampleAt own n).filter fun _ => drawn).map (extremeHeight scale)) false n) := by
  refine h.next ?_ ?_
  · rw [hdrawn]
    show _ = if ((sampleAt own n).isSome &&
      ((sampleAt own n).any _ || ((sampleAt other n).any _ || false))) = true then
        some (max ((min scale.maxY ((sampleAt own n).getD 0) - scale.offsetY) *
          scale.scaleY - 0.5) 0)
      else none
    rw [Bool.or_false, ← measurable_eq, ← measurable_eq]
    cases sampleAt own n with
    | none => rfl
    | some v =>
      rw [Option.filter_some, Option.isSome_some, Bool.true_and, Option.getD_some]
      split
      · rw [Option.map_some, ← Exact.zero_lit]
        rfl
      · rfl
  · exact (Bool.and_false _).symm

/-- Appends the lines of a plan. -/
def StrokePlan.draw (plan : StrokePlan) (count : Nat) (width post : Rat) (path : Path Rat) :
    Path Rat :=
  lines plan.sample width (fun i => plan.height i * post) path
    (segments plan.drawn plan.cut count)

theorem hlog_eq_lines (path : Path Rat) (series : CarrierSeries Rat)
    (scale : StrokeScale Rat) :
    hlog path series scale = (StrokePlan.hlog series.samples scale).draw series.samples.length
      (max series.groupSize 1 : Nat) scale.postScaleY path := by
  refine Stroke.Follows.finish ?_
  refine foldl_zipIdx series.samples (Stroke.follows_start (some hlogInitial))
    fun i hi s hs => ?_
  exact sampleAt_of_lt hi ▸ hs.nextHlog

theorem counts_eq_lines (path : Path Rat) (samples : List (Option Nat))
    (scaleY maxY post : Rat) :
    counts path samples scaleY maxY post =
      (StrokePlan.counts samples scaleY maxY).draw samples.length 1 post path := by
  refine Stroke.Follows.finish ?_
  refine foldl_zipIdx samples (Exact.one_lit ▸ Stroke.follows_start none) fun i hi s hs => ?_
  have hsample : samples.getD i none = samples[i] := by
    rw [List.getD_eq_getElem?_getD, List.getElem?_eq_getElem hi, Option.getD_some]
  exact hsample ▸ hs.nextCount

theorem extremes_eq_lines (path highPath : Path Rat) (series : Extremes Rat)
    (scale : StrokeScale Rat) :
    (extremes path highPath series scale).1 =
        (StrokePlan.extremes series.least series.greatest scale).draw series.least.length
          (max series.groupSize 1 : Nat) scale.postScaleY path ∧
      (extremes path highPath series scale).2 =
        (StrokePlan.extremes series.greatest series.least scale).draw series.least.length
          (max series.groupSize 1 : Nat) scale.postScaleY highPath := by
  have hlength := length_pairUp series.least series.greatest
  let start (p : Path Rat) : Stroke Rat :=
    .start p (groupWidth series.groupSize) scale.postScaleY (some 0.0)
  let holds (n : Nat) (s : Stroke Rat × Stroke Rat) : Prop :=
    Stroke.Follows (.extremes series.least series.greatest scale)
        (groupWidth series.groupSize) scale.postScaleY path n s.1 ∧
      Stroke.Follows (.extremes series.greatest series.least scale)
        (groupWidth series.groupSize) scale.postScaleY highPath n s.2
  have hall := @foldl_zipIdx _ _ holds (fun s p => nextExtremes scale s.1 s.2 p.1 p.2)
    (start path, start highPath)
    (pairUp series.least series.greatest)
    ⟨Stroke.follows_start (some 0.0), Stroke.follows_start (some 0.0)⟩ ?_
  · rw [hlength] at hall
    exact ⟨hall.1.finish, hall.2.finish⟩
  · intro i hi s hs
    rw [getElem_pairUp hi]
    exact ⟨hs.1.nextExtreme rfl, hs.2.nextExtreme (Bool.or_comm _ _)⟩

section

variable {digits : Nat} {path : Path Rat} (hpath : path.unit = 10 ^ digits)

include hpath

theorem draws_hlog (series : CarrierSeries Rat) (scale : StrokeScale Rat) :
    Draws (.hlog series.samples scale) series.samples.length (max series.groupSize 1 : Nat)
      scale.postScaleY path (hlog path series scale) :=
  draws_of_eq_lines hpath rfl (le_max_right _ _) (hlog_eq_lines path series scale)

theorem draws_counts (samples : List (Option Nat)) (scaleY maxY post : Rat) :
    Draws (.counts samples scaleY maxY) samples.length 1 post path
      (counts path samples scaleY maxY post) :=
  draws_of_eq_lines hpath Nat.cast_one.symm le_rfl
    (counts_eq_lines path samples scaleY maxY post)

theorem draws_extremes {digits' : Nat} {highPath : Path Rat}
    (hhigh : highPath.unit = 10 ^ digits') (series : Extremes Rat) (scale : StrokeScale Rat) :
    Draws (.extremes series.least series.greatest scale) series.least.length
        (max series.groupSize 1 : Nat) scale.postScaleY path
        (extremes path highPath series scale).1 ∧
      Draws (.extremes series.greatest series.least scale) series.least.length
        (max series.groupSize 1 : Nat) scale.postScaleY highPath
        (extremes path highPath series scale).2 := by
  obtain ⟨hlow, hgreat⟩ := extremes_eq_lines path highPath series scale
  exact ⟨draws_of_eq_lines hpath rfl (le_max_right _ _) hlow,
    draws_of_eq_lines hhigh rfl (le_max_right _ _) hgreat⟩

end

/-- **All traces draw their plans**, whatever the paths hold: a channel characteristic, a
counter, and the two traces of least and greatest samples. -/
theorem draws_traces {digits digits' : Nat} {path highPath : Path Rat}
    (hpath : path.unit = 10 ^ digits) (hhigh : highPath.unit = 10 ^ digits') :
    (∀ (series : CarrierSeries Rat) (scale : StrokeScale Rat),
      Draws (.hlog series.samples scale) series.samples.length (max series.groupSize 1 : Nat)
        scale.postScaleY path (hlog path series scale)) ∧
    (∀ (samples : List (Option Nat)) (scaleY maxY post : Rat),
      Draws (.counts samples scaleY maxY) samples.length 1 post path
        (counts path samples scaleY maxY post)) ∧
    ∀ (series : Extremes Rat) (scale : StrokeScale Rat),
      Draws (.extremes series.least series.greatest scale) series.least.length
          (max series.groupSize 1 : Nat) scale.postScaleY path
          (extremes path highPath series scale).1 ∧
        Draws (.extremes series.greatest series.least scale) series.least.length
          (max series.groupSize 1 : Nat) scale.postScaleY highPath
          (extremes path highPath series scale).2 :=
  ⟨draws_hlog hpath, draws_counts hpath, draws_extremes hpath hhigh⟩

/-- A gap, a jump of 25 decibels and a sample outside the window: a characteristic of seven
samples falls into three segments. -/
theorem draws_traces_jump :
    let samples : List (Option Rat) :=
      [some (-10), some (-12), none, some (-30), some (-5), some (-5), some 7]
    let path : Path Rat := (Path.withPrecision 1).lineTo 3 4
    path.unit = 10 ^ 1 ∧
    segments (StrokePlan.hlog samples ⟨1, -100, 6, 1⟩).drawn
      (StrokePlan.hlog samples ⟨1, -100, 6, 1⟩).cut 7 = [(0, 2), (3, 4), (4, 6)] ∧
    Draws (.hlog samples ⟨1, -100, 6, 1⟩) 7 (max 8 1 : Nat) 1 path
      (hlog path ⟨8, samples⟩ ⟨1, -100, 6, 1⟩) := by
  intro samples path
  have hunit : path.unit = 10 ^ 1 := by
    rw [Path.unit_lineTo]
    exact Scalar.tenPow_eq 1
  exact ⟨hunit, by decide +kernel, (draws_traces hunit hunit).1 ⟨8, samples⟩ ⟨1, -100, 6, 1⟩⟩

end LineCharts.Trace
