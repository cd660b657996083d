/-
Bit loading is drawn as the steps of runs.

* `Trace.stairs` — the upper edge of a run: level over each group, upright
  where the sample changes;
* `Trace.Steps.Follows` — the state between two samples has drawn the runs so far: those that
  have ended, and of the open one as much as is known to change;
* `Trace.Steps.Follows.next` — every sample keeps this up;
* `Trace.commands_steps` — the path gets one polygon for each run, from left to right;
* `Trace.OnSteps` — a point of a step function; `Trace.onPolyline_stairs_iff` — these are the
  points of the upper edge of a run;
* `Trace.topsAt_steps` — and the path holds all of it;
* `Trace.outlines_steps` — the whole trace: its runs, its polygons and their upper edges.

Design notes.  A change is drawn when it is seen, so the state is no sample behind.
-/
import LineCharts.Proofs.Geometry.Rounding
import LineCharts.Proofs.Trace.Polyline
import LineCharts.Trace.Steps

namespace LineCharts.Trace

/-- The group has a sample that is drawn. -/
def stepsDrawn (sample : Nat → Option Rat) (i : Nat) : Bool := (sample i).any fun v => 0 < v

/-- The height of a group, in whole pixels. -/
def stepsHeight (sample : Nat → Option Rat) (scaleY : Rat) (i : Nat) : Rat :=
  Exact.round ((sample i).getD 0 * scaleY)

/-- The runs of samples that are drawn, in front of the index `n`. -/
def stepsRuns (sample : Nat → Option Rat) (n : Nat) : List (Nat × Nat) :=
  segments (stepsDrawn sample) (fun _ => false) n

section

variable (sample : Nat → Option Rat) (width : Rat) (height : Nat → Rat) {a n : Nat}

/-- Where the sample of a segment changes: from the height of one group
to that of the next. -/
def changes (a b : Nat) : List (Point Rat) :=
  ((List.range' (a + 1) (b - (a + 1))).filter fun i => sample (i - 1) != sample i).flatMap
    fun i : Nat => [⟨i * width, height (i - 1)⟩, ⟨i * width, height i⟩]

theorem changes_singleton : changes sample width height a (a + 1) = [] := by
  rw [changes, Nat.sub_self]
  rfl

/-- **One more sample** is added if it differs from the last one. -/
theorem changes_succ (h : a ≤ n) :
    changes sample width height a (n + 2) = changes sample width height a (n + 1) ++
      if sample n = sample (n + 1) then []
      else [⟨((n + 1 : Nat) : Rat) * width, height n⟩,
        ⟨((n + 1 : Nat) : Rat) * width, height (n + 1)⟩] := by
  rw [changes, changes, range'_succ_last (Nat.succ_le_succ h), List.filter_append,
    List.flatMap_append]
  congr 1
  rw [List.filter_cons]
  by_cases heq : sample n = sample (n + 1) <;> simp [heq]

/-- The upper edge of a run. -/
def stairs (a b : Nat) : List (Point Rat) :=
  ⟨a * width, height a⟩ :: changes sample width height a b ++ [⟨b * width, height (b - 1)⟩]

/-- The corners of the area below the upper edge of a run. -/
def stepsArea (a b : Nat) : List (Point Rat) :=
  ⟨a * width, 0⟩ :: stairs sample width height a b ++ [⟨b * width, 0⟩]

end

namespace Steps

variable {width scaleY : Rat} {s : Steps Rat} {x : Option Rat} {v : Rat}

/-! ### One sample -/

theorem next_of_not_drawn (hx : (x.any fun v => 0 < v) = false) (i : Nat) :
    s.next width scaleY x i =
      ⟨if s.inside then closeDown s.path (i * width) s.height else s.path, false, x,
        s.height⟩ := by
  have hnone : x.filter (fun v => decide ((0.0 : Rat) < v)) = none := by
    rw [Exact.zero_lit]
    cases x with
    | none => rfl
    | some v => exact Option.filter_eq_none_iff.mpr (by simpa using hx)
  rw [next, hnone]
  rfl

theorem filter_of_pos (hv : 0 < v) :
    (some v).filter (fun v => decide ((0.0 : Rat) < v)) = some v := by
  rw [Exact.zero_lit]
  exact Option.filter_eq_some_iff.mpr ⟨rfl, decide_eq_true hv⟩

/-- A run starts: up from the base line to the height of its first sample. -/
theorem next_enter (hv : 0 < v) (hin : s.inside = false) (hlast : s.last ≠ some v) (i : Nat) :
    s.next width scaleY (some v) i =
      ⟨(s.path.moveTo (i * width) 0).lineTo (i * width) (Exact.round (v * scaleY)), true,
        some v, Exact.round (v * scaleY)⟩ := by
  have hchanged : (!(s.last == some v)) = true := by simpa using hlast
  rw [next, filter_of_pos hv]
  dsimp only
  rw [hchanged, hin, ← Exact.zero_lit]
  rfl

/-- A run goes on at another height. -/
theorem next_turn (hv : 0 < v) (hin : s.inside = true) (hlast : s.last ≠ some v) (i : Nat) :
    s.next width scaleY (some v) i =
      ⟨(s.path.lineTo (i * width) s.height).lineTo (i * width) (Exact.round (v * scaleY)),
        true, some v, Exact.round (v * scaleY)⟩ := by
  have hchanged : (!(s.last == some v)) = true := by simpa using hlast
  rw [next, filter_of_pos hv]
  dsimp only
  rw [hchanged, hin]
  rfl

/-- A run goes on at the same height. -/
theorem next_stay (hv : 0 < v) (hin : s.inside = true) (hlast : s.last = some v) (i : Nat) :
    s.next width scaleY (some v) i = ⟨s.path, true, some v, s.height⟩ := by
  have hsame : (!(s.last == some v)) = false := by simpa using hlast
  rw [next, filter_of_pos hv]
  dsimp only
  rw [hsame, hin]
  rfl

/-! ### The invariant -/

variable (width scaleY) (path : Path Rat) (sample : Nat → Option Rat)

/-- The runs in front of the index `n`, and the start of the open one. -/
def runs (n : Nat) : List (Nat × Nat) × Option Nat :=
  walk (stepsDrawn sample) (fun _ => false) n

/-- The path behind some runs. -/
def behind (ended : List (Nat × Nat)) : Path Rat :=
  path.polygons (ended.map fun run =>
    stepsArea sample width (stepsHeight sample scaleY) run.1 run.2)

/-- What is known of the area of an open run that starts at `a`. -/
def begun (a n : Nat) : List (Point Rat) :=
  [⟨a * width, 0⟩, ⟨a * width, stepsHeight sample scaleY a⟩] ++
    changes sample width (stepsHeight sample scaleY) a n

/-- The state in front of the sample number `n` has drawn the runs so far, behind `path`. -/
structure Follows (n : Nat) (s : Steps Rat) : Prop where
  last : ∀ m, n = m + 1 → s.last = sample m
  inside : s.inside = s.last.any fun v => 0 < v
  closed : ∀ ended, runs sample n = (ended, none) →
    s.inside = false ∧ s.path = behind width scaleY path sample ended
  running : ∀ ended a, runs sample n = (ended, some a) → s.inside = true ∧
    s.path = (behind width scaleY path sample ended).through (begun width scaleY sample a n) ∧
    s.height = stepsHeight sample scaleY (n - 1)

variable {width scaleY path sample} {a n : Nat} {ended : List (Nat × Nat)}

theorem follows_start : Follows width scaleY path sample 0 (start path) := by
  refine ⟨nofun, ?_, ?_, nofun⟩
  · -- the zero that stands before the first sample is not drawn
    show false = decide ((0 : Rat) < (0.0 : Rat))
    rw [Exact.zero_lit]
    rfl
  · rintro _ ⟨⟩
    exact ⟨rfl, rfl⟩

theorem behind_append (ended : List (Nat × Nat)) (a b : Nat) :
    behind width scaleY path sample (ended ++ [(a, b)]) =
      ((behind width scaleY path sample ended).through
        (stepsArea sample width (stepsHeight sample scaleY) a b)).close := by
  rw [behind, behind, List.map_append, Path.polygons, List.foldl_append]
  rfl

theorem closeDown_through (p : Path Rat) (a n : Nat) :
    closeDown (p.through (begun width scaleY sample a n)) (n * width)
        (stepsHeight sample scaleY (n - 1)) =
      (p.through (stepsArea sample width (stepsHeight sample scaleY) a n)).close := by
  have harea : stepsArea sample width (stepsHeight sample scaleY) a n =
      begun width scaleY sample a n ++ [⟨n * width, stepsHeight sample scaleY (n - 1)⟩,
      ⟨n * width, 0⟩] := by
    simp [stepsArea, stairs, begun]
  have hne : begun width scaleY sample a n ≠ [] := by simp [begun]
  rw [harea, Path.through_append _ _ _ hne, ← Exact.zero_lit]
  rfl

variable (scaleY) in
theorem drawn_of_eq {i : Nat} (hi : sample i = some v) :
    stepsDrawn sample i = decide (0 < v) ∧
      stepsHeight sample scaleY i = Exact.round (v * scaleY) := by
  rw [stepsDrawn, stepsHeight, hi]
  exact ⟨rfl, rfl⟩

variable (scaleY) in
theorem exists_of_drawn {i : Nat} (h : stepsDrawn sample i = true) :
    ∃ v, sample i = some v ∧ 0 < v ∧
      stepsHeight sample scaleY i = Exact.round (v * scaleY) := by
  cases hi : sample i with
  | none =>
    rw [stepsDrawn, hi] at h
    exact absurd h Bool.false_ne_true
  | some v =>
    obtain ⟨hdrawn, hheight⟩ := drawn_of_eq scaleY hi
    exact ⟨v, rfl, of_decide_eq_true (hdrawn.symm.trans h), hheight⟩

namespace Follows

theorem outside (h : Follows width scaleY path sample n s)
    (hw : runs sample n = (ended, none)) (hn : stepsDrawn sample n = false) :
    Follows width scaleY path sample (n + 1) (s.next width scaleY (sample n) n) := by
  have hstep : runs sample (n + 1) = (ended, none) := walk_outside hw hn
  obtain ⟨hin, hpath⟩ := h.closed ended hw
  rw [next_of_not_drawn hn, hin, hpath]
  refine ⟨?_, hn.symm, ?_, ?_⟩
  · rintro _ ⟨⟩
    rfl
  · intro e he
    cases hstep.symm.trans he
    exact ⟨rfl, rfl⟩
  · intro e a he
    cases hstep.symm.trans he

theorem leave (h : Follows width scaleY path sample n s)
    (hw : runs sample n = (ended, some a)) (hn : stepsDrawn sample n = false) :
    Follows width scaleY path sample (n + 1) (s.next width scaleY (sample n) n) := by
  have hstep : runs sample (n + 1) = (ended ++ [(a, n)], none) := walk_leave hw hn
  obtain ⟨hin, hpath, hheight⟩ := h.running ended a hw
  rw [next_of_not_drawn hn, hin, hpath, hheight, if_pos rfl, closeDown_through]
  refine ⟨?_, hn.symm, ?_, ?_⟩
  · rintro _ ⟨⟩
    rfl
  · intro e he
    cases hstep.symm.trans he
    exact ⟨rfl, (behind_append ended a n).symm⟩
  · intro e a he
    cases hstep.symm.trans he

theorem enter (h : Follows width scaleY path sample n s) (hw : runs sample n = (ended, none))
    (hn : sample n = some v) (hv : 0 < v) :
    Follows width scaleY path sample (n + 1) (s.next width scaleY (sample n) n) := by
  obtain ⟨hdrawn, hheight⟩ := drawn_of_eq scaleY hn
  have hstep : runs sample (n + 1) = (ended, some n) :=
    walk_enter hw (hdrawn.trans (decide_eq_true hv))
  obtain ⟨hin, hpath⟩ := h.closed ended hw
  -- the value before is not drawn, so it is another one
  have hlast : s.last ≠ some v := by
    intro heq
    have hinside := h.inside
    rw [hin, heq, Option.any_some, decide_eq_true hv] at hinside
    cases hinside
  rw [hn, next_enter hv hin hlast, hpath]
  refine ⟨?_, (decide_eq_true hv).symm, ?_, ?_⟩
  · rintro _ ⟨⟩
    exact hn.symm
  · intro e he
    cases hstep.symm.trans he
  · intro e b he
    cases hstep.symm.trans he
    refine ⟨rfl, ?_, hheight.symm⟩
    rw [begun, changes_singleton, List.append_nil, hheight]
    rfl

theorem stay (h : Follows width scaleY path sample (n + 1) s)
    (hw : runs sample (n + 1) = (ended, some a)) (hn : sample (n + 1) = some v) (hv : 0 < v)
    (heq : sample n = sample (n + 1)) :
    Follows width scaleY path sample (n + 2)
      (s.next width scaleY (sample (n + 1)) (n + 1)) := by
  obtain ⟨hdrawn, -⟩ := drawn_of_eq scaleY hn
  have hstep : runs sample (n + 2) = (ended, some a) :=
    walk_stay hw (hdrawn.trans (decide_eq_true hv)) rfl
  obtain ⟨hin, hpath, hlow⟩ := h.running ended a hw
  have hlast : s.last = some v := (h.last n rfl).trans (heq.trans hn)
  have hchanges := changes_succ sample width (stepsHeight sample scaleY)
    (Nat.le_of_lt_succ (run_of_walk hw).lt)
  rw [if_pos heq, List.append_nil] at hchanges
  rw [hn, next_stay hv hin hlast, hpath, hlow]
  refine ⟨?_, (decide_eq_true hv).symm, ?_, ?_⟩
  · rintro _ ⟨⟩
    exact hn.symm
  · intro e he
    cases hstep.symm.trans he
  · intro e b he
    cases hstep.symm.trans he
    refine ⟨rfl, ?_, ?_⟩
    · rw [begun, begun, hchanges]
    · rw [Nat.add_sub_cancel, stepsHeight, stepsHeight, heq]
      rfl

theorem turn (h : Follows width scaleY path sample (n + 1) s)
    (hw : runs sample (n + 1) = (ended, some a)) (hn : sample (n + 1) = some v) (hv : 0 < v)
    (hne : sample n ≠ sample (n + 1)) :
    Follows width scaleY path sample (n + 2)
      (s.next width scaleY (sample (n + 1)) (n + 1)) := by
  obtain ⟨hdrawn, hheight⟩ := drawn_of_eq scaleY hn
  have hstep : runs sample (n + 2) = (ended, some a) :=
    walk_stay hw (hdrawn.trans (decide_eq_true hv)) rfl
  obtain ⟨hin, hpath, hlow⟩ := h.running ended a hw
  have hlast : s.last ≠ some v := h.last n rfl ▸ hn ▸ hne
  have hchanges := changes_succ sample width (stepsHeight sample scaleY)
    (Nat.le_of_lt_succ (run_of_walk hw).lt)
  rw [if_neg hne] at hchanges
  rw [hn, next_turn hv hin hlast, hpath, hlow, Nat.add_sub_cancel, ← hheight]
  refine ⟨?_, (decide_eq_true hv).symm, ?_, ?_⟩
  · rintro _ ⟨⟩
    exact hn.symm
  · intro e he
    cases hstep.symm.trans he
  · intro e b he
    cases hstep.symm.trans he
    have hbegun : begun width scaleY sample a (n + 2) = begun width scaleY sample a (n + 1) ++
        [⟨(n + 1 : Nat) * width, stepsHeight sample scaleY n⟩,
          ⟨(n + 1 : Nat) * width, stepsHeight sample scaleY (n + 1)⟩] := by
      rw [begun, begun, hchanges, List.append_assoc]
    have hne' : begun width scaleY sample a (n + 1) ≠ [] := by simp [begun]
    refine ⟨rfl, ?_, rfl⟩
    rw [hbegun, Path.through_append _ _ _ hne']
    rfl

/-- **Every sample keeps it up.** -/
theorem next (h : Follows width scaleY path sample n s) :
    Follows width scaleY path sample (n + 1) (s.next width scaleY (sample n) n) := by
  rcases hw : runs sample n with ⟨ended, _ | a⟩
  · cases hn : stepsDrawn sample n with
    | false => exact h.outside hw hn
    | true =>
      obtain ⟨v, hv, hpos⟩ := (Option.any_eq_true _ _).mp hn
      exact h.enter hw hv (of_decide_eq_true hpos)
  · cases hn : stepsDrawn sample n with
    | false => exact h.leave hw hn
    | true =>
      obtain ⟨v, hv, hpos⟩ := (Option.any_eq_true _ _).mp hn
      have hlt := (run_of_walk hw).lt
      obtain ⟨m, rfl⟩ : ∃ m, n = m + 1 := ⟨n - 1, by omega⟩
      by_cases heq : sample m = sample (m + 1)
      · exact h.stay hw hv (of_decide_eq_true hpos) heq
      · exact h.turn hw hv (of_decide_eq_true hpos) heq

/-- Behind the last sample an open run ends. -/
theorem finish (h : Follows width scaleY path sample n s) :
    s.finish width n = behind width scaleY path sample (stepsRuns sample n) := by
  rcases hw : runs sample n with ⟨ended, _ | a⟩
  · obtain ⟨hin, hpath⟩ := h.closed ended hw
    rw [Steps.finish, hin, hpath, stepsRuns, segments, ← runs, hw]
    simp
  · obtain ⟨hin, hpath, hlow⟩ := h.running ended a hw
    rw [Steps.finish, hin, hpath, hlow, if_pos rfl, stepsRuns, segments, ← runs, hw]
    exact (closeDown_through _ a n).trans (behind_append ended a n).symm

end Follows

end Steps

/-! ### All samples -/

theorem steps_eq_behind (path : Path Rat) (series : CarrierSeries Rat) (scaleY : Rat) :
    steps path series scaleY = Steps.behind (groupWidth series.groupSize) scaleY path
      (sampleAt series.samples)
        (stepsRuns (sampleAt series.samples) series.samples.length) := by
  have hstart :
    Steps.Follows (groupWidth series.groupSize) scaleY path (sampleAt series.samples) 0
    (Steps.start path) := Steps.follows_start
  refine Steps.Follows.finish (foldl_zipIdx series.samples hstart fun i hi s hs => ?_)
  exact sampleAt_of_lt hi ▸ hs.next

/-- **Bit loading gets one polygon for each run**, whatever the path holds. -/
theorem commands_steps (path : Path Rat) (series : CarrierSeries Rat) (scaleY : Rat) :
    let sample := sampleAt series.samples
    (steps path series scaleY).commands.toList = path.commands.toList ++
      (stepsRuns sample series.samples.length).flatMap fun run =>
        polygon (corners path.unit (stepsArea sample (max series.groupSize 1 : Nat)
          (stepsHeight sample scaleY) run.1 run.2)) := by
  intro sample
  rw [steps_eq_behind, Steps.behind, Path.commands_polygons, List.flatMap_map]
  rfl

/-! ### The upper edge -/

section

variable {sample : Nat → Option Rat} {width : Rat} {height : Nat → Rat} {a b n : Nat}
  {p : Point Rat}

/-- A point of a step function: on the level part over a group, or on the
upright part between two. -/
inductive OnSteps (width : Rat) (height : Nat → Rat) (a b : Nat) (p : Point Rat) : Prop where
  | level (i : Nat) (left : a ≤ i) (right : i < b) (low : i * width ≤ p.x)
    (high : p.x ≤ (i + 1 : Nat) * width) (y : p.y = height i)
  | upright (i : Nat) (left : a < i) (right : i < b) (x : p.x = i * width)
    (y : p.y ∈ Set.uIcc (height (i - 1)) (height i))

/-- The edges of groups go from left to right. -/
theorem edge_le_succ (hwidth : 0 ≤ width) (i : Nat) :
    (i : Rat) * width ≤ (i + 1 : Nat) * width :=
  mul_le_mul_of_nonneg_right (Nat.cast_le.mpr (Nat.le_succ i)) hwidth

theorem onSegment_flat {left right y : Rat} (h : left ≤ right) :
    OnSegment ⟨left, y⟩ ⟨right, y⟩ p ↔ p.y = y ∧ left ≤ p.x ∧ p.x ≤ right :=
  onSegment_level (p := ⟨left, y⟩) (q := ⟨right, y⟩) rfl h

theorem onSteps_singleton (hwidth : 0 ≤ width) : OnSteps width height a (a + 1) p ↔
    OnSegment ⟨a * width, height a⟩ ⟨(a + 1 : Nat) * width, height a⟩ p := by
  rw [onSegment_flat (edge_le_succ hwidth a)]
  constructor
  · rintro (⟨i, hai, hi, hlow, hhigh, hy⟩ | ⟨i, hai, hi, _, _⟩)
    · obtain rfl : i = a := by omega
      exact ⟨hy, hlow, hhigh⟩
    · omega
  · rintro ⟨hy, hlow, hhigh⟩
    exact .level a le_rfl (Nat.lt_succ_self a) hlow hhigh hy

/-- **One more group** adds an upright part and a level one. -/
theorem onSteps_succ (hwidth : 0 ≤ width) (h : a ≤ n) : OnSteps width height a (n + 2) p ↔
    OnSteps width height a (n + 1) p ∨
      OnSegment ⟨(n + 1 : Nat) * width, height n⟩ ⟨(n + 1 : Nat) * width, height (n + 1)⟩ p ∨
      OnSegment ⟨(n + 1 : Nat) * width, height (n + 1)⟩ ⟨(n + 2 : Nat) * width,
        height (n + 1)⟩ p := by
  rw [onSegment_upright, onSegment_flat (edge_le_succ hwidth (n + 1))]
  constructor
  · rintro (⟨i, hai, hi, hlow, hhigh, hy⟩ | ⟨i, hai, hi, hx, hy⟩)
    · rcases Nat.lt_succ_iff_lt_or_eq.mp hi with hlt | rfl
      · exact .inl (.level i hai hlt hlow hhigh hy)
      · exact .inr (.inr ⟨hy, hlow, hhigh⟩)
    · rcases Nat.lt_succ_iff_lt_or_eq.mp hi with hlt | rfl
      · exact .inl (.upright i hai hlt hx hy)
      · exact .inr (.inl ⟨hx, hy⟩)
  · rintro ((⟨i, hai, hi, hlow, hhigh, hy⟩ | ⟨i, hai, hi, hx, hy⟩) | ⟨hx,
      hy⟩ | ⟨hy, hlow, hhigh⟩)
    · exact .level i hai (Nat.lt_succ_of_lt hi) hlow hhigh hy
    · exact .upright i hai (Nat.lt_succ_of_lt hi) hx hy
    · exact .upright (n + 1) (Nat.lt_succ_of_le h) (Nat.lt_succ_self _) hx hy
    · exact .level (n + 1) (Nat.le_succ_of_le h) (Nat.lt_succ_self _) hlow hhigh hy

theorem stairs_singleton : stairs sample width height a (a + 1) =
    [⟨a * width, height a⟩, ⟨(a + 1 : Nat) * width, height a⟩] := by
  rw [stairs, changes_singleton]
  rfl

/-- The last corner in front of the end of a run is at the height of its last group. -/
theorem exists_last_corner (hwidth : 0 ≤ width)
    (hheight : ∀ i j, sample i = sample j → height i = height j) (h : a ≤ n) :
    ∃ front left, left ≤ n * width ∧
      (⟨a * width, height a⟩ : Point Rat) :: changes sample width height a (n + 1) =
        front ++ [⟨left, height n⟩] := by
  induction n, h using Nat.le_induction with
  | base => exact ⟨[], a * width, le_rfl, by rw [changes_singleton]; rfl⟩
  | succ n h ih =>
    obtain ⟨front, left, hleft, hline⟩ := ih
    rw [changes_succ sample width height h, ← List.cons_append, hline]
    by_cases heq : sample n = sample (n + 1)
    · exact ⟨front, left, hleft.trans (edge_le_succ hwidth n),
        by rw [if_pos heq, List.append_nil, hheight _ _ heq]⟩
    · exact ⟨front ++ [⟨left, height n⟩, ⟨(n + 1 : Nat) * width, height n⟩],
        (n + 1 : Nat) * width, le_rfl, by rw [if_neg heq]; simp⟩

/-- One more group in the upper edge, also if its sample is the one before. -/
theorem onPolyline_stairs_succ (hwidth : 0 ≤ width)
    (hheight : ∀ i j, sample i = sample j → height i = height j) (h : a ≤ n) :
    OnPolyline (stairs sample width height a (n + 2)) p ↔
      OnPolyline (stairs sample width height a (n + 1)) p ∨
      OnSegment ⟨(n + 1 : Nat) * width, height n⟩ ⟨(n + 1 : Nat) * width, height (n + 1)⟩ p ∨
      OnSegment ⟨(n + 1 : Nat) * width, height (n + 1)⟩ ⟨(n + 2 : Nat) * width,
        height (n + 1)⟩ p := by
  by_cases heq : sample n = sample (n + 1)
  · -- the last level part becomes longer
    have hsame := hheight _ _ heq
    obtain ⟨front, left, hleft, hline⟩ := exists_last_corner hwidth hheight h
    rw [stairs, stairs, changes_succ sample width height h, if_pos heq, List.append_nil,
      hline, List.append_assoc, List.append_assoc]
    show OnPolyline (front ++ [⟨left, height n⟩, ⟨(n + 2 : Nat) * width, height (n + 1)⟩]) p ↔
      OnPolyline (front ++ [⟨left, height n⟩, ⟨(n + 1 : Nat) * width, height n⟩]) p ∨ _
    have hlevel : OnSegment ⟨left, height n⟩ ⟨(n + 1 : Nat) * width, height n⟩ p ∨
        OnSegment ⟨(n + 1 : Nat) * width, height n⟩ ⟨(n + 2 : Nat) * width, height n⟩ p ↔
          OnSegment ⟨left, height n⟩ ⟨(n + 2 : Nat) * width, height n⟩ p :=
      onSegment_level_append rfl rfl (hleft.trans (edge_le_succ hwidth n))
        (edge_le_succ hwidth (n + 1))
    have hcorner : p = ⟨(n + 1 : Nat) * width, height n⟩ →
        OnSegment ⟨(n + 1 : Nat) * width, height n⟩ ⟨(n + 2 : Nat) * width, height n⟩ p := by
      rintro rfl
      exact onSegment_left
    rw [onPolyline_concat, onPolyline_concat, ← hsame, ← hlevel, onSegment_self]
    tauto
  · -- an upright part, and a new level one
    have hcorners : stairs sample width height a (n + 2) =
        (⟨a * width, height a⟩ :: changes sample width height a (n + 1) ++
          [⟨(n + 1 : Nat) * width, height n⟩]) ++ [⟨(n + 1 : Nat) * width, height (n + 1)⟩,
          ⟨(n + 2 : Nat) * width, height (n + 1)⟩] := by
      rw [stairs, changes_succ sample width height h, if_neg heq]
      simp
    have hupright := onPolyline_concat (r := p) (p := ⟨(n + 1 : Nat) * width, height n⟩)
      (q := ⟨(n + 1 : Nat) * width, height (n + 1)⟩)
      (⟨a * width, height a⟩ :: changes sample width height a (n + 1))
    rw [hcorners, onPolyline_concat, List.append_assoc, List.singleton_append,
      hupright, or_assoc]
    rfl

/-- **The upper edge is the step function**: level over each group, upright between two. -/
theorem onPolyline_stairs_iff (hwidth : 0 ≤ width)
    (hheight : ∀ i j, sample i = sample j → height i = height j) (h : a < b) :
    OnPolyline (stairs sample width height a b) p ↔ OnSteps width height a b p := by
  obtain ⟨n, rfl⟩ : ∃ n, b = n + 1 := ⟨b - 1, by omega⟩
  induction n, Nat.le_of_lt_succ h using Nat.le_induction with
  | base =>
    rw [stairs_singleton, onSteps_singleton hwidth]
    exact (onPolyline_concat []).trans (or_iff_right_of_imp fun hp => hp ▸ onSegment_left)
  | succ n hle ih =>
    rw [onPolyline_stairs_succ hwidth hheight hle, onSteps_succ hwidth hle,
      ih (Nat.lt_succ_of_le hle)]

/-- All corners are whole: edges of groups across, and heights in whole pixels. -/
theorem whole_of_mem_stepsArea {sample : Nat → Option Rat} {width : Nat} {scaleY : Rat}
    {a b : Nat} :
    ∀ p ∈ stepsArea sample width (stepsHeight sample scaleY) a b, p.Whole := by
  have hwhole (i : Nat) (y : Int) : (⟨i * width, y⟩ : Point Rat).Whole :=
    ⟨(i * width : Nat), y, by simp⟩
  have hbase (i : Nat) : (⟨i * width, 0⟩ : Point Rat).Whole := by exact_mod_cast hwhole i 0
  intro p hp
  rw [stepsArea, stairs, List.mem_append, List.mem_cons, List.mem_append, List.mem_cons,
    List.mem_singleton, List.mem_singleton] at hp
  rcases hp with (rfl | (rfl | hp) | rfl) | rfl
  · exact hbase a
  · exact hwhole a _
  · obtain ⟨i, _, hp⟩ := List.mem_flatMap.mp hp
    rcases List.mem_pair.mp hp with rfl | rfl
    · exact hwhole i _
    · exact hwhole i _
  · exact hwhole b _
  · exact hbase b

theorem stepsHeight_congr (sample : Nat → Option Rat) (scaleY : Rat) (i j : Nat)
    (h : sample i = sample j) :
    stepsHeight sample scaleY i = stepsHeight sample scaleY j := by
  rw [stepsHeight, stepsHeight, h]

/-- **The upper edge is level over each group with a positive sample**, at its
height in whole pixels. -/
theorem topsAt_steps (path : Path Rat) {digits : Nat} (hpath : path.unit = 10 ^ digits)
    (series : CarrierSeries Rat) (scaleY : Rat) {i : Nat} {v x : Rat}
    (hi : sampleAt series.samples i = some v) (hv : 0 < v)
    (hlow : i * (max series.groupSize 1 : Nat) ≤ x)
    (hhigh : x ≤ (i + 1 : Nat) * (max series.groupSize 1 : Nat)) :
    TopsAt (steps path series scaleY) ⟨x, Exact.round (v * scaleY)⟩ := by
  obtain ⟨hdrawn, hheight⟩ := Steps.drawn_of_eq scaleY hi
  obtain ⟨a, b, hrun, hai, hib⟩ :=
    @exists_mem_segments _ (fun _ => false) _ _ (lt_of_sampleAt hi)
      (hdrawn.trans (decide_eq_true hv))
  rw [steps_eq_behind, Steps.behind]
  refine topsAt_polygons (List.mem_map_of_mem hrun) ?_
  have hwhole : ∀ p ∈ stairs (sampleAt series.samples) (max series.groupSize 1 : Nat)
      (stepsHeight (sampleAt series.samples) scaleY) a b, p.Whole := fun p hp =>
    whole_of_mem_stepsArea p (List.mem_append_left _ (List.mem_cons_of_mem _ hp))
  rw [hpath, ← hheight]
  refine (corners_of_whole digits hwhole).symm ▸ onPolyline_destutter.mpr ?_
  exact (onPolyline_stairs_iff (Nat.cast_nonneg _) (stepsHeight_congr _ _)
    (hai.trans_lt hib)).mpr (.level i hai hib hlow hhigh rfl)

end

/-! ### The whole trace -/

/-- Between two runs there is a group without a positive sample. -/
theorem pairwise_stepsRuns (sample : Nat → Option Rat) (n : Nat) :
    (stepsRuns sample n).Pairwise fun r s => r.2 < s.1 :=
  pairwise_segments_apart

/-- **Bit loading is drawn as the outlines of its runs**, whatever the path holds: a run is a
maximal segment of positive samples, the path gets one closed polygon for each run, from left
to right, and the upper edge of a polygon is the step function of its run.  A path of decimal
places holds the corners as they are. -/
theorem outlines_steps (path : Path Rat) (series : CarrierSeries Rat) (scaleY : Rat) :
    let sample := sampleAt series.samples
    let width : Rat := (max series.groupSize 1 : Nat)
    let height := stepsHeight sample scaleY
    let runs := stepsRuns sample series.samples.length
    (∀ a b, (a, b) ∈ runs ↔
      IsMaximal (stepsDrawn sample) (fun _ => false) series.samples.length a b) ∧
    runs.Pairwise (fun r s => r.2 < s.1) ∧
    (steps path series scaleY).commands.toList = path.commands.toList ++
      runs.flatMap (fun run =>
        polygon (corners path.unit (stepsArea sample width height run.1 run.2))) ∧
    (∀ digits : Nat, path.unit = 10 ^ digits → ∀ a b,
      corners path.unit (stepsArea sample width height a b) =
        (stepsArea sample width height a b).destutter (· ≠ ·)) ∧
    ∀ a b, (a, b) ∈ runs → ∀ p,
      OnPolyline (stairs sample width height a b) p ↔ OnSteps width height a b p := by
  intro sample width height runs
  refine ⟨fun a b => mem_segments, pairwise_stepsRuns _ _,
    commands_steps path series scaleY, ?_, ?_⟩
  · intro digits hpath a b
    rw [hpath]
    exact corners_of_whole digits whole_of_mem_stepsArea
  · intro a b hrun p
    exact onPolyline_stairs_iff (Nat.cast_nonneg _) (stepsHeight_congr _ _)
      (mem_segments.mp hrun).lt

/-- A gap and a zero part two runs. -/
example :
    stepsRuns (sampleAt [some 4, some 4, none, some 0, some 6]) 5 = [(0, 2), (4, 5)] := by
  decide +kernel

end LineCharts.Trace
