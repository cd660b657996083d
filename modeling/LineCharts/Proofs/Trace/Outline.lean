/-
Outlines of traces: where a line through sample centres turns, and what
a path makes of a line.

* `Trace.centres` — the centres of a segment whose sample differs from one next to it;
* `Trace.centres_succ` — what one more sample adds: the last centre, if
  it is due, and its own;
* `Trace.segmentLine` — the line over these from the left end of a segment to its right end;
* `Path.through` — a line through points, appended to a path;
* `Trace.corners` — the points as a path has them: rounded, and each one
  different from the last;
* `Path.commands_through` — a path gets exactly these, whatever it holds;
  `Path.commands_foldl_through` and `Path.commands_polygons` say so for lines and
  polygons one behind the other;
* `Path.through_centres` — so a trace may append a centre late, when the
  sample behind it is known;
* `Trace.foldl_zipIdx` — what every sample keeps up holds behind all samples.
-/
import LineCharts.Geometry.PathData
import LineCharts.Proofs.Geometry.Rounding
import LineCharts.Proofs.Trace.Segments
import Mathlib.Data.List.Destutter

namespace LineCharts

/-! ### Points and commands -/

instance instDecidableEqPointRat : DecidableEq (Point Rat) := fun p q =>
  decidable_of_iff (p.x = q.x ∧ p.y = q.y) (Point.mk.injEq p.x p.y q.x q.y ▸ Iff.rfl)

instance instDecidableEqPathCommandRat : DecidableEq (PathCommand Rat)
  | .moveTo p, .moveTo q => decidable_of_iff (p = q) (PathCommand.moveTo.injEq p q ▸ Iff.rfl)
  | .lineTo p, .lineTo q => decidable_of_iff (p = q) (PathCommand.lineTo.injEq p q ▸ Iff.rfl)
  | .close, .close => isTrue rfl
  | .moveTo _, .lineTo _ | .moveTo _, .close | .lineTo _, .moveTo _ => isFalse nofun
  | .lineTo _, .close | .close, .moveTo _ | .close, .lineTo _ => isFalse nofun

theorem Point.beq_iff {p q : Point Rat} : (p == q) = true ↔ p = q := by
  rcases p with ⟨a, b⟩
  rcases q with ⟨c, d⟩
  show (decide (a = c) && decide (b = d)) = true ↔ _
  rw [Bool.and_eq_true, decide_eq_true_eq, decide_eq_true_eq, Point.mk.injEq]

/-- The point to the places of a path. -/
def Point.round (unit : Rat) (p : Point Rat) : Point Rat :=
  ⟨Path.roundTo unit p.x, Path.roundTo unit p.y⟩

/-- Both coordinates are whole pixels or the middles between them. -/
def Point.Halves (p : Point Rat) : Prop := p.x ∈ Exact.halves ∧ p.y ∈ Exact.halves

theorem Point.Halves.round {p : Point Rat} (h : p.Halves) (digits : Nat) :
    p.round (10 ^ (digits + 1)) = p := by
  rw [Point.round, Path.roundTo_of_mem_halves digits h.1,
    Path.roundTo_of_mem_halves digits h.2]

/-- Both coordinates are whole numbers. -/
def Point.Whole (p : Point Rat) : Prop := ∃ m n : Int, p = ⟨m, n⟩

theorem Point.Whole.round {p : Point Rat} (h : p.Whole) (digits : Nat) :
    p.round (10 ^ digits) = p := by
  obtain ⟨m, n, rfl⟩ := h
  rw [Point.round, Path.roundTo_intCast, Path.roundTo_intCast]

namespace Trace

/-! ### Centres -/

/-- The sample of a group; there is none behind the last. -/
def sampleAt (samples : List (Option Rat)) (i : Nat) : Option Rat := samples.getD i none

theorem sampleAt_of_lt {samples : List (Option Rat)} {i : Nat} (h : i < samples.length) :
    sampleAt samples i = samples[i] := by
  rw [sampleAt, List.getD_eq_getElem?_getD, List.getElem?_eq_getElem h, Option.getD_some]

theorem lt_of_sampleAt {samples : List (Option Rat)} {i : Nat} {v : Rat}
    (h : sampleAt samples i = some v) : i < samples.length := by
  by_contra hi
  rw [sampleAt, List.getD_eq_getElem?_getD, List.getElem?_eq_none (not_lt.mp hi)] at h
  cases h

theorem exists_sampleAt_iff {samples : List (Option Rat)} {v : Rat} :
    (∃ i, sampleAt samples i = some v) ↔ some v ∈ samples := by
  constructor
  · rintro ⟨i, hi⟩
    have hlt := lt_of_sampleAt hi
    rw [← hi, sampleAt_of_lt hlt]
    exact List.getElem_mem hlt
  · intro h
    obtain ⟨i, hlt, hi⟩ := List.getElem_of_mem h
    exact ⟨i, (sampleAt_of_lt hlt).trans hi⟩

/-- The centre of a group. -/
def centre (width : Rat) (height : Nat → Rat) (i : Nat) : Point Rat :=
  ⟨(i + 0.5) * width, height i⟩

/-- Half a group in front of a centre is the left edge of its group. -/
theorem edge_eq (width : Rat) (i : Nat) :
    ((i : Rat) + 0.5) * width - 0.5 * width = i * width := by
  ring

/-- A whole group in front of a centre is the centre before. -/
theorem centre_eq_succ_sub (width : Rat) (i : Nat) :
    ((i : Rat) + 0.5) * width = (((i + 1 : Nat) : Rat) + 0.5) * width - width := by
  push_cast
  ring

/-- The middle of a group of carriers is a whole number or a half. -/
theorem centre_mem_halves (width i : Nat) : ((i : Rat) + 0.5) * width ∈ Exact.halves := by
  refine Exact.mem_halves.mpr ⟨(2 * i + 1) * width, ?_⟩
  push_cast
  ring

section

variable (sample : Nat → Option Rat) (point : Nat → Point Rat) {a b n : Nat}

/-- The sample differs from the one before or behind it in the segment. -/
def turns (a b i : Nat) : Bool :=
  (a < i && sample (i - 1) != sample i) || (i + 1 < b && sample i != sample (i + 1))

/-- The points of a segment at which a line through all of them may turn. -/
def centres (a b : Nat) : List (Point Rat) :=
  ((List.range' a (b - a)).filter (turns sample a b)).map point

theorem turns_singleton : turns sample a (a + 1) a = false := by
  simp [turns]

theorem centres_singleton : centres sample point a (a + 1) = [] := by
  rw [centres, Nat.add_sub_cancel_left]
  simp [turns_singleton]

theorem range'_succ_last (h : a ≤ n) :
    List.range' a (n + 1 - a) = List.range' a (n - a) ++ [n] := by
  rw [show n + 1 - a = (n - a) + 1 by omega, List.range'_concat]
  congr 2
  omega

/-- **One more sample.**  If it differs from the last one, then the point of the last is added
unless it is there already, and so is the new one. -/
theorem centres_succ (h : a ≤ n) :
    centres sample point a (n + 2) = centres sample point a (n + 1) ++
      if sample n = sample (n + 1) then []
      else (if turns sample a (n + 1) n then [] else [point n]) ++ [point (n + 1)] := by
  have hlong : List.range' a (n + 2 - a) = List.range' a (n - a) ++ [n, n + 1] := by
    rw [range'_succ_last (Nat.le_succ_of_le h), range'_succ_last h, List.append_assoc]
    rfl
  -- nothing changes for the samples whose two neighbours were there before
  have hbefore : (List.range' a (n - a)).filter (turns sample a (n + 2)) =
      (List.range' a (n - a)).filter (turns sample a (n + 1)) := by
    refine List.filter_congr fun i hi => ?_
    obtain ⟨j, hj, rfl⟩ := List.mem_range'.mp hi
    have h₁ : a + 1 * j + 1 < n + 2 := by omega
    have h₂ : a + 1 * j + 1 < n + 1 := by omega
    simp only [turns, h₁, h₂]
  have hlast : turns sample a (n + 2) (n + 1) = (sample n != sample (n + 1)) := by
    simp [turns, Nat.lt_succ_of_le h]
  have hnext : turns sample a (n + 2) n =
      (turns sample a (n + 1) n || sample n != sample (n + 1)) := by
    simp [turns]
  rw [centres, centres, hlong, range'_succ_last h, List.filter_append, List.filter_append,
    hbefore, List.map_append, List.map_append, List.append_assoc]
  congr 1
  rw [List.filter_cons, List.filter_cons, List.filter_cons, hlast, hnext]
  by_cases heq : sample n = sample (n + 1)
  · cases turns sample a (n + 1) n <;> simp [heq]
  · cases turns sample a (n + 1) n <;> simp [heq]

/-- The line of a segment: from its left end over the centres that turn to its right end. -/
def segmentLine (width : Rat) (height : Nat → Rat) (a b : Nat) : List (Point Rat) :=
  ⟨a * width, height a⟩ :: centres sample (centre width height) a b ++
    [⟨b * width, height (b - 1)⟩]

end

/-! ### Samples one by one -/

/-- What every sample keeps up holds behind all samples. -/
theorem foldl_zipIdx {σ τ : Type} {holds : Nat → σ → Prop} {next : σ → τ × Nat → σ}
    {start : σ} (samples : List τ) (hstart : holds 0 start)
    (hnext : ∀ (i : Nat) (hi : i < samples.length) (s : σ), holds i s →
      holds (i + 1) (next s (samples[i], i))) :
    holds samples.length (samples.zipIdx.foldl next start) := by
  induction samples using List.reverseRecOn with
  | nil => exact hstart
  | append_singleton samples x ih =>
    have hinit : holds samples.length (samples.zipIdx.foldl next start) := by
      refine ih fun i hi s hs => ?_
      have hlt : i < (samples ++ [x]).length := by
        rw [List.length_append]
        omega
      have hi' := hnext i hlt s hs
      rwa [List.getElem_append_left hi] at hi'
    have hlast := hnext samples.length (by simp) _ hinit
    rw [List.getElem_concat_length rfl] at hlast
    rwa [List.zipIdx_append, List.foldl_append, List.length_append, List.zipIdx_singleton,
      Nat.zero_add]

/-! ### Corners and commands -/

/-- The points as a path has them. -/
def corners (unit : Rat) (ps : List (Point Rat)) : List (Point Rat) :=
  (ps.map (Point.round unit)).destutter (· ≠ ·)

/-- The commands that draw a line through some points. -/
def openLine : List (Point Rat) → List (PathCommand Rat)
  | [] => []
  | p :: ps => .moveTo p :: ps.map .lineTo

/-- The commands that draw a polygon with some corners. -/
def polygon (ps : List (Point Rat)) : List (PathCommand Rat) := openLine ps ++ [.close]

/-- Points that stay when they are rounded. -/
theorem corners_of_round_eq {unit : Rat} {ps : List (Point Rat)}
    (h : ∀ p ∈ ps, p.round unit = p) :
    corners unit ps = ps.destutter (· ≠ ·) := by
  have hround : ps.map (Point.round unit) = ps.map id := List.map_congr_left h
  rw [corners, hround, List.map_id]

/-- A path with a decimal place holds whole pixels and their middles as they are. -/
theorem corners_of_halves (digits : Nat) {ps : List (Point Rat)} (h : ∀ p ∈ ps, p.Halves) :
    corners (10 ^ (digits + 1)) ps = ps.destutter (· ≠ ·) :=
  corners_of_round_eq fun p hp => (h p hp).round digits

/-- A path of decimal places holds whole pixels as they are. -/
theorem corners_of_whole (digits : Nat) {ps : List (Point Rat)} (h : ∀ p ∈ ps, p.Whole) :
    corners (10 ^ digits) ps = ps.destutter (· ≠ ·) :=
  corners_of_round_eq fun p hp => (h p hp).round digits

theorem destutter'_eq_cons (p : Point Rat) (l : List (Point Rat)) :
    l.destutter' (· ≠ ·) p = p :: (l.destutter' (· ≠ ·) p).tail := by
  induction l with
  | nil => rfl
  | cons q l ih =>
    rw [List.destutter'_cons]
    split
    · rfl
    · exact ih

end Trace

namespace Path

open Trace

/-- Appends lines to some points. -/
def linesTo (path : Path Rat) (ps : List (Point Rat)) : Path Rat :=
  ps.foldl (fun path p => path.lineTo p.x p.y) path

/-- Appends a line through some points. -/
def through (path : Path Rat) : List (Point Rat) → Path Rat
  | [] => path
  | p :: ps => (path.moveTo p.x p.y).linesTo ps

variable (path : Path Rat) (p : Point Rat) (ps qs : List (Point Rat))

theorem through_append (h : ps ≠ []) :
    path.through (ps ++ qs) = (path.through ps).linesTo qs := by
  cases ps with
  | nil => exact absurd rfl h
  | cons p ps => exact List.foldl_append

theorem unit_lineTo (x y : Rat) : (path.lineTo x y).unit = path.unit := by
  rw [lineTo]
  split <;> rfl

theorem unit_linesTo : (path.linesTo ps).unit = path.unit := by
  induction ps generalizing path with
  | nil => rfl
  | cons p ps ih => exact (ih (path.lineTo p.x p.y)).trans (unit_lineTo path p.x p.y)

theorem unit_through : (path.through ps).unit = path.unit := by
  cases ps with
  | nil => rfl
  | cons p ps => exact unit_linesTo _ ps

/-- Lines to some points append those of them where the pen is not yet. -/
theorem commands_linesTo : (path.linesTo ps).commands.toList = path.commands.toList ++
    ((ps.map (Point.round path.unit)).destutter' (· ≠ ·) path.pen).tail.map .lineTo := by
  induction ps generalizing path with
  | nil => exact (List.append_nil _).symm
  | cons p ps ih =>
    have hcons : path.linesTo (p :: ps) = (path.lineTo p.x p.y).linesTo ps := rfl
    rw [hcons, ih, unit_lineTo, List.map_cons]
    by_cases h : p.round path.unit = path.pen
    · have hsame : path.lineTo p.x p.y = path := lineTo_eq_self (Point.beq_iff.mpr h)
      rw [hsame, List.destutter'_cons_neg _ (not_not.mpr h.symm)]
    · have hbeq : (p.round path.unit == path.pen) = false := by
        rw [← Bool.not_eq_true, Point.beq_iff]
        exact h
      have hpush : path.lineTo p.x p.y = _ := lineTo_eq_push hbeq
      rw [hpush, List.destutter'_cons_pos _ (Ne.symm h), List.tail_cons]
      show (path.commands.push (.lineTo (p.round path.unit))).toList ++ List.map _
        (List.destutter' _ (p.round path.unit) _).tail = _
      rw [destutter'_eq_cons (p.round path.unit), List.tail_cons, Array.toList_push,
        List.append_assoc]
      rfl

/-- **A line through points is appended as the rounded points, each one
different from the last.** -/
theorem commands_through : (path.through ps).commands.toList =
    path.commands.toList ++ openLine (corners path.unit ps) := by
  cases ps with
  | nil => exact (List.append_nil _).symm
  | cons p ps =>
    have hcorners : corners path.unit (p :: ps) =
        p.round path.unit :: (corners path.unit (p :: ps)).tail := destutter'_eq_cons _ _
    rw [through, commands_linesTo, hcorners]
    show (path.commands.push (.moveTo (p.round path.unit))).toList ++ _ = _
    rw [Array.toList_push, List.append_assoc]
    rfl

theorem unit_foldl_through (lines : List (List (Point Rat))) :
    (lines.foldl through path).unit = path.unit := by
  induction lines generalizing path with
  | nil => rfl
  | cons ps lines ih => exact (ih (path.through ps)).trans (unit_through path ps)

/-- Lines are appended one behind the other. -/
theorem commands_foldl_through (lines : List (List (Point Rat))) :
    (lines.foldl through path).commands.toList = path.commands.toList ++
      lines.flatMap fun ps => openLine (corners path.unit ps) := by
  induction lines generalizing path with
  | nil => exact (List.append_nil _).symm
  | cons ps lines ih =>
    rw [List.foldl_cons, ih, List.flatMap_cons, ← List.append_assoc,
      ← commands_through, unit_through]

/-- Appends polygons with some corners. -/
def polygons (outlines : List (List (Point Rat))) : Path Rat :=
  outlines.foldl (fun path ps => (path.through ps).close) path

theorem unit_polygons (outlines : List (List (Point Rat))) :
    (path.polygons outlines).unit = path.unit := by
  induction outlines generalizing path with
  | nil => rfl
  | cons ps outlines ih => exact (ih (path.through ps).close).trans (unit_through path ps)

/-- Polygons are appended one behind the other. -/
theorem commands_polygons (outlines : List (List (Point Rat))) :
    (path.polygons outlines).commands.toList = path.commands.toList ++
      outlines.flatMap fun ps => polygon (corners path.unit ps) := by
  induction outlines generalizing path with
  | nil => exact (List.append_nil _).symm
  | cons ps outlines ih =>
    have hcons : path.polygons (ps :: outlines) = (path.through ps).close.polygons outlines :=
      rfl
    rw [hcons, ih, List.flatMap_cons, polygon, ← List.append_assoc, ← List.append_assoc,
      ← commands_through]
    show ((path.through ps).commands.push .close).toList ++
      outlines.flatMap (fun ps' => polygon (corners (path.through ps).unit ps')) = _
    rw [Array.toList_push, unit_through]

/-- **A centre may be appended late.**  When a sample differs from the last one, the last
centre is appended unless it was before, then the new one. -/
theorem through_centres (sample : Nat → Option Rat) (point : Nat → Point Rat) {a n : Nat}
    (hps : ps ≠ []) (ha : a ≤ n) (hne : sample n ≠ sample (n + 1)) :
    (if turns sample a (n + 1) n then path.through (ps ++ centres sample point a (n + 1))
      else (path.through (ps ++ centres sample point a (n + 1))).lineTo (point n).x
        (point n).y).lineTo (point (n + 1)).x (point (n + 1)).y =
        path.through (ps ++ centres sample point a (n + 2)) := by
  have hsucc := centres_succ sample point ha
  rw [if_neg hne] at hsucc
  have hne' : ps ++ centres sample point a (n + 1) ≠ [] := by simp [hps]
  rw [hsucc, ← List.append_assoc, through_append path _ _ hne']
  split <;> rfl

end Path

end LineCharts
