/-
Shades cover the periods without samples, and no others.

* `Trace.reach`, `Trace.unreported` — the periods that all series reach, and those of them for
  which none has a sample;
* `Trace.outageState` — the state between two periods: the shades that have ended are drawn,
  and the left edge of the open one;
* `Trace.next_outageState` — every period keeps this up;
* `Trace.outages_eq_shades` — so the path gets a shade for each run of such
  periods, in any numbers;
* `Path.HoldsWhole` — a path holds whole numbers as they are; `Path.holdsWhole_exact` —
  in exact numbers every path of decimal places does; `Path.holdsWhole_double` — in
  doubles up to `2 ^ 53` units;
* `Trace.commands_outages` — so a shade is the rectangle of its run, of height one.

Design notes.  Nothing is rounded before the corners are known, so the walk over the periods
is the same in exact numbers and in doubles.
-/
import LineCharts.Proofs.Double.Places
import LineCharts.Proofs.Geometry.Rounding
import LineCharts.Proofs.Trace.Outline
import LineCharts.Trace.Outage

namespace LineCharts

namespace Trace

/-! ### Periods without samples -/

section

variable {σ : Type} (series : List (List (Option σ))) {i : Nat}

/-- The number of periods that all series reach. -/
def reach : Nat := (series.map List.length).min?.getD 0

/-- No series has a sample for the period. -/
def unreported (i : Nat) : Bool := series.all fun samples => (samples.getD i none).isNone

theorem length_covered : (covered series).length = reach series := by
  fun_induction covered series with
  | case1 => rfl
  | case2 samples => simp [reach]
  | case3 samples rest hrest ih =>
    rw [List.length_zipWith, ih, reach, reach, List.map_cons, List.min?_cons]
    cases h : (rest.map List.length).min? with
    | none => simp_all
    | some shortest => rfl

/-- A period is covered if some series has a sample for it. -/
theorem getElem_covered (hi : i < (covered series).length) :
    (covered series)[i] = !unreported series i := by
  fun_induction covered series with
  | case1 => cases hi
  | case2 samples =>
    rw [List.length_map] at hi
    simp [unreported, hi]
  | case3 samples rest hrest ih =>
    rw [List.length_zipWith] at hi
    have hsamples : i < samples.length := by omega
    have hunreported : unreported (samples :: rest) i =
        (samples[i].isNone && unreported rest i) := by
      rw [unreported, List.all_cons, List.getD_eq_getElem?_getD,
        List.getElem?_eq_getElem hsamples]
      rfl
    rw [List.getElem_zipWith, ih (by omega), hunreported, Bool.not_and, Option.not_isNone]

end

/-! ### The walk over the periods -/

section

variable {α : Type} [Scalar α] {σ : Type} (path : Path α) (series : List (List (Option σ)))

/-- Appends the left edge of a shade, from the base line up. -/
def leftEdge (path : Path α) (a : Nat) : Path α :=
  (path.moveTo (Scalar.ofNat a) 0.0).lineTo (Scalar.ofNat a) 1.0

/-- Appends the shade of the periods from `a` up to `b`. -/
def shade (path : Path α) (a b : Nat) : Path α := closeOutage (leftEdge path a) b

/-- Appends the shades of some runs. -/
def shades (path : Path α) (runs : List (Nat × Nat)) : Path α :=
  runs.foldl (fun path run => shade path run.1 run.2) path

theorem shades_append (path : Path α) (runs : List (Nat × Nat)) (a b : Nat) :
    shades path (runs ++ [(a, b)]) = shade (shades path runs) a b :=
  List.foldl_append

/-- The maximal runs of periods without samples. -/
def outageRuns : List (Nat × Nat) :=
  segments (unreported series) (fun _ => false) (reach series)

/-- The state in front of the period number `n`: the shades that have ended are drawn, and the
left edge of the open one. -/
def outageState (n : Nat) : Path α × Bool :=
  match walk (unreported series) (fun _ => false) n with
  | (ended, none) => (shades path ended, true)
  | (ended, some a) => (leftEdge (shades path ended) a, false)

/-- **Every period keeps it up.** -/
theorem next_outageState (n : Nat) :
    (nextOutage (outageState path series n).1 (outageState path series n).2
      (!unreported series n) n, !unreported series n) = outageState path series (n + 1) := by
  rw [outageState, outageState]
  rcases hw : walk (unreported series) (fun _ => false) n with ⟨ended, _ | a⟩
  · cases hn : unreported series n with
    | false =>
      rw [walk_outside hw hn]
      rfl
    | true =>
      rw [walk_enter hw hn]
      rfl
  · cases hn : unreported series n with
    | false =>
      rw [walk_leave hw hn]
      dsimp only
      rw [shades_append]
      rfl
    | true =>
      rw [walk_stay hw hn rfl]
      rfl

/-- Behind the last period an open shade ends. -/
theorem finish_outageState (n : Nat) :
    (if (outageState path series n).2 then (outageState path series n).1
      else closeOutage (outageState path series n).1 n) =
        shades path (segments (unreported series) (fun _ => false) n) := by
  rw [outageState, segments]
  rcases walk (unreported series) (fun _ => false) n with ⟨ended, _ | a⟩
  · exact (congrArg (shades path) (List.append_nil ended)).symm
  · exact (shades_append path ended a n).symm

/-- **The path gets a shade for each run of periods without samples**, in any numbers. -/
theorem outages_eq_shades : outages path series = shades path (outageRuns series) := by
  have hstate : (covered series).zipIdx.foldl
      (fun state period => (nextOutage state.1 state.2 period.1 period.2, period.1))
        (path, true) = outageState path series (covered series).length := by
    refine @foldl_zipIdx (Path α × Bool) Bool
      (fun n s => s = outageState path series n) _ _ _ rfl ?_
    intro i hi s hs
    rw [hs, getElem_covered]
    exact next_outageState path series i
  rw [outageRuns, ← finish_outageState, ← length_covered, ← hstate]
  rfl

end

end Trace

/-! ### Whole numbers in paths -/

/-- A path of such a unit holds the whole numbers up to `count` as they are, each at
a place of its own. -/
structure Path.HoldsWhole {α : Type} [Scalar α] (unit : α) (count : Nat) : Prop where
  zero : (Scalar.ofNat 0 : α) = 0.0
  one : (Scalar.ofNat 1 : α) = 1.0
  round : ∀ i ≤ count, Path.roundTo unit (Scalar.ofNat i) = Scalar.ofNat i
  apart : ∀ i j, i ≤ count → j ≤ count → i ≠ j →
    ((Scalar.ofNat i : α) == Scalar.ofNat j) = false

/-- In exact numbers every path of decimal places holds all whole numbers. -/
theorem Path.holdsWhole_exact (digits count : Nat) :
    HoldsWhole ((10 : Rat) ^ digits) count where
  zero := Exact.zero_lit.symm
  one := Exact.one_lit.symm
  round i _ := roundTo_natCast digits i
  apart _ _ _ _ hij := decide_eq_false fun h => hij (Nat.cast_injective h)

/-- In doubles it holds those whose product with the unit is not above `2 ^ 53`. -/
theorem Path.holdsWhole_double {digits count : Nat} (hcount : 1 ≤ count)
    (h : count * 10 ^ digits ≤ 2 ^ 53) : HoldsWhole (Scalar.tenPow digits : Float) count := by
  have hunit : 10 ^ digits ≤ 2 ^ 53 := (Nat.le_mul_of_pos_left _ hcount).trans h
  have hle : count ≤ 2 ^ 53 := (Nat.le_mul_of_pos_right _ (by positivity)).trans h
  refine ⟨Double.ofNat_zero, Double.ofNat_one, fun i hi => ?_, fun i j hi hj hij => ?_⟩
  · exact roundTo_ofNat hunit ((Nat.mul_le_mul_right _ hi).trans h)
  · exact Bool.eq_false_iff.mpr fun heq =>
      hij (Double.ofNat_inj (hi.trans hle) (hj.trans hle) heq)

namespace Trace

/-! ### Commands -/

section

variable {α : Type} [Scalar α] {a b count : Nat}

/-- The commands that draw a rectangle of height one over the periods from `a` up to `b`. -/
def rectangle (a b : Nat) : List (PathCommand α) :=
  [.moveTo ⟨Scalar.ofNat a, 0.0⟩, .lineTo ⟨Scalar.ofNat a, 1.0⟩,
    .lineTo ⟨Scalar.ofNat b, 1.0⟩, .lineTo ⟨Scalar.ofNat b, 0.0⟩, .close]

theorem beq_of_x {x y x' y' : α} (h : (x == x') = false) :
    ((⟨x, y⟩ : Point α) == ⟨x', y'⟩) = false := by
  show (x == x' && y == y') = false
  rw [h, Bool.false_and]

theorem beq_of_y {x y x' y' : α} (h : (y == y') = false) :
    ((⟨x, y⟩ : Point α) == ⟨x', y'⟩) = false := by
  show (x == x' && y == y') = false
  rw [h, Bool.and_false]

/-- A line to another point that a path holds as it is. -/
theorem lineTo_of_held {commands : Array (PathCommand α)} {unit x y : α} {start pen : Point α}
    (hx : Path.roundTo unit x = x) (hy : Path.roundTo unit y = y)
    (hpen : ((⟨x, y⟩ : Point α) == pen) = false) :
    Path.lineTo ⟨commands, unit, start, pen⟩ x y =
      ⟨commands.push (.lineTo ⟨x, y⟩), unit, start, ⟨x, y⟩⟩ := by
  rw [Path.lineTo, Path.round, Path.round, hx, hy]
  exact if_neg (by simp [hpen])

/-- **A shade is the rectangle of its run.**  None of its edges is without length. -/
theorem shade_eq {path : Path α} (h : Path.HoldsWhole path.unit count) (hab : a < b)
    (hb : b ≤ count) :
    shade path a b = ⟨path.commands ++ (rectangle a b).toArray, path.unit,
      ⟨Scalar.ofNat a, 0.0⟩, ⟨Scalar.ofNat a, 0.0⟩⟩ := by
  have hleft := h.round a (by omega)
  have hright := h.round b hb
  have hbase : Path.roundTo path.unit 0.0 = 0.0 := h.zero ▸ h.round 0 (by omega)
  have htop : Path.roundTo path.unit 1.0 = 1.0 := h.one ▸ h.round 1 (by omega)
  have hup : ((1.0 : α) == 0.0) = false :=
    h.zero ▸ h.one ▸ h.apart 1 0 (by omega) (by omega) one_ne_zero
  have hdown : ((0.0 : α) == 1.0) = false :=
    h.zero ▸ h.one ▸ h.apart 0 1 (by omega) (by omega) zero_ne_one
  have hacross := h.apart b a hb (by omega) hab.ne'
  rw [shade, leftEdge, Path.moveTo, Path.round, Path.round, hleft, hbase, closeOutage,
    lineTo_of_held hleft htop (beq_of_y hup), lineTo_of_held hright htop (beq_of_x hacross),
    lineTo_of_held hright hbase (beq_of_y hdown)]
  simp [Path.close, rectangle, ← Array.toList_inj]

theorem commands_shades {path : Path α} (h : Path.HoldsWhole path.unit count)
    {runs : List (Nat × Nat)} (hruns : ∀ run ∈ runs, run.1 < run.2 ∧ run.2 ≤ count) :
    (shades path runs).commands.toList =
      path.commands.toList ++ runs.flatMap fun run => rectangle run.1 run.2 := by
  induction runs generalizing path with
  | nil => exact (List.append_nil _).symm
  | cons run runs ih =>
    obtain ⟨⟨hlt, hle⟩, hrest⟩ := List.forall_mem_cons.mp hruns
    have hcons : shades path (run :: runs) = shades (shade path run.1 run.2) runs := rfl
    have hheld : Path.HoldsWhole (shade path run.1 run.2).unit count := by
      rw [shade_eq h hlt hle]
      exact h
    rw [hcons, ih hheld hrest, shade_eq h hlt hle, List.flatMap_cons]
    simp

end

/-- **The periods without samples are shaded**, and nothing else, whatever the path holds: a
run is a maximal segment of the periods that all series reach and for which none has a sample,
and the path gets a shade for each run, from left to right.  This is the rectangle of the run,
in exact numbers for every path of decimal places, and in doubles as long as the periods come
to at most `2 ^ 53` units of the path. -/
theorem commands_outages {σ : Type} (series : List (List (Option σ))) :
    let runs := outageRuns series
    (∀ a b, (a, b) ∈ runs ↔
      IsMaximal (unreported series) (fun _ => false) (reach series) a b) ∧
    runs.Pairwise (fun r s => r.2 < s.1) ∧
    (series = [] → runs = []) ∧
    (∀ (α : Type) [Scalar α] (path : Path α), outages path series = shades path runs) ∧
    (∀ (digits : Nat) (path : Path Rat), path.unit = 10 ^ digits →
      (outages path series).commands.toList =
        path.commands.toList ++ runs.flatMap fun run => rectangle run.1 run.2) ∧
    ∀ (digits : Nat) (path : Path Float), path.unit = Scalar.tenPow digits →
      reach series * 10 ^ digits ≤ 2 ^ 53 →
        (outages path series).commands.toList =
          path.commands.toList ++ runs.flatMap fun run => rectangle run.1 run.2 := by
  intro runs
  have hmem (a b : Nat) : (a, b) ∈ runs ↔
      IsMaximal (unreported series) (fun _ => false) (reach series) a b := mem_segments
  have hruns : ∀ run ∈ runs, run.1 < run.2 ∧ run.2 ≤ reach series := fun run hrun =>
    ⟨((hmem run.1 run.2).mp hrun).lt, ((hmem run.1 run.2).mp hrun).le⟩
  refine ⟨hmem, pairwise_segments_apart, ?_,
    fun α _ path => outages_eq_shades path series, ?_, ?_⟩
  · rintro rfl
    rfl
  · intro digits path hpath
    rw [outages_eq_shades]
    exact commands_shades (hpath ▸ Path.holdsWhole_exact digits _) hruns
  · intro digits path hpath hreach
    rw [outages_eq_shades]
    rcases Nat.eq_zero_or_pos (reach series) with hzero | hpos
    · have hnil : runs = [] := List.eq_nil_iff_forall_not_mem.mpr fun run hrun => by
        have hrun := hruns run hrun
        omega
      show (shades path runs).commands.toList = _
      rw [hnil]
      exact (List.append_nil _).symm
    · exact commands_shades (hpath ▸ Path.holdsWhole_double hpos hreach) hruns

/-- An outage of one period, and one that goes on behind the end of the shorter series. -/
theorem commands_outages_two :
    let series : List (List (Option Nat)) :=
      [[some 1, none, none, some 2, none], [some 0, none, some 3, some 2, none, none]]
    let path : Path Float := .empty
    path.unit = Scalar.tenPow (5 : Nat) ∧ reach series * 10 ^ 5 ≤ 2 ^ 53 ∧
      (outages path series).commands.toList = rectangle 1 2 ++ rectangle 4 5 := by
  intro series path
  have hreach : reach series * 10 ^ 5 ≤ 2 ^ 53 := by decide
  have hruns : outageRuns series = [(1, 2), (4, 5)] := by decide
  refine ⟨rfl, hreach, ?_⟩
  rw [(commands_outages series).2.2.2.2.2 5 path rfl hreach, hruns]
  rfl

end Trace

end LineCharts
