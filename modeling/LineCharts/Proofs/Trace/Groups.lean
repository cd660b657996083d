/-
A group of carriers is drawn like its carriers one by one, each with the sample of the group.

* `CarrierSeries.ungrouped` — the sample of each carrier;
* `Trace.Steps.next_again` — a sample that is taken again changes nothing;
* `Trace.Steps.foldl_replicate` — so a block of equal samples is like its first one;
* `Trace.Steps.next_wide` — and this is like one sample of a wider group;
* `Trace.Steps.foldl_blocks` — samples one by one against samples in blocks, from any state;
* `Trace.steps_blocks` — groups may be split into equal parts;
  `Trace.steps_ungrouped` — down to carriers.

Design notes.  The two walks meet at the edges of groups only.  Between them the narrow walk
stands still: it has seen the sample before, and draws a corner only where the sample changes.
-/
import LineCharts.Proofs.Trace.Steps

namespace LineCharts

/-- The series with one sample for each carrier: that of its group. -/
def CarrierSeries.ungrouped (series : CarrierSeries Rat) : CarrierSeries Rat :=
  ⟨1, series.samples.flatMap (List.replicate (max series.groupSize 1))⟩

namespace Trace

namespace Steps

variable {width scaleY : Rat} (s : Steps Rat) (x : Option Rat) (i j : Nat)

/-! ### A sample again -/

@[simp] theorem last_next : (s.next width scaleY x i).last = x := by
  cases hx : x.any fun v => 0 < v with
  | false => rw [next_of_not_drawn hx]
  | true =>
    obtain ⟨v, rfl, hv⟩ := (Option.any_eq_true _ _).mp hx
    simp only [next, filter_of_pos (of_decide_eq_true hv)]
    split <;> rfl

@[simp] theorem inside_next : (s.next width scaleY x i).inside = x.any fun v => 0 < v := by
  cases hx : x.any fun v => 0 < v with
  | false => rw [next_of_not_drawn hx]
  | true =>
    obtain ⟨v, rfl, hv⟩ := (Option.any_eq_true _ _).mp hx
    simp only [next, filter_of_pos (of_decide_eq_true hv)]
    split <;> rfl

/-- **A sample that is taken again changes nothing.** -/
theorem next_again :
    (s.next width scaleY x i).next width scaleY x j = s.next width scaleY x i := by
  have hlast : (s.next width scaleY x i).last = x := s.last_next x i
  have hin : (s.next width scaleY x i).inside = x.any fun v => 0 < v := s.inside_next x i
  cases hx : x.any fun v => 0 < v with
  | false =>
    rw [next_of_not_drawn hx, next_of_not_drawn hx]
    rfl
  | true =>
    obtain ⟨v, rfl, hv⟩ := (Option.any_eq_true _ _).mp hx
    rw [hx] at hin
    rw [next_stay (of_decide_eq_true hv) hin hlast]
    generalize s.next width scaleY (some v) i = t at hlast hin
    obtain ⟨path, inside, last, height⟩ := t
    obtain rfl : last = some v := hlast
    obtain rfl : inside = true := hin
    rfl

/-- Nor does a block of them. -/
theorem foldl_again (count : Nat) :
    ((List.replicate count x).zipIdx j).foldl (fun s (x, i) => s.next width scaleY x i)
      (s.next width scaleY x i) = s.next width scaleY x i := by
  induction count generalizing j with
  | zero => rfl
  | succ count ih =>
    rw [List.replicate_succ, List.zipIdx_cons, List.foldl_cons]
    dsimp only
    rw [next_again, ih]

/-- **A block of equal samples is like its first one.** -/
theorem foldl_replicate {count : Nat} (hcount : 1 ≤ count) :
    ((List.replicate count x).zipIdx i).foldl (fun s (x, i) => s.next width scaleY x i) s =
      s.next width scaleY x i := by
  obtain ⟨rest, rfl⟩ := Nat.exists_eq_add_of_le' hcount
  rw [List.replicate_succ, List.zipIdx_cons, List.foldl_cons, foldl_again]

/-! ### Blocks -/

/-- One sample of a wide group stands where the first one of its parts stands. -/
theorem next_wide (parts : Nat) :
    s.next (parts * width) scaleY x i = s.next width scaleY x (i * parts) := by
  have hedge : (Scalar.ofNat i : Rat) * (parts * width) =
      Scalar.ofNat (i * parts) * width := by
    show (i : Rat) * (parts * width) = ((i * parts : Nat) : Rat) * width
    push_cast
    ring
  rw [next, next, hedge]

/-- **Samples of wide groups against the samples of their parts**, from any state on. -/
theorem foldl_blocks {parts : Nat} (hparts : 1 ≤ parts) (samples : List (Option Rat)) :
    (samples.zipIdx i).foldl (fun s (x, i) => s.next (parts * width) scaleY x i) s =
      ((samples.flatMap (List.replicate parts)).zipIdx (i * parts)).foldl
        (fun s (x, i) => s.next width scaleY x i) s := by
  induction samples generalizing i s with
  | nil => rfl
  | cons x samples ih =>
    have hnext : i * parts + (List.replicate parts x).length = (i + 1) * parts := by
      rw [List.length_replicate, Nat.succ_mul]
    rw [List.zipIdx_cons, List.foldl_cons, ih, List.flatMap_cons, List.zipIdx_append,
      List.foldl_append, foldl_replicate s x _ hparts, hnext]
    dsimp only
    rw [next_wide]

end Steps

/-! ### All samples -/

theorem length_blocks (parts : Nat) (samples : List (Option Rat)) :
    (samples.flatMap (List.replicate parts)).length = samples.length * parts := by
  simp [List.length_flatMap]

/-- **Groups may be split into parts of equal size**, each with the sample of the group. -/
theorem steps_blocks (path : Path Rat) {groupSize parts : Nat} (hgroup : 1 ≤ groupSize)
    (hparts : 1 ≤ parts) (samples : List (Option Rat)) (scaleY : Rat) :
    steps path ⟨parts * groupSize, samples⟩ scaleY =
      steps path ⟨groupSize, samples.flatMap (List.replicate parts)⟩ scaleY := by
  have hwide : (groupWidth (parts * groupSize) : Rat) = parts * groupWidth groupSize := by
    show ((max (parts * groupSize) 1 : Nat) : Rat) = parts * (max groupSize 1 : Nat)
    rw [max_eq_left hgroup, max_eq_left (Nat.mul_pos hparts hgroup)]
    push_cast
    rfl
  have hend : (Scalar.ofNat samples.length : Rat) * (parts * groupWidth groupSize) =
      Scalar.ofNat (samples.length * parts) * groupWidth groupSize := by
    show (samples.length : Rat) * (parts * _) = ((samples.length * parts : Nat) : Rat) * _
    push_cast
    ring
  have hwalk :=
    @Steps.foldl_blocks (groupWidth groupSize) scaleY (Steps.start path) 0 parts
      hparts samples
  rw [Nat.zero_mul] at hwalk
  rw [steps, steps, hwide, hwalk, Steps.finish, Steps.finish, length_blocks, hend]

/-- **A group of carriers is drawn like its carriers one by one**, whatever the path holds. -/
theorem steps_ungrouped (path : Path Rat) (series : CarrierSeries Rat) (scaleY : Rat) :
    steps path series scaleY = steps path series.ungrouped scaleY := by
  have hgroup : (groupWidth series.groupSize : Rat) =
      groupWidth (max series.groupSize 1 * 1) := by
    rw [groupWidth, groupWidth, Nat.mul_one, max_eq_left (le_max_right series.groupSize 1)]
  have hblocks :=
    steps_blocks path le_rfl (le_max_right series.groupSize 1) series.samples scaleY
  rw [CarrierSeries.ungrouped, ← hblocks, steps, steps, hgroup]

end Trace

end LineCharts
