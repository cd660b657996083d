/-
Axes, planned before their size in pixels is known.

* `AxisPlan` is a range with the ticks that may be labelled, the candidate steps between them,
  the width of a label and what the values are.
* `AxisPlan.ticks` lists the values of the ticks for one step (`AxisPlan.mem_ticks`).
* `AxisPlan.fraction` says how far along the axis a value lies.
* `binAxis` and `frequencyAxis` are the axes that lead along the carriers of a line.
-/
import LineCharts.Axis.Limits
import LineCharts.Axis.Step
import LineCharts.Axis.Label

namespace LineCharts

/-- An axis without its step. -/
structure AxisPlan (α : Type) where
  range : AxisRange α
  /-- The least value that may have a tick. -/
  labelStart : Int
  /-- The greatest value that may have a tick. -/
  labelEnd : Int
  steps : List Int
  /-- The widest label, in widths of a digit. -/
  digits : α
  format : LabelFormat
deriving BEq

namespace AxisPlan

variable {α : Type} [Scalar α]

/-- An axis whose ticks may be at all whole values of its range. -/
def ofRange (range : AxisRange α) (steps : List Int) (digits : α) (format : LabelFormat) :
    AxisPlan α :=
  let (low, high) :=
    if range.bottom ≤ range.top then (range.bottom, range.top) else (range.top, range.bottom)
  ⟨range, Scalar.toInt (Scalar.ceil low), Scalar.toInt (Scalar.floor high), steps,
    digits, format⟩

/-- The value of the first tick. -/
def firstTick (axis : AxisPlan α) (step : Int) : Int :=
  Scalar.toInt (LineCharts.firstTick (Scalar.ofInt axis.labelStart) (Scalar.ofInt step) : α)

/-- The values of the ticks: from the first on in steps, as long as they may have a tick. -/
def ticks (axis : AxisPlan α) (step : Int) : List Int :=
  let step := max step 1
  let first := axis.firstTick step
  if axis.labelEnd < first then []
  else (List.range ((axis.labelEnd - first) / step + 1).toNat).map fun (i : Nat) =>
    first + i * step

/-- So many steps lead from `first` to a value that is not behind `last`. -/
theorem lt_count_iff {first last step : Int} (hs : 0 < step) (hle : first ≤ last) (i : Nat) :
    i < ((last - first) / step + 1).toNat ↔ first + i * step ≤ last := by
  have hdiv := Int.le_ediv_iff_mul_le (a := i) (b := last - first) hs
  have hpos : 0 ≤ (last - first) / step := Int.ediv_nonneg (by omega) (by omega)
  omega

/-- The ticks are the values that are a whole number of steps behind the first one, up to the
last that may have a tick. -/
theorem mem_ticks {axis : AxisPlan α} {step v : Int} (hs : 0 < step) :
    v ∈ axis.ticks step ↔ v ≤ axis.labelEnd ∧
      ∃ i : Nat, v = axis.firstTick step + i * step := by
  have hstep : max step 1 = step := by omega
  simp only [ticks, hstep]
  split
  case isTrue hend =>
    constructor
    · intro h
      exact absurd h List.not_mem_nil
    · rintro ⟨hv, i, rfl⟩
      have hi : 0 ≤ (i : Int) * step := Int.mul_nonneg (by omega) (by omega)
      omega
  case isFalse hend =>
    have hcount := lt_count_iff hs (Int.not_lt.mp hend)
    simp only [List.mem_map, List.mem_range, hcount]
    constructor
    · rintro ⟨i, hi, rfl⟩
      exact ⟨hi, i, rfl⟩
    · rintro ⟨hv, i, rfl⟩
      exact ⟨i, hv, rfl⟩

/-- Where a value lies, 0 at the bottom and 1 at the top. -/
def fraction (axis : AxisPlan α) (value : α) : α :=
  let span := axis.range.span
  if span == 0.0 || !Scalar.isFinite span then 0.0 else (value - axis.range.bottom) / span

end AxisPlan

/-! ### Axes along the carriers -/

variable {α : Type} [Scalar α]

/-- Steps between carrier numbers. -/
def binSteps : List Int := [8, 16, 32, 64, 128, 256, 512, 1024, 2048]

/-- Steps between frequencies in kHz. -/
def frequencySteps : List Int := [50, 100, 200, 500, 1000, 1250, 2500, 5000, 10000]

/-- The width of a label on these axes. -/
def carrierLabelDigits : α := 4.0

/-- The axis of carrier numbers. -/
def binAxis (binCount : Nat) : AxisPlan α :=
  .ofRange ⟨0.0, Scalar.ofNat binCount⟩ binSteps carrierLabelDigits .integer

/-- The axis of frequencies. -/
def frequencyAxis (binCount : Nat) (carrierSpacing : α) : AxisPlan α :=
  .ofRange ⟨0.0, Scalar.ofNat binCount * carrierSpacing⟩ frequencySteps carrierLabelDigits
    .frequency

end LineCharts
