/-
The small ticks of a vertical axis.

* `IsMiddle` — a value half a step below a multiple of the step, rounded
  down to a whole distance;
* `Layout.mem_minorTicks` — the small ticks are counted from half a step below the first tick,
  or below the first whole number where there is no tick;
* `AxisPlan.Halved` — the small ticks are the middles among the values that may have a tick,
  so that there is one of them between two ticks, and none at a tick;
* `AxisPlan.halved_of_mem` — so they are if there is a tick;
* `AxisPlan.halved_iff` — without one they are only if there is no middle either;
* `Layout.MinorTicked` — what this means for a layout, with what it draws;
* `Layout.halved_compute_iff` — it holds for every layout.

Design notes.  No tick is further away than a step.  So without a tick less than a step of
values is left, in which one small tick has room at most.
-/
import LineCharts.Chart.SignalToNoise
import LineCharts.Proofs.Axis.FirstTick
import LineCharts.Proofs.Layout.Ticks

namespace LineCharts

/-- The value lies half a step below a multiple of the step. -/
def IsMiddle (step v : Int) : Prop := ∃ k : Int, v = k * step - step / 2

/-! ### The middles between multiples -/

/-- Behind a multiple of the step there is a middle before the next one. -/
theorem isMiddle_behind {step v : Int} (hv : step ∣ v) :
    IsMiddle step (v + step - step / 2) := by
  obtain ⟨q, rfl⟩ := hv
  exact ⟨q + 1, by rw [add_mul, one_mul, mul_comm q]⟩

/-- From each value on there is a multiple of the step less than a step away. -/
theorem exists_multiple {step : Int} (hpos : 0 < step) (v : Int) :
    ∃ q, v ≤ step * q ∧ step * q < v + step := by
  refine ⟨-(-v / step), ?_⟩
  have hsplit := Int.mul_ediv_add_emod (-v) step
  have hnonneg := Int.emod_nonneg (-v) hpos.ne'
  have hlt := Int.emod_lt_of_pos (-v) hpos
  rw [mul_neg]
  omega

section

variable {step : Int} (hstep : 2 ≤ step)
include hstep

/-- No multiple of the step is a middle. -/
theorem not_isMiddle_of_dvd {v : Int} (h : step ∣ v) : ¬ IsMiddle step v := by
  rintro ⟨k, hk⟩
  have hhalf : step ∣ step / 2 := by
    have hdvd := Int.dvd_sub (Int.dvd_mul_left k step) h
    rwa [hk, sub_sub_cancel] at hdvd
  have hle := Int.le_of_dvd (by omega) hhalf
  omega

/-- Less than a step behind a multiple there is no other middle. -/
theorem IsMiddle.eq_of_lt {v w : Int} (h : IsMiddle step w) (hv : step ∣ v) (hlow : v < w)
    (hhigh : w < v + step) : w = v + step - step / 2 := by
  obtain ⟨k, rfl⟩ := h
  obtain ⟨q, rfl⟩ := hv
  have hk : k = q + 1 := by
    have hlt : step * q < step * k := by
      rw [mul_comm step k]
      omega
    have hgt : step * k < step * (q + 2) := by
      rw [mul_comm step k, mul_add]
      omega
    have := lt_of_mul_lt_mul_left hlt (by omega)
    have := lt_of_mul_lt_mul_left hgt (by omega)
    omega
  rw [hk, add_mul, one_mul, mul_comm q]

end

/-! ### The small ticks -/

section

variable {α : Type} [Scalar α] {axis : AxisPlan α} {step v : Int}

/-- The small ticks lie whole steps behind half a step below the first tick.  Without a tick
they are counted from the first value that may have one. -/
theorem Layout.mem_minorTicks (hstep : 2 ≤ step) : v ∈ minorTicks axis step ↔
    (axis.labelStart ≤ v ∧ v ≤ axis.labelEnd) ∧
      ∃ i : Nat, v = (axis.ticks step).head?.getD axis.labelStart - step / 2 + i * step := by
  rw [minorTicks, if_neg (by omega)]
  dsimp only
  generalize (axis.ticks step).head?.getD axis.labelStart - step / 2 = first
  rw [List.mem_filter, decide_eq_true_eq, and_comm, and_assoc]
  refine and_congr_right fun _ => ?_
  split
  case isTrue hend =>
    constructor
    · exact fun h => absurd h List.not_mem_nil
    · rintro ⟨hv, i, rfl⟩
      have hi : 0 ≤ (i : Int) * step := Int.mul_nonneg (by omega) (by omega)
      omega
  case isFalse hend =>
    have hcount := AxisPlan.lt_count_iff (by omega : 0 < step) (Int.not_lt.mp hend)
    simp only [List.mem_map, List.mem_range, hcount]
    constructor
    · rintro ⟨i, hi, rfl⟩
      exact ⟨hi, i, rfl⟩
    · rintro ⟨hv, i, rfl⟩
      exact ⟨i, hv, rfl⟩

/-- The small ticks ascend. -/
theorem Layout.pairwise_minorTicks (hstep : 2 ≤ step) :
    (minorTicks axis step).Pairwise (· < ·) := by
  rw [minorTicks, if_neg (by omega)]
  refine List.Pairwise.filter _
    (List.pairwise_map.mpr (List.pairwise_lt_range.imp fun {i j} hij => ?_))
  have hlt : (i : Int) * step < j * step := Int.mul_lt_mul_of_pos_right (by omega) (by omega)
  omega

/-- The small ticks of an axis are the middles among the values that may have a tick, each of
them once.  None is at a tick, and between two neighbouring ticks there is exactly one. -/
structure AxisPlan.Halved (axis : AxisPlan α) (step : Int) : Prop where
  mem : ∀ v, v ∈ Layout.minorTicks axis step ↔
    IsMiddle step v ∧ axis.labelStart ≤ v ∧ v ≤ axis.labelEnd
  ascending : (Layout.minorTicks axis step).Pairwise (· < ·)
  apart : ∀ v ∈ Layout.minorTicks axis step, v ∉ axis.ticks step
  between : ∀ v ∈ axis.ticks step, ∀ w ∈ axis.ticks step, v < w →
    (∀ u ∈ axis.ticks step, u ≤ v ∨ w ≤ u) →
      ∃! u, u ∈ Layout.minorTicks axis step ∧ v < u ∧ u < w

end

namespace AxisPlan

variable {α : Type} [Scalar α] {axis : AxisPlan α} {step : Int}

/-- The first tick heads the list of ticks. -/
theorem head?_ticks (hpos : 0 < step) (hticks : axis.ticks step ≠ []) :
    (axis.ticks step).head? = some (axis.firstTick step) := by
  have hmax : max step 1 = step := by omega
  simp only [ticks, hmax] at hticks ⊢
  split at hticks
  case isTrue => exact absurd rfl hticks
  case isFalse hend =>
    have hdiv : 0 ≤ (axis.labelEnd - axis.firstTick step) / step :=
      Int.ediv_nonneg (by omega) hpos.le
    obtain ⟨n, hn⟩ : ∃ n : Nat,
        ((axis.labelEnd - axis.firstTick step) / step + 1).toNat = n + 1 :=
      ⟨((axis.labelEnd - axis.firstTick step) / step).toNat, by omega⟩
    rw [if_neg hend, hn, List.range_succ_eq_map, List.map_cons, List.head?_cons]
    simp

section

variable (hstep : 2 ≤ step)
  (hticks : ∀ v, v ∈ axis.ticks step ↔ step ∣ v ∧ axis.labelStart ≤ v ∧ v ≤ axis.labelEnd)
include hstep hticks

/-- If the small ticks are the middles, they lie between the ticks. -/
theorem halved_of_mem (hmem : ∀ v, v ∈ Layout.minorTicks axis step ↔
    IsMiddle step v ∧ axis.labelStart ≤ v ∧ v ≤ axis.labelEnd) : axis.Halved step := by
  refine ⟨hmem, Layout.pairwise_minorTicks hstep, fun v hv htick => ?_,
    fun v hv w hw hlt hnext => ?_⟩
  · exact not_isMiddle_of_dvd hstep ((hticks v).mp htick).1 ((hmem v).mp hv).1
  · obtain ⟨hdvd, hlow, hhigh⟩ := (hticks v).mp hv
    obtain ⟨hdvd', hlow', hhigh'⟩ := (hticks w).mp hw
    -- the multiple behind the first of both ticks is the second one
    have hle : v + step ≤ w := by
      have := Int.le_of_dvd (by omega) (Int.dvd_sub hdvd' hdvd)
      omega
    have hw' : w = v + step := by
      have hv' : v + step ∈ axis.ticks step :=
        (hticks _).mpr ⟨Int.dvd_add hdvd (Int.dvd_refl step), by omega, by omega⟩
      have := hnext _ hv'
      omega
    subst hw'
    refine ⟨v + step - step / 2, ⟨(hmem _).mpr ⟨isMiddle_behind hdvd, by omega, by omega⟩,
      by omega, by omega⟩, fun u hu => ?_⟩
    exact ((hmem u).mp hu.1).1.eq_of_lt hstep hdvd hu.2.1 hu.2.2

/-- Where there is a tick, the first one is the first multiple of the step. -/
theorem firstTick_of_ticks (hne : axis.ticks step ≠ []) : step ∣ axis.firstTick step ∧
    axis.labelStart ≤ axis.firstTick step ∧ axis.firstTick step < axis.labelStart + step := by
  have hhead := List.mem_of_mem_head? (head?_ticks (by omega) hne)
  obtain ⟨hdvd, hlow, hhigh⟩ := (hticks _).mp hhead
  refine ⟨hdvd, hlow, ?_⟩
  by_contra hge
  have hbefore : axis.firstTick step - step ∈ axis.ticks step :=
    (hticks _).mpr ⟨Int.dvd_sub hdvd (Int.dvd_refl step), by omega, by omega⟩
  obtain ⟨_, i, hi⟩ := (mem_ticks (by omega)).mp hbefore
  have hnonneg : 0 ≤ (i : Int) * step := Int.mul_nonneg (by omega) (by omega)
  omega

/-- **Where there is a tick**, the small ticks are the middles. -/
theorem halved_of_ticks (hne : axis.ticks step ≠ []) : axis.Halved step := by
  obtain ⟨⟨q, hq⟩, hlow, hhigh⟩ := firstTick_of_ticks hstep hticks hne
  refine halved_of_mem hstep hticks fun v => ?_
  rw [Layout.mem_minorTicks hstep, head?_ticks (by omega) hne, Option.getD_some, hq, and_comm]
  refine and_congr_left fun hv => ?_
  constructor
  · rintro ⟨i, rfl⟩
    exact ⟨q + i, by ring⟩
  · rintro ⟨k, rfl⟩
    -- a middle that is not below the first value is not below the first multiple but one
    have hqk : q ≤ k := by
      by_contra hlt
      have hle : step * k ≤ step * (q - 1) :=
        Int.mul_le_mul_of_nonneg_left (by omega) (by omega)
      rw [Int.mul_sub, Int.mul_one, ← hq, mul_comm] at hle
      omega
    refine ⟨(k - q).toNat, ?_⟩
    rw [Int.toNat_of_nonneg (by omega)]
    ring

/-- Without a tick there is room for one small tick at most: half a step, the shorter half,
below a step behind the first value. -/
theorem mem_minorTicks_of_nil (hnil : axis.ticks step = []) {v : Int} :
    v ∈ Layout.minorTicks axis step ↔ v = axis.labelStart + step - step / 2 ∧
      v ≤ axis.labelEnd := by
  have hshort : axis.labelEnd < axis.labelStart + step := by
    obtain ⟨q, hlow, hhigh⟩ := exists_multiple (by omega : 0 < step) axis.labelStart
    by_contra hlong
    exact List.ne_nil_of_mem ((hticks _).mpr ⟨Int.dvd_mul_right step q, hlow, by omega⟩) hnil
  rw [Layout.mem_minorTicks hstep, hnil, List.head?_nil, Option.getD_none]
  constructor
  · rintro ⟨hv, i, rfl⟩
    obtain hi : i = 1 := by
      by_contra hne
      rcases Nat.lt_or_gt_of_ne hne with hi | hi
      · obtain rfl : i = 0 := by omega
        rw [Nat.cast_zero, zero_mul] at hv
        omega
      · have htwice : 2 * step ≤ i * step :=
          Int.mul_le_mul_of_nonneg_right (by omega) (by omega)
        omega
    subst hi
    rw [Nat.cast_one, one_mul] at hv ⊢
    omega
  · rintro ⟨rfl, hend⟩
    refine ⟨⟨by omega, hend⟩, 1, ?_⟩
    rw [Nat.cast_one, one_mul]
    omega

/-- **The small ticks are the middles exactly if** there is a tick, or no middle
that could have one. -/
theorem halved_iff : axis.Halved step ↔ axis.ticks step ≠ [] ∨
    ∀ v, IsMiddle step v → ¬ (axis.labelStart ≤ v ∧ v ≤ axis.labelEnd) := by
  by_cases hnil : axis.ticks step = []
  · have hminor (v : Int) := mem_minorTicks_of_nil hstep hticks hnil (v := v)
    have hnone : ∀ v, step ∣ v → ¬ (axis.labelStart ≤ v ∧ v ≤ axis.labelEnd) :=
      fun v hdvd hv =>
      List.ne_nil_of_mem ((hticks v).mpr ⟨hdvd, hv⟩) hnil
    rw [or_iff_right (not_not.mpr hnil)]
    constructor
    · -- the small tick would be a middle only if the first value were a multiple, which has a
      -- tick
      rintro h v ⟨k, hk⟩ hv
      obtain ⟨heq, _⟩ := (hminor v).mp ((h.mem v).mpr ⟨⟨k, hk⟩, hv⟩)
      have hdvd : step ∣ axis.labelStart := ⟨k - 1, by rw [mul_sub, mul_one, mul_comm]; omega⟩
      exact hnone _ hdvd (by omega)
    · -- the first multiple is behind the last value, so the middle below it could have the
      -- tick
      intro h
      refine halved_of_mem hstep hticks fun v => ?_
      rw [hminor]
      refine iff_of_false (fun hv => ?_) fun hv => h v hv.1 hv.2
      obtain ⟨q, hlow, hhigh⟩ := exists_multiple (by omega : 0 < step) axis.labelStart
      have hmiddle := h (step * q - step / 2) ⟨q, by rw [mul_comm]⟩
      have hfirst := hnone _ (Int.dvd_mul_right step q)
      omega
  · exact iff_of_true (halved_of_ticks hstep hticks hnil) (.inl hnil)

end

end AxisPlan

namespace Layout

/-! ### Layouts -/

section

variable {α : Type} [Scalar α]

/-- Appends a stub for each of some values, between a vertical axis and a place left of it. -/
def stubs (m : Metrics α) (plot : Rect α) (axis : AxisPlan α) (outer : α) (values : List Int)
    (path : Path α) :
    Path α :=
  values.foldl (fun path value => line path outer (tickY m plot axis value)
    (plot.x - Scalar.round m.scale - m.half) (tickY m plot axis value)) path

/-- The small ticks of a layout.  Its path ends with a stub for each small tick, and a longer
one for each tick.  They lie between the ticks exactly if there is a tick, or no middle that
could have one.  The only small tick of an axis without ticks is a step behind the first value
and half a step back, and that value need not be a multiple of the step. -/
structure MinorTicked (layout : Layout α) (axis : AxisPlan α) : Prop where
  drawn : ∃ path : Path α, layout.axisPath =
    stubs layout.metrics layout.plot axis
      (layout.plot.x - Scalar.round (4.0 * layout.metrics.scale) - layout.metrics.half)
        (axis.ticks layout.stepY)
      (stubs layout.metrics layout.plot axis
        (layout.plot.x - Scalar.round (2.0 * layout.metrics.scale) - layout.metrics.half)
        (minorTicks axis layout.stepY) path)
  halved_iff : axis.Halved layout.stepY ↔ axis.ticks layout.stepY ≠ [] ∨
    ∀ v, IsMiddle layout.stepY v → ¬ (axis.labelStart ≤ v ∧ v ≤ axis.labelEnd)
  only : axis.ticks layout.stepY = [] → ∀ v, v ∈ minorTicks axis layout.stepY ↔
    v = axis.labelStart + layout.stepY - layout.stepY / 2 ∧ v ≤ axis.labelEnd

theorem minorTicked_compute {params : Params α} {xAxis axis : AxisPlan α}
    {legend : Option (Legend α)} {measure : TextMeasure α} {layout : Layout α}
    (hlayout : layout = compute params xAxis axis legend measure) (hstep : 2 ≤ layout.stepY)
    (hticks : ∀ v, v ∈ axis.ticks layout.stepY ↔ layout.stepY ∣ v ∧ axis.labelStart ≤ v ∧
      v ≤ axis.labelEnd) :
    layout.MinorTicked axis := by
  have haxisPath : layout.axisPath =
      yAxisPath (xAxisPath .empty layout.metrics layout.plot xAxis layout.stepX)
      layout.metrics layout.plot axis (max layout.stepY 1) := hlayout ▸ rfl
  rw [max_eq_left (by omega)] at haxisPath
  exact ⟨⟨_, haxisPath⟩, AxisPlan.halved_iff hstep hticks, fun hnil v =>
    AxisPlan.mem_minorTicks_of_nil hstep hticks hnil⟩

end

/-- **The small ticks of the vertical axis lie between its ticks, exactly if** the axis has a
tick, or no middle between multiples of its step could have one: on every surface, in exact
arithmetic and in doubles.  Where it has none, the place of the only small tick depends on the
first value that may have a tick, and on no multiple of the step. -/
theorem halved_compute_iff {steps : List Int} (hsteps : ∀ s ∈ steps, s ≤ Scalar.maxInt64) :
    (∀ axis : AxisPlan Rat, axis.steps = steps → |axis.labelStart| ≤ 2 ^ 62 →
      ∀ params xAxis legend measure,
        let layout := compute params xAxis axis legend measure
        2 ≤ layout.stepY → layout.Marked xAxis axis ∧ layout.MinorTicked axis) ∧
    (∀ axis : AxisPlan Float, axis.steps = steps → |axis.labelStart| ≤ 2 ^ 52 →
      axis.labelEnd < 2 ^ 53 → ∀ params xAxis legend measure,
        let layout := compute params xAxis axis legend measure
        2 ≤ layout.stepY → layout.MinorTicked axis) := by
  constructor
  · rintro axis rfl hstart params xAxis legend measure layout hstep
    have hword : layout.stepY ≤ Scalar.maxInt64 :=
      (chooseStep_pos axis.steps hsteps axis.range.span _ _).2
    have hpos : 0 < layout.stepY := by omega
    exact ⟨marked_compute params legend measure xAxis axis,
      minorTicked_compute rfl hstep fun v => AxisPlan.mem_ticks_iff hstart hpos hword⟩
  · rintro axis rfl hstart hend params xAxis legend measure layout hstep
    have hword : layout.stepY ≤ Scalar.maxInt64 :=
      (chooseStep_pos axis.steps hsteps axis.range.span _ _).2
    have hpos : 0 < layout.stepY := by omega
    exact minorTicked_compute rfl hstep fun v =>
      AxisPlan.mem_ticks_of_double hpos hword hstart hend

/-- Noise from -160 to -69 on the default surface: ticks at multiples of
twenty, and five middles. -/
theorem halved_compute_noise :
    let axis : AxisPlan Float := .ofRange ⟨-160.0, -69.0⟩ [1, 2, 5, 10, 20] 3.75 .integer
    let layout := compute .default (binAxis 4096) axis none approximateWidth
    |axis.labelStart| ≤ 2 ^ 52 ∧ axis.labelEnd < 2 ^ 53 ∧ layout.stepY = 20 ∧
      minorTicks axis layout.stepY = [-150, -130, -110, -90, -70] ∧
        axis.Halved layout.stepY := by
  intro axis layout
  have hsteps : ∀ s ∈ [1, 2, 5, 10, 20], s ≤ Scalar.maxInt64 := by decide
  have hstart : |axis.labelStart| ≤ 2 ^ 52 := by decide +kernel
  have hend : axis.labelEnd < 2 ^ 53 := by decide +kernel
  have hstep : layout.stepY = 20 := by decide +kernel
  have hticks : axis.ticks layout.stepY ≠ [] := by decide +kernel
  have h :=
    (halved_compute_iff hsteps).2 axis rfl hstart hend .default (binAxis 4096) none
      approximateWidth (by decide +kernel)
  exact ⟨hstart, hend, hstep, by decide +kernel, h.halved_iff.mpr (.inl hticks)⟩

/-- **On a low surface the small tick is not in the middle**: where all samples are 58
decibels, the range that follows them holds no multiple of 40.  The small tick is at 62, and
half way between 40 and 80 is 60. -/
theorem not_halved_low :
    let data : SignalToNoise.Data Float :=
      ⟨some { Bins.empty with
        binCount := 3, snr := ⟨⟨1, [some 58.0, some 58.0, some 58.0]⟩, .empty⟩ }, none⟩
    let axis := SignalToNoise.kind.yAxis data true
    let layout := compute { Params.default with height := 40, dynamic := true }
      (SignalToNoise.kind.xAxis data) axis none approximateWidth
    layout.stepY = 40 ∧ (axis.labelStart, axis.labelEnd) = (42, 65) ∧ axis.ticks 40 = [] ∧
      minorTicks axis 40 = [62] ∧ ¬ axis.Halved 40 := by
  intro data axis layout
  have hlabels : (axis.labelStart, axis.labelEnd) = (42, 65) := by decide +kernel
  have hminor : minorTicks axis 40 = [62] := by decide +kernel
  refine ⟨by decide +kernel, hlabels, by decide +kernel, hminor, fun h => ?_⟩
  have hmiddle := ((h.mem 62).mp (hminor ▸ List.mem_singleton_self 62)).1
  obtain ⟨k, hk⟩ := hmiddle
  omega

end Layout

end LineCharts
