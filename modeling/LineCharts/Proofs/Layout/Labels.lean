/-
The labels of a layout: frequencies and times are exact, counts are told apart
unless the step is too fine.

* `AxisPlan.Aligned.chooseStep_prop` — what holds of the candidates, and of the doublings of
  the greatest one, holds of the step that is chosen;
* `AxisPlan.Aligned.denoted_frequency`, `AxisPlan.Aligned.denoted_duration` — so labels of
  frequencies end within two places, and those of times within one place of their unit;
* `AxisPlan.Aligned.toldApart_of_coarse` — counts are told apart by a step that two places of
  the unit show, or by one of twice as much at least;
* `exists_clash` — all candidates that are too fine share two ticks with one label;
* `AxisPlan.Aligned.toldApart_iff` — so counts are told apart exactly if
  the step is not too fine;
* `Layout.denoted_compute`, `Layout.toldApart_compute_iff` — this holds on every surface.

Design notes.  The unit of a count follows the end of the axis, and the step follows the
room.  All candidates that are too fine for thousands divide 4, and all that are too fine
for millions divide 5000.
-/
import LineCharts.Layout.Basic
import LineCharts.Proofs.Axis.Aligned

namespace LineCharts

open LabelFormat (countGrain)

namespace AxisPlan.Aligned

variable {α : Type} [Scalar α] {axis : AxisPlan α} (h : axis.Aligned) (pixels spacing : α)
include h

theorem chooseStep_bounds : 0 < chooseStep axis.steps axis.range.span pixels spacing ∧
    chooseStep axis.steps axis.range.span pixels spacing ≤ Scalar.maxInt64 := by
  refine chooseStep_pos axis.steps (fun s hs => ?_) axis.range.span pixels spacing
  have hlt := (h.steps.2 s hs).2
  rw [Scalar.maxInt64]
  omega

/-- What holds of the candidates, and of the doublings of the greatest
one, holds of the step. -/
theorem chooseStep_prop {p : Int → Prop} (hcandidate : ∀ s ∈ axis.steps, p s)
    (hdoubled : ∀ k, p (greatestStep axis.steps * 2 * 2 ^ k)) :
    p (chooseStep axis.steps axis.range.span pixels spacing) := by
  rcases chooseStep_mem_or_doubled h.steps.1 h.steps.2 (h.large pixels spacing) with
    hmem | ⟨k, hk, heq⟩
  · exact hcandidate _ hmem
  · obtain ⟨j, rfl⟩ : ∃ j, k = j + 1 := ⟨k - 1, by omega⟩
    rw [heq, pow_succ', ← mul_assoc]
    exact hdoubled j

/-! ### Frequencies and times -/

/-- **Labels of frequencies denote them**, for all steps are multiples of ten. -/
theorem denoted_frequency (hsteps : axis.steps = frequencySteps)
    (hformat : axis.format = .frequency) :
    axis.Denoted (chooseStep axis.steps axis.range.span pixels spacing) := by
  obtain ⟨hpos, hword⟩ := h.chooseStep_bounds pixels spacing
  have hcandidate : ∀ s ∈ axis.steps, 10 ∣ s := by
    rw [hsteps]
    decide
  have hten := h.chooseStep_prop pixels spacing hcandidate fun k => by
    rw [hsteps]
    exact Dvd.dvd.mul_right (by decide) _
  refine denoted_of_read fun v hv => ?_
  obtain ⟨hdvd, hlow, hhigh⟩ := (h.mem_ticks hpos hword).mp hv
  have hv : 10 ∣ v := hten.trans hdvd
  rw [tickLabel, hformat]
  exact LabelFormat.read?_frequencyText (h.near v (by omega) hlow hhigh) hv

/-- **Labels of times denote them**, for all steps are below half an hour, half an
hour, or whole hours. -/
theorem denoted_duration (hsteps : axis.steps = ErrorReport.timeSteps)
    (hformat : axis.format = .duration) :
    axis.Denoted (chooseStep axis.steps axis.range.span pixels spacing) := by
  obtain ⟨hpos, hword⟩ := h.chooseStep_bounds pixels spacing
  have hcandidate : ∀ s ∈ axis.steps, s < 30 ∨ 30 ∣ s ∧ (s < 60 ∨ 60 ∣ s) := by
    rw [hsteps]
    decide
  have hunit := h.chooseStep_prop pixels spacing hcandidate fun k => by
    rw [hsteps]
    exact .inr ⟨Dvd.dvd.mul_right (by decide) _, .inr (Dvd.dvd.mul_right (by decide) _)⟩
  refine denoted_of_read fun v hv => ?_
  obtain ⟨hdvd, hlow, hhigh⟩ := (h.mem_ticks hpos hword).mp hv
  rw [tickLabel, hformat]
  exact LabelFormat.read?_durationText (fun heven => h.near v heven hlow hhigh)
    hpos hunit hdvd

end AxisPlan.Aligned

/-! ### Counts -/

/-- Candidates for the step of counts are multiples of what two places of the unit show, or
twice as much at least, if they are not below it. -/
theorem countGrain_dvd_or_le {last step : Int} (hmem : step ∈ ErrorReport.countSteps)
    (hle : countGrain last ≤ step) : countGrain last ∣ step ∨ 2 * countGrain last ≤ step := by
  have hall : ∀ s ∈ ErrorReport.countSteps, ∀ g ∈ [(1 : Int), 10, 10000], g ≤ s →
    g ∣ s ∨ 2 * g ≤ s := by decide
  refine hall step hmem (countGrain last) ?_ hle
  rcases LabelFormat.countGrain_cases last with ⟨_, hg⟩ | ⟨_, hg⟩ | ⟨_, hg⟩ <;> simp [hg]

/-- **Candidates that are too fine share two ticks with one label.** -/
theorem exists_clash {α : Type} [Scalar α] (h : LabelFormat.Collides α) {last : Int}
    (hlarge : 1000 ≤ last) :
    ∃ unit v w : Int, v ≠ w ∧ (unit ∣ v ∧ 0 ≤ v ∧ v ≤ last) ∧ (unit ∣ w ∧ 0 ≤ w ∧ w ≤ last) ∧
      LabelFormat.countText α v last = LabelFormat.countText α w last ∧
      ∀ s ∈ ErrorReport.countSteps, s < countGrain last → s ∣ unit := by
  rcases LabelFormat.countGrain_cases last with
    ⟨hsmall, _⟩ | ⟨hthousands, hgrain⟩ | ⟨hmillions, hgrain⟩
  · omega
  · have htext {v : Int} (hv : v ≠ 0) :
        LabelFormat.countText α v last = LabelFormat.scaledText α v 1000 "k" := by
      rw [LabelFormat.countText, if_neg hv, if_neg (by omega), if_pos hlarge]
    rw [hgrain]
    refine ⟨4, 8, 12, by decide, ⟨by decide, by decide, by omega⟩,
      ⟨by decide, by decide, by omega⟩, ?_, by decide⟩
    rw [htext (by decide), htext (by decide), h.thousands]
  · have htext {v : Int} (hv : v ≠ 0) :
        LabelFormat.countText α v last = LabelFormat.scaledText α v 1000000 "M" := by
      rw [LabelFormat.countText, if_neg hv, if_pos hmillions]
    rw [hgrain]
    refine ⟨5000, 35000, 40000, by decide, ⟨by decide, by decide, by omega⟩,
      ⟨by decide, by decide, by omega⟩, ?_, by decide⟩
    rw [htext (by decide), htext (by decide), h.millions]

namespace AxisPlan.Aligned

variable {α : Type} [Scalar α] {axis : AxisPlan α} (h : axis.Aligned)
  (hformat : axis.format = .count)
include h hformat

/-- **Counts are told apart** with a step that is a multiple of what two places of the unit
show, or twice as much at least. -/
theorem toldApart_of_coarse {step : Int} (hpos : 0 < step) (hword : step ≤ Scalar.maxInt64)
    (hcoarse : countGrain axis.labelEnd ∣ step ∨ 2 * countGrain axis.labelEnd ≤ step)
    (heven : 1000 ≤ axis.labelEnd → 2 ∣ step) : axis.ToldApart step := by
  have hread (v : Int) (hv : v ∈ axis.ticks step) : ∃ n : Int,
      axis.format.read? (axis.tickLabel step v) =
        some ((n * countGrain axis.labelEnd : Int) : Rat) ∧
        |n * countGrain axis.labelEnd - v| < countGrain axis.labelEnd := by
    obtain ⟨hdvd, hlow, hhigh⟩ := (h.mem_ticks hpos hword).mp hv
    rw [tickLabel, hformat]
    exact LabelFormat.exists_read?_countText fun hlarge =>
      h.near v ((heven hlarge).trans hdvd) hlow hhigh
  generalize countGrain axis.labelEnd = grain at *
  intro v hv w hw heq
  obtain ⟨n, hn, hnear⟩ := hread v hv
  obtain ⟨n', hn', hnear'⟩ := hread w hw
  -- the label that both ticks have is near to both of them
  have hsame : n' * grain = n * grain := by
    have hlabel := hn.symm.trans ((congrArg axis.format.read? heq).trans hn')
    exact_mod_cast (Option.some_inj.mp hlabel).symm
  rw [hsame] at hnear'
  have hv := ((h.mem_ticks hpos hword).mp hv).1
  have hw := ((h.mem_ticks hpos hword).mp hw).1
  rcases hcoarse with hdvd | htwice
  · have hexact {u : Int} (hu : step ∣ u) (hlt : |n * grain - u| < grain) :
        n * grain = u := by
      have hmultiple : grain ∣ n * grain - u :=
        Int.dvd_sub (Int.dvd_mul_left n grain) (hdvd.trans hu)
      exact sub_eq_zero.mp (Int.eq_zero_of_abs_lt_dvd hmultiple hlt)
    exact (hexact hv hnear).symm.trans (hexact hw hnear')
  · refine sub_eq_zero.mp (Int.eq_zero_of_abs_lt_dvd (Int.dvd_sub hv hw) ?_)
    rw [abs_lt] at hnear hnear' ⊢
    omega

/-- **Counts are told apart exactly if** the step is not too fine for the unit. -/
theorem toldApart_iff (hcollides : LabelFormat.Collides α)
    (hsteps : axis.steps = ErrorReport.countSteps) (hstart : axis.labelStart = 0)
    (pixels spacing : α) :
    axis.ToldApart (chooseStep axis.steps axis.range.span pixels spacing) ↔
      countGrain axis.labelEnd ≤ chooseStep axis.steps axis.range.span pixels spacing := by
  have hgrain := LabelFormat.countGrain_cases axis.labelEnd
  obtain ⟨hpos, hword⟩ := h.chooseStep_bounds pixels spacing
  have hcandidate : ∀ s ∈ axis.steps, s ∈ ErrorReport.countSteps ∨ 100000000 ≤ s ∧ 2 ∣ s :=
    fun s hs => .inl (hsteps ▸ hs)
  have hgreatest : greatestStep ErrorReport.countSteps = 50000000 := by decide
  have hstep := h.chooseStep_prop pixels spacing hcandidate fun k => by
    have hone : (1 : Int) ≤ 2 ^ k := one_le_pow₀ (by norm_num)
    rw [hsteps, hgreatest]
    exact .inr ⟨by omega, Dvd.dvd.mul_right (Int.dvd_mul_left _ 2) _⟩
  generalize chooseStep axis.steps axis.range.span pixels spacing = step at *
  constructor
  · intro happart
    by_contra hfine
    obtain ⟨unit, v, w, hne, hv, hw, heq, hunit⟩ :=
      exists_clash hcollides (by omega : 1000 ≤ axis.labelEnd)
    have hdvd : step ∣ unit := hunit step (hstep.resolve_right (by omega)) (by omega)
    refine hne (happart ((h.mem_ticks hpos hword).mpr ?_)
      ((h.mem_ticks hpos hword).mpr ?_) ?_)
    · exact ⟨hdvd.trans hv.1, hstart ▸ hv.2⟩
    · exact ⟨hdvd.trans hw.1, hstart ▸ hw.2⟩
    · rw [tickLabel, tickLabel, hformat]
      exact heq
  · intro hle
    rcases hstep with hmem | ⟨hlarge, heven⟩
    · have hall : ∀ s ∈ ErrorReport.countSteps, 10 ≤ s → 2 ∣ s := by decide
      exact h.toldApart_of_coarse hformat hpos hword (countGrain_dvd_or_le hmem hle) fun _ =>
        hall step hmem (by omega)
    · exact h.toldApart_of_coarse hformat hpos hword (.inr (by omega)) fun _ => heven

end AxisPlan.Aligned

namespace Layout

/-! ### Layouts -/

/-- On every surface, the labels of a horizontal axis denote its ticks. -/
def DenotesX {α : Type} [Scalar α] (axis : AxisPlan α) : Prop :=
  ∀ params yAxis legend measure, axis.Denoted (compute params axis yAxis legend measure).stepX

/-- **Labels of frequencies and of times denote their ticks**, on every surface: in exact
arithmetic, and in doubles, of which the labels are rounded. -/
theorem denoted_compute :
    (∀ (n : Nat) (spacing : Rat), |n * spacing| ≤ 2 ^ 53 →
      DenotesX (frequencyAxis n spacing)) ∧
    (∀ log : Option ErrorLog, (∀ l ∈ log, (l.totalMinutes : Rat) ≤ 2 ^ 53) →
      DenotesX (ErrorReport.timeAxis log : AxisPlan Rat)) ∧
    (∀ (n : Nat) (spacing : Float), n < 2 ^ 64 → spacing.isFinite = true → 0.0 < spacing →
      Scalar.ofNat n * spacing ≤ Scalar.ofNat (2 ^ 53) → DenotesX (frequencyAxis n spacing)) ∧
    (∀ log : Option ErrorLog, (∀ l ∈ log, (l.totalMinutes : Float) ≤ Scalar.ofNat (2 ^ 53)) →
      DenotesX (ErrorReport.timeAxis log : AxisPlan Float)) := by
  refine ⟨fun n spacing hend => ?_, fun log hend => ?_,
    fun n spacing hn hfinite hpos hend => ?_, fun log hend => ?_⟩
  · intro params yAxis legend measure
    exact (aligned_frequencyAxis hend).denoted_frequency _ _ rfl rfl
  · intro params yAxis legend measure
    exact (ErrorReport.aligned_timeAxis hend).denoted_duration _ _ rfl rfl
  · intro params yAxis legend measure
    exact (aligned_frequencyAxis_double hn hfinite hpos hend).denoted_frequency _ _ rfl rfl
  · intro params yAxis legend measure
    exact (ErrorReport.aligned_timeAxis_double hend).denoted_duration _ _ rfl rfl

/-- The carriers of a line up to 35.328 MHz on the default surface, and the week
before the end of a log. -/
theorem denoted_compute_week :
    let carriers : AxisPlan Rat := frequencyAxis 8192 4.3125
    let week : AxisPlan Float := ErrorReport.timeAxis (some ⟨672, 900, none, []⟩)
    let values {α : Type} [Scalar α] : AxisPlan α :=
      .ofRange ⟨0.0, 65.0⟩ [1, 2, 5, 10] 3.75 .integer
    let layout := compute .default carriers values none approximateWidth
    let layout' := compute .default week values none approximateWidth
    carriers.Denoted layout.stepX ∧ week.Denoted layout'.stepX ∧
      ((carriers.ticks layout.stepX).map (carriers.tickLabel layout.stepX)).take 4 =
        ["0.0", "2.5", "5.0", "7.5"] ∧
      ((week.ticks layout'.stepX).map (week.tickLabel layout'.stepX)).getLast? =
        some "7\u202fd" := by
  intro carriers week values layout layout'
  have hcarriers : |((8192 : Nat) : Rat) * 4.3125| ≤ 2 ^ 53 := by norm_num
  have hweek : ∀ l ∈ some (⟨672, 900, none, []⟩ : ErrorLog),
      (l.totalMinutes : Float) ≤ Scalar.ofNat (2 ^ 53) := by
    rintro _ ⟨⟩
    decide +kernel
  exact ⟨denoted_compute.1 8192 4.3125 hcarriers _ _ _ _,
    denoted_compute.2.2.2 _ hweek _ _ _ _, by decide +kernel, by decide +kernel⟩

/-- **Counts are told apart exactly if the step is not too fine for the unit**, in exact
arithmetic and in doubles. Where an axis ends at a million or behind it, a step below ten
thousand is too fine, and where it ends at a thousand, a step below ten. -/
theorem toldApart_compute_iff (log : Option ErrorLog) :
    (∀ report : ErrorReport Rat, report.greatestCount log ≤ 2 ^ 53 →
        ∀ params xAxis legend measure,
        let step := (compute params xAxis (report.countAxis log) legend measure).stepY
        (report.countAxis log).ToldApart step ↔
          countGrain (report.countAxis log).labelEnd ≤ step) ∧
    (∀ report : ErrorReport Float, report.greatestCount log ≤ 2 ^ 53 →
        ∀ params xAxis legend measure,
        let step := (compute params xAxis (report.countAxis log) legend measure).stepY
        (report.countAxis log).ToldApart step ↔
          countGrain (report.countAxis log).labelEnd ≤ step) := by
  refine ⟨fun report hgreatest params xAxis legend measure => ?_,
    fun report hgreatest params xAxis legend measure => ?_⟩
  · obtain ⟨haligned, hstart⟩ := report.aligned_countAxis hgreatest
    exact haligned.toldApart_iff rfl LabelFormat.collides_exact rfl hstart _ _
  · obtain ⟨haligned, hstart⟩ := report.aligned_countAxis_double hgreatest
    exact haligned.toldApart_iff rfl LabelFormat.collides_double rfl hstart _ _

/-- An axis up to a million on the default surface: the ticks are a quarter of a million
apart, and are told apart. -/
theorem toldApart_compute_default :
    let report : ErrorReport Float := .errors .down
    let log : ErrorLog := ⟨1, 900, none, [(⟨.corrected, .down⟩, [some 952381])]⟩
    let axis := report.countAxis log
    let layout := compute .default (ErrorReport.timeAxis log) axis none approximateWidth
    report.greatestCount log ≤ 2 ^ 53 ∧ layout.stepY = 250000 ∧
      axis.ToldApart layout.stepY := by
  intro report log axis layout
  have hgreatest : report.greatestCount log ≤ 2 ^ 53 := by decide
  have hstep : layout.stepY = 250000 := by decide +kernel
  have hfits : countGrain axis.labelEnd ≤ layout.stepY := by decide +kernel
  exact ⟨hgreatest, hstep, ((toldApart_compute_iff log).2 report hgreatest _ _ _ _).mpr hfits⟩

/-- **On a high surface ticks are not told apart**: with 952381 errors the axis ends at a
million, and with 2160 pixels its ticks are five thousand apart.  Those at 10000 and at
15000 have one label. -/
theorem not_toldApart_tall :
    let report : ErrorReport Float := .errors .down
    let log : ErrorLog := ⟨1, 900, none, [(⟨.corrected, .down⟩, [some 952381])]⟩
    let axis := report.countAxis log
    let layout :=
      compute { Params.default with height := 2160 } (ErrorReport.timeAxis log) axis none
        approximateWidth
    layout.stepY = 5000 ∧ 10000 ∈ axis.ticks layout.stepY ∧ 15000 ∈ axis.ticks layout.stepY ∧
      axis.tickLabel layout.stepY 10000 = "0.01\u202fM" ∧
        axis.tickLabel layout.stepY 15000 = "0.01\u202fM" ∧
      ¬ axis.ToldApart layout.stepY := by
  intro report log axis layout
  have hfirst : 10000 ∈ axis.ticks layout.stepY := by decide +kernel
  have hsecond : 15000 ∈ axis.ticks layout.stepY := by decide +kernel
  have hlabel : axis.tickLabel layout.stepY 10000 = "0.01\u202fM" := by decide +kernel
  have hlabel' : axis.tickLabel layout.stepY 15000 = "0.01\u202fM" := by decide +kernel
  refine ⟨by decide +kernel, hfirst, hsecond, hlabel, hlabel', fun happart => ?_⟩
  exact absurd (happart hfirst hsecond (hlabel.trans hlabel'.symm)) (by decide)

end Layout

end LineCharts
