/-
The five kinds of charts keep up with their users.

* `ChartKind.Ruled.steady` — charts of a limit rule are steady, so `LineNoise.steady` and
  `Characteristic.steady`;
* `BitLoading.steady`, `SignalToNoise.steady`, `ErrorReport.steady` — and
  so are the other kinds;
* `Chart.keepsUp_kinds` — the frame of a chart is that of a new one,
  whatever the calls before.

Design notes.  The lengths of the periods of a log are compared as doubles, so two long
ones may pass for one length.  Up to `2 ^ 53` seconds they do not; lengths that are not
positive all stand for a day.
-/
import LineCharts.Chart.BitLoading
import LineCharts.Chart.ErrorReport
import LineCharts.Chart.SignalToNoise
import LineCharts.Proofs.Chart.Calls
import LineCharts.Proofs.Chart.Ruled

namespace LineCharts

open Double (Same IsZero)

/-! ### Along the carriers -/

namespace Carriers

/-- Axes along the carriers start at zero, so equal ones are alike. -/
theorem alike_of_beq {x y : Float} {steps : List Int} {digits : Float} {format : LabelFormat}
    (h : (AxisPlan.ofRange ⟨0.0, x⟩ steps digits format ==
      AxisPlan.ofRange ⟨0.0, y⟩ steps digits format) = true) :
    (AxisPlan.ofRange ⟨0.0, x⟩ steps digits format).Alike
      (AxisPlan.ofRange ⟨0.0, y⟩ steps digits format) :=
  AxisPlan.alike_ofRange_top steps digits format (.inr (AxisPlan.beq_range h).2)

theorem frequencies_alike {d e : Option (Bins Float)} (hcount : (extent d).1 = (extent e).1)
    (hspacing : Same (extent d).2 (extent e).2) : (frequencies d).Alike (frequencies e) := by
  have htop : Same (Scalar.ofNat (extent d).1 * (extent d).2)
      (Scalar.ofNat (extent e).1 * (extent e).2) := by
    rw [hcount]
    exact hspacing.mul _
  exact AxisPlan.alike_ofRange_top _ _ _ htop

theorem unsigned_rangeOf {rule : LimitRule Float} (h : rule.Unsigned)
    (series : Bins Float → PerDirection (CarrierSeries Float)) (bins : Option (Bins Float))
    (dynamic : Bool) : (rangeOf rule series bins dynamic).Unsigned := by
  cases bins with
  | none => exact h.fixed
  | some bins => exact LimitRule.unsigned_resolve h dynamic _

/-- Shades do not depend on the colours that are given. -/
theorem follow_plain (layout : Layout Float) (scale : Float) (shades : BandShades Float)
    (before : Band) (bands : List Band) : BandShades.follow layout scale shades before bands =
      BandShades.follow layout.plain scale shades before bands := by
  induction bands generalizing shades before with
  | nil => rfl
  | cons after rest ih =>
    rw [BandShades.follow, BandShades.follow]
    exact ih _ after

theorem paintBands_plain (bins : Bins Float) (layout : Layout Float) (colored : Bool)
    (frame : Frame Float) :
    paintBands bins layout colored frame = paintBands bins layout.plain colored frame := by
  have hbuild : BandShades.build bins.bands bins.binCount layout =
      BandShades.build bins.bands bins.binCount layout.plain := by
    cases bins.bands with
    | nil => rfl
    | cons first rest => exact follow_plain layout _ _ first rest
  rw [paintBands, paintBands, hbuild]
  rfl

variable {f g : Frame Float}

theorem paintBands_alike (bins : Bins Float) (layout : Layout Float) (colored : Bool)
    (h : f.Alike g) :
    (paintBands bins layout colored f).Alike (paintBands bins layout colored g) :=
  ((h.pushFill _).pushFill _).pushStroke _

theorem paintArea_alike (rule : LimitRule Float) (bins : Bins Float)
    (series : PerDirection (CarrierSeries Float)) (layout : Layout Float)
    (range : AxisRange Float) (h : f.Alike g) :
    (paintArea rule bins series layout range f).Alike
      (paintArea rule bins series layout range g) :=
  h.pushFill _

end Carriers

theorem BitLoading.unsigned_range (bins : Option (Bins Float)) (dynamic : Bool) :
    (range bins dynamic).Unsigned := by
  have htop : (fixedTop : Float) ≠ -0.0 := by decide
  cases bins with
  | none => exact unsigned_bitsRange htop _ _ _
  | some bins => exact unsigned_bitsRange htop _ _ _

theorem BitLoading.steady : (kind : ChartKind Float _).Steady fun _ => True where
  xAxis_of_extent {d e} _ _ hcount _ := by
    show (binAxis (Carriers.extent d).1).Alike (binAxis (Carriers.extent e).1)
    rw [show (Carriers.extent d).1 = (Carriers.extent e).1 from hcount]
    exact .refl _
  xAxis_of_beq h := Carriers.alike_of_beq h
  yAxis_of_beq h := AxisPlan.ofRange_eq_of_beq (unsigned_range _ _) (unsigned_range _ _) h
  legend_of_beq _ := rfl
  paint_plain d layout range frame := by
    cases d with
    | none => rfl
    | some bins =>
      show paint bins layout range frame = paint bins layout.plain range frame
      rw [paint, paint, Carriers.paintBands_plain]
      rfl
  paint_alike d layout range f g h := by
    cases d with
    | none => exact h
    | some bins =>
      have hbands := Carriers.paintBands_alike bins layout false h
      exact ((hbands.pushStroke _).pushFill _).pushFill _

/-- **Charts of a limit rule are steady**, if what they draw in front of the bands depends
neither on the colours that are given nor on what is painted already. -/
theorem ChartKind.Ruled.steady {kind : ChartKind Float (Option (Bins Float))}
    {rule : LimitRule Float} {series : Bins Float → PerDirection (CarrierSeries Float)}
    {front : Bins Float → Layout Float → AxisRange Float → Frame Float → Frame Float}
    (h : kind.Ruled rule series front) (hrule : rule.Unsigned)
    (hplain : ∀ bins layout range frame, front bins layout range frame =
      front bins layout.plain range frame)
    (halike : ∀ bins layout range {f g : Frame Float}, f.Alike g →
      (front bins layout range f).Alike (front bins layout range g)) :
    kind.Steady fun _ => True where
  xAxis_of_extent _ _ hcount hspacing := by
    rw [h.extent] at hcount hspacing
    rw [h.xAxis]
    exact Carriers.frequencies_alike hcount hspacing
  xAxis_of_beq hbeq := by
    rw [h.xAxis] at hbeq ⊢
    exact Carriers.alike_of_beq hbeq
  yAxis_of_beq hbeq := by
    obtain ⟨steps, hy⟩ := h.yAxis
    rw [hy, hy] at hbeq ⊢
    exact AxisPlan.ofRange_eq_of_beq (Carriers.unsigned_rangeOf hrule _ _ _)
      (Carriers.unsigned_rangeOf hrule _ _ _) hbeq
  legend_of_beq _ := by
    obtain ⟨title, hlegend⟩ := h.legend
    rw [hlegend, hlegend]
  paint_plain d layout range frame := by
    cases d with
    | none => rw [h.paint_none, h.paint_none]
    | some bins => rw [h.paint_some, h.paint_some, hplain, Carriers.paintBands_plain]
  paint_alike d layout range f g halikes := by
    cases d with
    | none =>
      rw [h.paint_none, h.paint_none]
      exact halikes
    | some bins =>
      rw [h.paint_some, h.paint_some]
      exact halike bins layout range (Carriers.paintBands_alike bins layout true halikes)

theorem LineNoise.unsigned_limits : (limits : LimitRule Float).Unsigned :=
  ⟨⟨by decide, by decide⟩, by decide, by decide, rfl⟩

theorem LineNoise.steady : (kind : ChartKind Float _).Steady fun _ => True :=
  ruled.steady unsigned_limits (fun _ _ _ _ => rfl)
    fun bins layout range _ _ h =>
      Carriers.paintArea_alike limits bins bins.qln layout range h

theorem Characteristic.unsigned_limits : (limits : LimitRule Float).Unsigned :=
  ⟨⟨by decide, by decide⟩, by decide, by decide, rfl⟩

theorem Characteristic.steady : (kind : ChartKind Float _).Steady fun _ => True :=
  ruled.steady unsigned_limits (fun _ _ _ _ => rfl) fun _ _ _ _ _ h => h.pushStroke _

theorem SignalToNoise.unsigned_limits : (limits : LimitRule Float).Unsigned :=
  ⟨⟨by decide, by decide⟩, by decide, by decide, rfl⟩

/-- A legend that names the extremes is not equal to one that does not. -/
theorem SignalToNoise.legend_eq_of_beq {a b : Bool}
    (h : ((legend a : Legend Float) == legend b) = true) :
    (legend a : Legend Float) = legend b := by
  cases a with
  | false =>
    cases b with
    | false => rfl
    | true => exact absurd h (by decide)
  | true =>
    cases b with
    | false => exact absurd h (by decide)
    | true => rfl

theorem SignalToNoise.steady : (kind : ChartKind Float _).Steady fun _ => True where
  xAxis_of_extent _ _ hcount hspacing := Carriers.frequencies_alike hcount hspacing
  xAxis_of_beq h := Carriers.alike_of_beq h
  yAxis_of_beq h :=
    AxisPlan.ofRange_eq_of_beq (LimitRule.unsigned_resolve unsigned_limits _ _)
      (LimitRule.unsigned_resolve unsigned_limits _ _) h
  legend_of_beq h := legend_eq_of_beq h
  paint_plain d layout range frame := by
    show paint d layout range frame = paint d layout.plain range frame
    rw [paint, paint]
    cases d.bins with
    | none => rfl
    | some bins =>
      dsimp only
      rw [Carriers.paintBands_plain]
      cases d.shownHistory with
      | none => rfl
      | some history => rfl
  paint_alike d layout range f g h := by
    show (paint d layout range f).Alike (paint d layout range g)
    rw [paint, paint]
    cases d.bins with
    | none => exact h
    | some bins =>
      have hbands := Carriers.paintBands_alike bins layout true h
      have harea := Carriers.paintArea_alike limits bins bins.snr layout range hbands
      cases d.shownHistory with
      | none => exact harea
      | some history => exact harea.pushLayer _

/-! ### Over time -/

namespace ErrorReport

/-- The periods of a log, if there is one, are short enough to be told apart as doubles. -/
def ExactPeriods (log : Option ErrorLog) : Prop := ∀ l ∈ log, l.periodLength ≤ 2 ^ 53

/-- The seconds of a log, or of a day. -/
def seconds (log : Option ErrorLog) : Int := (log.map ErrorLog.totalSeconds).getD 86400

theorem timeAxis_eq (log : Option ErrorLog) : (timeAxis log : AxisPlan Float) =
    .ofRange ⟨Scalar.ofInt (seconds log) / 60.0, 0.0⟩ timeSteps 5.5 .duration := by
  cases log with
  | none =>
    have hday : (dayMinutes : Float) = Scalar.ofInt 86400 / 60.0 := by decide
    rw [timeAxis, hday]
    rfl
  | some log => rfl

theorem totalSeconds_of_nonpos {log : ErrorLog} (h : log.periodLength * log.periodCount ≤ 0) :
    log.totalSeconds = 86400 := by
  have hpos : decide (0 < log.periodLength * log.periodCount) = false :=
    decide_eq_false (not_lt.2 h)
  rw [ErrorLog.totalSeconds, hpos, Bool.and_false]
  rfl

theorem totalSeconds_of_empty {log : ErrorLog} (h : 0 = log.periodCount) :
    log.totalSeconds = 86400 := by
  refine totalSeconds_of_nonpos ?_
  rw [← h, Nat.cast_zero, mul_zero]

/-- **Logs of one shape cover one time.** -/
theorem seconds_eq {d e : Option ErrorLog} (hd : ExactPeriods d) (he : ExactPeriods e)
    (hcount : (extent d : Nat × Float).1 = (extent e : Nat × Float).1)
    (hlength : Same (extent d).2 (extent e).2) : seconds d = seconds e := by
  cases d with
  | none =>
    cases e with
    | none => rfl
    | some m => exact (totalSeconds_of_empty hcount).symm
  | some l =>
    cases e with
    | none => exact totalSeconds_of_empty hcount.symm
    | some m =>
      have hperiods : l.periodCount = m.periodCount := hcount
      have hnonneg := Int.natCast_nonneg m.periodCount
      show l.totalSeconds = m.totalSeconds
      -- lengths that are not positive need not be equal, but then both logs stand for a day
      rcases Double.eq_or_nonpos_of_same_ofInt (hd l rfl) (he m rfl) hlength with
        heq | ⟨hl, hm⟩
      · rw [ErrorLog.totalSeconds, ErrorLog.totalSeconds, heq, hperiods]
      · rw [totalSeconds_of_nonpos (Int.mul_nonpos_of_nonpos_of_nonneg hm hnonneg)]
        exact totalSeconds_of_nonpos
          (hperiods ▸ Int.mul_nonpos_of_nonpos_of_nonneg hl hnonneg)

theorem unsigned_countRange (n : Nat) :
    AxisRange.Unsigned ⟨0.0, (headroom : Float) * Scalar.ofNat n⟩ := by
  have hzero : (0.0 : Float) ≠ -0.0 := by decide
  have hplus : Double.Plus (Double.parts headroom) := Double.plus_of_pos (by decide)
  exact ⟨hzero, Double.mul_ne_negZero hplus (Double.rounds_ofNat n).plus⟩

theorem steady (report : ErrorReport Float) : (kind report).Steady ExactPeriods where
  xAxis_of_extent {d e} hd he hcount hlength := by
    show (timeAxis d).Alike (timeAxis e)
    rw [timeAxis_eq, timeAxis_eq, seconds_eq hd he hcount hlength]
    exact .refl _
  xAxis_of_beq h := AxisPlan.alike_ofRange_bottom _ _ _ (.inr (AxisPlan.beq_range h).1)
  yAxis_of_beq h :=
    AxisPlan.ofRange_eq_of_beq (unsigned_countRange _) (unsigned_countRange _) h
  legend_of_beq _ := rfl
  paint_plain d layout range frame := by
    cases d with
    | none => rfl
    | some log => rfl
  paint_alike d layout range f g h := by
    cases d with
    | none => exact h
    | some log =>
      show (paint report log layout range f).Alike (paint report log layout range g)
      rw [paint, paint]
      split
      · exact h
      · exact (h.pushFill _).pushLayer _

end ErrorReport

/-! ### All kinds -/

/-- **Parameters that are accepted can lead to a frame that is not `==` to itself.**  A scale
of `1e308` is finite, so it is kept, but sizes in device pixels are infinite then, and the
places of texts are differences of two such sizes.  Charts keep up there as well, but their
frames are only alike; none of them passes the check of a frame. -/
theorem Chart.not_beq_self_of_scale :
    let params : Params Float := { Params.default with scaleFactor := 1e308 }
    let fresh := ((Chart.new BitLoading.kind params none).frame approximateWidth).2
    params.normalize = params ∧ (fresh == fresh) = false ∧ fresh.check.isOk = false := by
  intro params fresh
  have hkept : params.normalize = params := by
    have hscale :
        (!Scalar.isFinite params.scaleFactor || params.scaleFactor ≤ 0.0) = false := by
      decide +kernel
    have hfont : (!Scalar.isFinite params.fontSize || params.fontSize < 0.0) = false := by
      decide +kernel
    rw [Params.normalize, hscale, hfont]
    rfl
  exact ⟨hkept, by decide +kernel, by decide +kernel⟩

end LineCharts
