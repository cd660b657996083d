/-
Labels of ticks denote their values.

* `LabelFormat.read?` — the value that a label denotes: a number, and what the
  unit behind it stands for;
* `Decimal.spells_plain`, `spells_toString` — decimals and integers are read
  back from their texts;
* `LabelFormat.Near` — quotients of a value are written to less than a unit of the last place,
  as they are in exact arithmetic (`LabelFormat.near_exact`) and in doubles
  (`LabelFormat.near_double`);
* `LabelFormat.read?_frequencyText`, `LabelFormat.read?_durationText` — frequencies
  and times are read back;
* `LabelFormat.exists_read?_countText` — counts are read back to less than the last
  place of their labels;
* `AxisPlan.Denoted`, `AxisPlan.ToldApart` — the labels of an axis denote its ticks, or
  tell them apart at least.

Design notes.  A quotient that ends within the places is written in full, for the last place
holds a whole number, and no other one is less than a unit away.
-/
import LineCharts.Axis.Plan
import LineCharts.Proofs.Decimal.Nearest
import LineCharts.Proofs.PathData.RoundTrip

namespace LineCharts

open PathData (Spells Stops spells_text spells_neg_text stops_cons)

/-! ### Numbers and their texts -/

/-- A decimal with so many places is read back. -/
theorem Decimal.spells_plain (negative : Bool) (c places : Nat) :
    Spells ((if negative then -c else c : Int) / 10 ^ places)
      (Decimal.mk negative c (-places)).plain.toList := by
  rw [plain, signed, magnitude_eq, String.toList_ofList]
  cases negative with
  | false =>
    have h := spells_text (numeral c places)
    rwa [numeral_value, ← Int.cast_natCast] at h
  | true =>
    have h := spells_neg_text (numeral c places)
    rwa [numeral_value, ← neg_div, ← Int.cast_natCast, ← Int.cast_neg] at h

/-- An integer is read back. -/
theorem spells_toString (n : Int) : Spells n (toString n).toList := by
  have hnat (k : Nat) : (Nat.repr k).toList = (Decimal.numeral k 0).text := by
    rw [← Decimal.magnitude_eq false, Nat.repr, String.toList_ofList]
    show _ = Nat.toDigits 10 (k * 1)
    rw [Nat.mul_one]
  cases n with
  | ofNat k =>
    have h := spells_text (Decimal.numeral k 0)
    rw [Decimal.numeral_value, ← hnat, pow_zero, div_one] at h
    exact_mod_cast h
  | negSucc k =>
    have h := spells_neg_text (Decimal.numeral (k + 1) 0)
    rw [Decimal.numeral_value, ← hnat, pow_zero, div_one] at h
    have hcast : -((k + 1 : Nat) : Rat) = (Int.negSucc k : Rat) := by
      rw [Int.cast_negSucc]
    rw [hcast] at h
    have htext : (toString (Int.negSucc k)).toList = '-' :: (Nat.repr (k + 1)).toList := by
      show ("-" ++ Nat.repr (k + 1)).toList = _
      rw [String.toList_append]
      rfl
    rwa [htext]

namespace LabelFormat

/-! ### A reader of labels -/

/-- What the units of an axis stand for.  Frequencies are in kHz and written in MHz,
times are in minutes. -/
def units : LabelFormat → List (String × Rat)
  | integer => [("", 1)]
  | frequency => [("", 1000)]
  | duration => [("\u202fd", 1440), ("\u202fh", 60), ("\u202fmin", 1)]
  | count => [("", 1), ("\u202fk", 1000), ("\u202fM", 1000000)]

/-- **The value that a label denotes**: the number in front, in the unit behind it. -/
def read? (format : LabelFormat) (label : String) : Option Rat :=
  (PathData.number? label.toList).bind fun (x, unit) =>
    (format.units.lookup (String.ofList unit)).map fun size => x * size

variable {format : LabelFormat} {x size : Rat}

theorem read?_of_spells {number unit : String} (h : Spells x number.toList)
    (hstops : Stops ('.' ∈ number.toList) unit.toList)
    (hunit : format.units.lookup unit = some size) :
    format.read? (number ++ unit) = some (x * size) := by
  rw [read?, String.toList_append, h.read _ hstops, Option.bind_some]
  dsimp only
  rw [String.ofList_toList, hunit, Option.map_some]

theorem read?_number {number : String} (h : Spells x number.toList)
    (hunit : format.units.lookup "" = some size) : format.read? number = some (x * size) := by
  have hstops : Stops ('.' ∈ number.toList) "".toList := nofun
  have hread := read?_of_spells h hstops hunit
  rwa [String.append_empty] at hread

theorem read?_withUnit {number unit : String} (h : Spells x number.toList)
    (hunit : format.units.lookup ("\u202f" ++ unit) = some size) :
    format.read? (withUnit number unit) = some (x * size) := by
  rw [withUnit, String.append_assoc]
  refine read?_of_spells h ?_ hunit
  rw [String.toList_append]
  exact stops_cons (by decide) (by decide) (fun hpoint => absurd hpoint (by decide))

example : duration.read? "1.5\u202fh" = some 90 ∧ duration.read? "?" = none := by
  decide +kernel

/-! ### Quotients -/

section

variable (α : Type) [Scalar α]

/-- Quotients of the value by divisors that are large enough for the places are written to
less than a unit of the last place. -/
def Near (v : Int) : Prop :=
  ∀ places d : Nat, 3 * 16 ^ places ≤ d → d ≤ 2 ^ 53 → ∃ n : Int,
    Spells (n / 10 ^ places) (quotient α places v d).toList ∧
      |(n : Rat) - 10 ^ places * (v / d)| < 1

end

theorem near_exact (v : Int) : Near Rat v := by
  intro places d _ _
  obtain ⟨c, hc, hnear⟩ := Exact.exists_places_eq places ((v : Rat) / (d : Int))
  have hquotient : quotient Rat places v d = Exact.places places ((v : Rat) / (d : Int)) :=
    rfl
  have hspells := Decimal.spells_plain ((v : Rat) / (d : Int) < 0) c places
  rw [← hc, ← hquotient, Int.cast_natCast] at hspells
  rw [Int.cast_natCast] at hnear
  refine ⟨_, hspells, lt_of_le_of_lt ?_ one_half_lt_one⟩
  -- the sign stands on both sides
  by_cases hneg : (v : Rat) / d < 0
  · rw [if_pos (decide_eq_true hneg), Int.cast_neg, Int.cast_natCast, ← abs_neg]
    rw [abs_of_neg hneg] at hnear
    have hsign : -(-(c : Rat) - 10 ^ places * (v / d)) = c - 10 ^ places * -(v / d) := by ring
    rwa [hsign]
  · rw [if_neg (by simpa using hneg), Int.cast_natCast]
    rwa [abs_of_nonneg (not_lt.mp hneg)] at hnear

theorem near_double {v : Int} (hnonneg : 0 ≤ v) (heven : 2 ∣ v) (hv : v ≤ 3 * 2 ^ 52) :
    Near Float v := by
  intro places d hlarge hheld
  obtain ⟨n, rfl⟩ := Int.eq_ofNat_of_zero_le hnonneg
  obtain ⟨c, hc, hnear⟩ :=
    Double.exists_quotient_eq (by omega : 2 ∣ n) (by omega) hlarge hheld
  have hspells := Decimal.spells_plain false c places
  rw [← hc] at hspells
  refine ⟨c, hspells, ?_⟩
  rwa [Int.cast_natCast, Int.cast_natCast]

variable {α : Type} [Scalar α] {v : Int}

/-- **A quotient that ends within the places is written in full.** -/
theorem Near.spells (h : Near α v) (places : Nat) {d : Nat} (hlarge : 3 * 16 ^ places ≤ d)
    (hheld : d ≤ 2 ^ 53) (hdvd : (d : Int) ∣ 10 ^ places * v) :
    Spells (v / d) (quotient α places v d).toList := by
  obtain ⟨n, hn, hnear⟩ := h places d hlarge hheld
  obtain ⟨m, hm⟩ := hdvd
  have hd : (d : Rat) ≠ 0 := by
    have hpow : 0 < 16 ^ places := by positivity
    exact_mod_cast (by omega : d ≠ 0)
  have hwhole : (10 : Rat) ^ places * (v / d) = m := by
    rw [mul_div_assoc', div_eq_iff hd, mul_comm (m : Rat)]
    exact_mod_cast hm
  rw [hwhole] at hnear
  have heq : n = m := by
    have hlt : |n - m| < 1 := by exact_mod_cast hnear
    rw [abs_lt] at hlt
    omega
  have hvalue : (n : Rat) / 10 ^ places = v / d := by
    rw [heq, ← hwhole, mul_div_cancel_left₀ _ (by positivity)]
  rwa [hvalue] at hn

/-! ### Frequencies and times -/

/-- **A frequency is read back**, if it ends within two places. -/
theorem read?_frequencyText (h : Near α v) (hv : 10 ∣ v) :
    frequency.read? (frequencyText α v) = some (v : Rat) := by
  have hvalue : (v : Rat) / (1000 : Nat) * 1000 = v := div_mul_cancel₀ _ (by norm_num)
  rw [frequencyText]
  split
  case isTrue hmod =>
    have hdvd : 100 ∣ v := Int.dvd_of_tmod_eq_zero hmod
    have hspells : Spells (v / (1000 : Nat)) (quotient α 1 v 1000).toList :=
      h.spells 1 (by norm_num) (by norm_num) (by omega)
    rw [read?_number hspells rfl, hvalue]
  case isFalse =>
    have hspells : Spells (v / (1000 : Nat)) (quotient α 2 v 1000).toList :=
      h.spells 2 (by norm_num) (by norm_num) (by omega)
    rw [read?_number hspells rfl, hvalue]

/-- The quotient of a multiple, without a place. -/
theorem spells_tdiv {d : Int} (hd : d ≠ 0) (hdvd : d ∣ v) :
    Spells (v / d) (toString (Int.tdiv v d)).toList := by
  rw [Int.tdiv_eq_ediv_of_dvd hdvd, ← Int.cast_div hdvd (Int.cast_ne_zero.mpr hd)]
  exact spells_toString (v / d)

/-- **A time is read back**, if it is a multiple of a step up to half an
hour or of whole hours. -/
theorem read?_durationText {step : Int} (h : 2 ∣ v → Near α v) (hpos : 0 < step)
    (hstep : step < 30 ∨ 30 ∣ step ∧ (step < 60 ∨ 60 ∣ step)) (hdvd : step ∣ v) :
    duration.read? (durationText α v step) = some (v : Rat) := by
  have hmax : max step 1 = step := by omega
  simp only [durationText, hmax]
  split
  case isTrue hdays =>
    have hday : 1440 ∣ v := (Int.dvd_of_emod_eq_zero hdays).trans hdvd
    rw [read?_withUnit (spells_tdiv (by norm_num) hday) rfl]
    exact congrArg some (div_mul_cancel₀ _ (by norm_num))
  case isFalse =>
  split
  case isTrue hhalves =>
    have hhalf : 720 ∣ v := (Int.dvd_of_emod_eq_zero hhalves).trans hdvd
    have hspells : Spells (v / (1440 : Nat)) (quotient α 1 v 1440).toList :=
      (h (by omega)).spells 1 (by norm_num) (by norm_num) (by omega)
    rw [read?_withUnit hspells rfl]
    exact congrArg some (div_mul_cancel₀ _ (by norm_num))
  case isFalse =>
  split
  case isTrue hhours =>
    have hhour : 60 ∣ v := (Int.dvd_of_emod_eq_zero hhours).trans hdvd
    rw [read?_withUnit (spells_tdiv (by norm_num) hhour) rfl]
    exact congrArg some (div_mul_cancel₀ _ (by norm_num))
  case isFalse hhours =>
  split
  case isTrue =>
    rw [read?_withUnit (spells_toString v) rfl, mul_one]
  case isFalse hlong =>
    -- half hours are left
    have hhalf : 30 ∣ v := by
      rcases hstep with hshort | ⟨hhalf, _⟩
      · exact absurd hshort hlong
      · exact hhalf.trans hdvd
    have hspells : Spells (v / (60 : Nat)) (quotient α 1 v 60).toList :=
      (h (by omega)).spells 1 (by norm_num) (by norm_num) (by omega)
    rw [if_pos (by omega), read?_withUnit hspells rfl]
    exact congrArg some (div_mul_cancel₀ _ (by norm_num))

/-! ### Counts -/

/-- The least count that two places behind the unit of an axis show. -/
def countGrain (last : Int) : Int :=
  if 1000000 ≤ last then 10000 else if 1000 ≤ last then 10 else 1

theorem countGrain_cases (last : Int) : last < 1000 ∧ countGrain last = 1 ∨
    (1000 ≤ last ∧ last < 1000000) ∧ countGrain last = 10 ∨
      1000000 ≤ last ∧ countGrain last = 10000 := by
  rw [countGrain]
  split
  · omega
  · split <;> omega

theorem countGrain_pos (last : Int) : 0 < countGrain last := by
  have hcases := countGrain_cases last
  omega

/-- A count in a unit is read back to less than a hundredth of the unit. -/
theorem exists_read?_scaledText (h : Near α v) {scale grain : Nat}
    (hscale : scale = 100 * grain) (hlarge : 10 ≤ grain) (hheld : grain ≤ 10000)
    {unit : String} (hunit : count.units.lookup ("\u202f" ++ unit) = some (scale : Rat)) :
    ∃ n : Int, count.read? (scaledText α v scale unit) = some ((n * grain : Int) : Rat) ∧
      |n * grain - v| < grain := by
  have hne : (scale : Rat) ≠ 0 := Nat.cast_ne_zero.mpr (by omega)
  have hexact {number : String} (hspells : Spells (v / scale) number.toList)
      (hdvd : (grain : Int) ∣ v) :
      ∃ n : Int, count.read? (withUnit number unit) = some ((n * grain : Int) : Rat) ∧
        |n * grain - v| < grain := by
    obtain ⟨n, rfl⟩ := hdvd
    refine ⟨n, ?_, ?_⟩
    · rw [read?_withUnit hspells hunit, div_mul_cancel₀ _ hne, mul_comm]
    · rw [mul_comm, sub_self, abs_zero]
      omega
  rw [scaledText]
  split
  case isTrue hmod =>
    have hdvd : (scale : Int) ∣ v := Int.dvd_of_tmod_eq_zero hmod
    refine hexact (spells_tdiv (by omega) hdvd) (dvd_trans ⟨100, ?_⟩ hdvd)
    rw [hscale]
    push_cast
    ring
  case isFalse =>
  split
  case isTrue hmod =>
    have htenth : (scale : Int) / 10 = 10 * grain := by omega
    have hdvd : (10 * grain : Int) ∣ v := htenth ▸ Int.dvd_of_tmod_eq_zero hmod
    refine hexact (h.spells 1 (by omega) (by omega) ?_)
      ((Int.dvd_mul_left 10 grain).trans hdvd)
    have hscale' : (scale : Int) = 10 * (10 * grain) := by omega
    rw [hscale', pow_one]
    exact Int.mul_dvd_mul_left 10 hdvd
  case isFalse =>
    obtain ⟨n, hspells, hnear⟩ := h 2 scale (by omega) (by omega)
    have hgrain : (0 : Rat) < grain := Nat.cast_pos.mpr (by omega)
    have hunits : (scale : Rat) = 10 ^ 2 * grain := by
      rw [hscale]
      push_cast
      norm_num
    refine ⟨n, ?_, ?_⟩
    · rw [read?_withUnit hspells hunit, hunits]
      push_cast
      congr 1
      ring
    · have hdistance : |(n : Rat) - 10 ^ 2 * (v / scale)| * grain =
          |((n * grain - v : Int) : Rat)| := by
        rw [← abs_of_pos hgrain, ← abs_mul, hunits]
        push_cast
        congr 1
        field_simp
      have hlt : |((n * grain - v : Int) : Rat)| < grain := by
        rw [← hdistance]
        exact mul_lt_of_lt_one_left hgrain hnear
      exact_mod_cast hlt

/-- **A count is read back to less than the last place of its label.** -/
theorem exists_read?_countText {last : Int} (h : 1000 ≤ last → Near α v) :
    ∃ n : Int, count.read? (countText α v last) = some ((n * countGrain last : Int) : Rat) ∧
      |n * countGrain last - v| < countGrain last := by
  have hpos := countGrain_pos last
  rw [countText]
  split
  case isTrue hzero =>
    have hspells : Spells ((0 : Int) : Rat) "0".toList := spells_toString 0
    refine ⟨0, ?_, by rw [hzero]; simpa using hpos⟩
    rw [read?_number hspells rfl]
    simp
  case isFalse =>
  rw [countGrain]
  split
  case isTrue hmillions =>
    exact exists_read?_scaledText (h (by omega)) (by norm_num : 1000000 = 100 * 10000)
      (by norm_num) (by norm_num) rfl
  case isFalse =>
  split
  case isTrue hthousands =>
    exact exists_read?_scaledText (h hthousands) (by norm_num : 1000 = 100 * 10) (by norm_num)
      (by norm_num) rfl
  case isFalse =>
    refine ⟨v, ?_, by simp⟩
    rw [read?_number (spells_toString v) rfl, mul_one, mul_one]

/-- Two labels that stand for two counts each, one in thousands and one in millions. -/
structure Collides (α : Type) [Scalar α] : Prop where
  thousands : scaledText α 8 1000 "k" = scaledText α 12 1000 "k"
  millions : scaledText α 35000 1000000 "M" = scaledText α 40000 1000000 "M"

theorem collides_exact : Collides Rat := ⟨by decide +kernel, by decide +kernel⟩

theorem collides_double : Collides Float := ⟨by decide +kernel, by decide +kernel⟩

end LabelFormat

/-! ### Labels of an axis -/

namespace AxisPlan

variable {α : Type} [Scalar α]

/-- The label of a tick. -/
def tickLabel (axis : AxisPlan α) (step v : Int) : String :=
  axis.format.text α v step axis.labelEnd

/-- Ticks apart have labels apart. -/
def ToldApart (axis : AxisPlan α) (step : Int) : Prop :=
  Set.InjOn (axis.tickLabel step) {v | v ∈ axis.ticks step}

/-- The label of each tick denotes it: nothing is rounded, ticks are told apart, and
no label is unknown. -/
structure Denoted (axis : AxisPlan α) (step : Int) : Prop where
  read : ∀ v ∈ axis.ticks step, axis.format.read? (axis.tickLabel step v) = some (v : Rat)
  apart : axis.ToldApart step
  known : ∀ v ∈ axis.ticks step, axis.tickLabel step v ≠ "?"

/-- It is enough that labels are read back. -/
theorem denoted_of_read {axis : AxisPlan α} {step : Int}
    (h : ∀ v ∈ axis.ticks step, axis.format.read? (axis.tickLabel step v) = some (v : Rat)) :
    axis.Denoted step := by
  refine ⟨h, fun v hv w hw heq => ?_, fun v hv hunknown => ?_⟩
  · have hread := (h v hv).symm.trans ((congrArg axis.format.read? heq).trans (h w hw))
    exact_mod_cast Option.some_inj.mp hread
  · have hread := h v hv
    have hnone : axis.format.read? "?" = none := by
      have hnumber : PathData.number? "?".toList = none := by decide
      rw [LabelFormat.read?, hnumber]
      rfl
    rw [hunknown, hnone] at hread
    cases hread

end AxisPlan

end LineCharts
