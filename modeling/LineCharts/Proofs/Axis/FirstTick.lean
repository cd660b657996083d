/-
The ticks of an axis of doubles are the multiples of its step.

* `Double.exists_toInt_ceil`, `Double.toInt_ceil_neg` — the multiple of a number next to a
  whole one, by a rounded quotient;
* `exists_amount_step` — a step becomes a whole number, and keeps its value up to `2 ^ 53`;
* `AxisPlan.firstTick_of_neg`, `AxisPlan.firstTick_of_nonneg` — the first tick is the first
  multiple of the step, unless this is beyond `2 ^ 53`;
* `AxisPlan.mem_ticks_of_double` — so the ticks of an axis up to there are the multiples.

Design notes.  A quotient that is rounded does not leave the whole numbers it lies between, as
long as the dividend is within `2 ^ 52`.  So the values that may have a tick start there.
-/
import LineCharts.Proofs.Axis.Multiples
import LineCharts.Proofs.Axis.Ticks
import LineCharts.Proofs.Double.Negation
import LineCharts.Proofs.Double.Quotients

namespace LineCharts

open Double

/-! ### The multiple next to a whole number -/

section

variable {y : Float} {n d : Nat} (hplus : Plus (parts y)) (hd : amount (parts y) = (d : ℚ))
  (hpos : 0 < d) (hword : d ≤ 2 ^ 63) (hn : n ≤ 2 ^ 52)
include hplus hd hpos hword hn

/-- The multiple that is not below: exact up to `2 ^ 53`, and else beyond there. -/
theorem Double.exists_toInt_ceil : ∃ k : Nat, n ≤ k * d ∧ k * d < n + d ∧
    (k * d < 2 ^ 53 → Double.toInt (Double.ceil (Double.ofNat n / y) * y + 0.0) = k * d) ∧
    (2 ^ 53 ≤ k * d →
      2 ^ 53 ≤ Double.toInt (Double.ceil (Double.ofNat n / y) * y + 0.0)) := by
  have hpos' : (0 : ℚ) < d := Nat.cast_pos.mpr hpos
  have hsmall : (n : ℚ) ≤ 2 ^ 53 := by exact_mod_cast hn.trans (by norm_num)
  have hquotient := rounds_div (rounds_ofNat n).plus hplus (amount_ofNat (by omega)) hd hpos'
  obtain ⟨a, ha, hle, _, hk⟩ := hquotient.exists_floor_quotient hn hpos hword
  have hlow := Nat.le_ceil (n / d : ℚ)
  have hhigh := Nat.ceil_lt_add_one (show (0 : ℚ) ≤ n / d by positivity)
  rw [div_le_iff₀ hpos'] at hlow
  rw [← sub_lt_iff_lt_add, lt_div_iff₀ hpos', sub_mul, one_mul, sub_lt_iff_lt_add] at hhigh
  have hlow : n ≤ ⌈(n / d : ℚ)⌉₊ * d := by exact_mod_cast hlow
  have hhigh : ⌈(n / d : ℚ)⌉₊ * d < n + d := by exact_mod_cast hhigh
  rw [← hk] at hlow hhigh
  have hle' : ⌈a⌉₊ ≤ n := Nat.ceil_le.mpr hle
  rw [ceil_eq_ofNat hquotient.plus ha (hle.trans hsmall)]
  generalize ⌈a⌉₊ = k at *
  have hproduct := rounds_mul (rounds_ofNat k).plus hplus (amount_ofNat (by omega)) hd
  rw [← Nat.cast_mul] at hproduct
  refine ⟨k, hlow, hhigh, fun hheld => ?_, fun hbeyond => ?_⟩
  · rw [hproduct.eq_ofNat hheld.le, add_zero_of_plus (rounds_ofNat _).plus,
      toInt_of_amount (rounds_ofNat _).plus (amount_ofNat hheld.le), Int.floor_natCast,
        Scalar.maxInt64]
    omega
  · have hlow := hproduct.low (representable_natCast le_rfl) (Nat.cast_le.mpr hbeyond)
    have hheld : Representable ((1 * 2 ^ 64 : Nat) : ℚ) :=
      representable_mul_pow (by norm_num) (by norm_num)
    obtain ⟨p, hp, _⟩ := hproduct.exists_amount hheld (Nat.cast_le.mpr (by omega))
    rw [hp] at hlow
    have hfloor : (2 ^ 53 : Int) ≤ ⌊p⌋ :=
      Int.le_floor.mpr (by exact_mod_cast WithTop.coe_le_coe.mp hlow)
    rw [add_zero_of_plus hproduct.plus, toInt_of_amount hproduct.plus hp, Scalar.maxInt64]
    omega

/-- The multiple that is not above, below zero. -/
theorem Double.toInt_ceil_neg :
    Double.toInt (Double.ceil (-Double.ofNat n / y) * y + 0.0) = -(n / d * d : Nat) := by
  have hpos' : (0 : ℚ) < d := Nat.cast_pos.mpr hpos
  have hsmall : (n : ℚ) ≤ 2 ^ 53 := by exact_mod_cast hn.trans (by norm_num)
  have hx := (rounds_ofNat n).plus
  have hquotient := rounds_div hx hplus (amount_ofNat (by omega)) hd hpos'
  obtain ⟨a, ha, hle, hk, _⟩ := hquotient.exists_floor_quotient hn hpos hword
  rw [Nat.floor_div_eq_div] at hk
  have hmul : n / d * d ≤ n := Nat.div_mul_le_self n d
  have hdiv : n / d ≤ n := Nat.div_le_self n d
  rw [neg_div hx hplus (amount_ofNat (by omega)) hd hpos', ceil_neg hquotient.plus ha,
    floor_eq_ofNat hquotient.plus ha (hle.trans hsmall), hk]
  have hproduct := rounds_mul (rounds_ofNat (n / d)).plus hplus (amount_ofNat (by omega)) hd
  rw [neg_mul (rounds_ofNat _).plus hplus (amount_ofNat (by omega)) hd]
  rw [← Nat.cast_mul] at hproduct
  have hfloor : ⌊((n / d * d : Nat) : ℚ)⌋ = (n / d * d : Nat) := Int.floor_natCast _
  rw [hproduct.eq_ofNat (by omega),
    toInt_neg_add_zero (rounds_ofNat _).plus (amount_ofNat (by omega)), hfloor]
  rw [hfloor, Scalar.maxInt64]
  omega

end

/-! ### The first tick -/

/-- A double from `2 ^ 53` on has no bit below the unit. -/
theorem Double.exists_natCast_of_le {x : Float} {a : ℚ} (hx : Plus (parts x))
    (ha : amount (parts x) = a) (hle : ((2 ^ 53 : Nat) : ℚ) ≤ a) : ∃ n : Nat, a = n := by
  rcases plus_cases hx ha with ⟨_, rfl⟩ | ⟨m, e, h, hparts, rfl⟩
  · exact ⟨0, Nat.cast_zero.symm⟩
  · have hm : (m : ℚ) < 2 ^ 53 := by exact_mod_cast (bounds_of_parts hparts).1
    have he : 0 ≤ e := by
      by_contra hneg
      have hpow : (2 : ℚ) ^ e ≤ 1 := zpow_le_one_of_nonpos₀ (by norm_num) (by omega)
      have hlt : (m : ℚ) * 2 ^ e < 2 ^ 53 := by
        calc (m : ℚ) * 2 ^ e ≤ m * 1 := by gcongr
          _ < 2 ^ 53 := by rwa [mul_one]
      push_cast at hle
      linarith
    obtain ⟨k, rfl⟩ := Int.eq_ofNat_of_zero_le he
    exact ⟨m * 2 ^ k, by push_cast; rw [zpow_natCast]⟩

variable {step : Int} (hpos : 0 < step) (hword : step ≤ Scalar.maxInt64)
include hpos hword

/-- A step as a double: a whole number, which is the step itself if it is not too long. -/
theorem exists_amount_step : ∃ d : Nat, amount (parts (Double.ofInt step)) = (d : ℚ) ∧
    Plus (parts (Double.ofInt step)) ∧ 0 < d ∧ d ≤ 2 ^ 63 ∧
      (d = step ∨ 2 ^ 53 < step ∧ 2 ^ 53 ≤ d) := by
  obtain ⟨n, rfl⟩ := Int.eq_ofNat_of_zero_le hpos.le
  have hplus := (rounds_ofNat n).plus
  rw [Scalar.maxInt64] at hword
  by_cases hn : n ≤ 2 ^ 53
  · exact ⟨n, amount_ofNat hn, hplus, by omega, by omega, .inl rfl⟩
  · obtain ⟨s, hrounds, hs, _⟩ := amount_ofInt_step hpos hword
    have hlow :=
      hrounds.low (representable_natCast le_rfl) (Nat.cast_le.mpr (by omega : 2 ^ 53 ≤ n))
    have hheld : Representable ((1 * 2 ^ 63 : Nat) : ℚ) :=
      representable_mul_pow (by norm_num) (by norm_num)
    have hhigh := hrounds.high hheld (Nat.cast_le.mpr (by omega : n ≤ 1 * 2 ^ 63))
    rw [hs] at hlow hhigh
    have hlow : ((2 ^ 53 : Nat) : ℚ) ≤ s := WithTop.coe_le_coe.mp hlow
    have hhigh : s ≤ ((1 * 2 ^ 63 : Nat) : ℚ) := WithTop.coe_le_coe.mp hhigh
    obtain ⟨d, rfl⟩ := exists_natCast_of_le hplus hs hlow
    have hlow := Nat.cast_le.mp hlow
    have hhigh := Nat.cast_le.mp hhigh
    exact ⟨d, hs, hplus, by omega, by omega, .inr ⟨by omega, hlow⟩⟩

namespace AxisPlan

variable {axis : AxisPlan Float}

/-- Below zero the first tick is the first multiple of the step. -/
theorem firstTick_of_neg {n : Nat} (hstart : axis.labelStart = -((n + 1 : Nat) : Int))
    (hn : n + 1 ≤ 2 ^ 52) :
    step ∣ axis.firstTick step ∧ axis.labelStart ≤ axis.firstTick step ∧
      axis.firstTick step < axis.labelStart + step := by
  obtain ⟨d, hd, hplus, hd0, hd63, hstep⟩ := exists_amount_step hpos hword
  have htick : axis.firstTick step = -((n + 1) / d * d : Nat) := by
    rw [firstTick_of_pos hpos hword, hstart]
    exact toInt_ceil_neg hplus hd hd0 hd63 hn
  have hsplit := Nat.div_add_mod' (n + 1) d
  have hrest := Nat.mod_lt (n + 1) hd0
  rw [htick, hstart]
  rcases hstep with rfl | ⟨hlong, hlarge⟩
  · refine ⟨Int.dvd_neg.mpr ?_, by omega, by omega⟩
    exact_mod_cast Nat.dvd_mul_left d ((n + 1) / d)
  · have hzero : (n + 1) / d = 0 := Nat.div_eq_of_lt (by omega)
    rw [hzero, Nat.zero_mul]
    exact ⟨dvd_zero step, by omega, by omega⟩

/-- From zero on the first multiple of the step may be too long for a double. -/
theorem firstTick_of_nonneg {n : Nat} (hstart : axis.labelStart = n) (hn : n ≤ 2 ^ 52) :
    (step ∣ axis.firstTick step ∧ axis.labelStart ≤ axis.firstTick step ∧
      axis.firstTick step < axis.labelStart + step) ∨
    2 ^ 53 ≤ axis.firstTick step ∧ ∀ v, step ∣ v → axis.labelStart ≤ v → 2 ^ 53 ≤ v := by
  obtain ⟨d, hd, hplus, hd0, hd63, hstep⟩ := exists_amount_step hpos hword
  obtain ⟨k, hlow, hhigh, hexact, hbeyond⟩ := exists_toInt_ceil hplus hd hd0 hd63 hn
  have htick : axis.firstTick step = Double.toInt
      (Double.ceil (Double.ofNat n / Double.ofInt step) * Double.ofInt step + 0.0) := by
    rw [firstTick_of_pos hpos hword, hstart]
    rfl
  have hmul : 0 < k → d ≤ k * d := fun hk => Nat.le_mul_of_pos_left d hk
  rw [← htick] at hexact hbeyond
  rw [hstart]
  by_cases hsmall : k * d < 2 ^ 53
  · left
    rw [hexact hsmall]
    rcases hstep with rfl | ⟨hlong, hlarge⟩
    · exact ⟨Int.dvd_mul_left k d, by exact_mod_cast hlow, by exact_mod_cast hhigh⟩
    · -- a step that long leads behind `2 ^ 53` at once
      obtain rfl : k = 0 := by omega
      rw [Nat.zero_mul] at hlow
      rw [Nat.cast_zero, Int.zero_mul]
      exact ⟨dvd_zero step, by omega, by omega⟩
  · right
    refine ⟨hbeyond (not_lt.mp hsmall), ?_⟩
    rintro _ ⟨j, rfl⟩ hj
    rcases hstep with rfl | ⟨hlong, hlarge⟩
    · have hkj : (k : Int) ≤ j := by
        by_contra hlt
        have hle : (d : Int) * j ≤ d * (k - 1) :=
          Int.mul_le_mul_of_nonneg_left (by omega) hpos.le
        rw [Int.mul_sub, Int.mul_one, mul_comm (d : Int) k] at hle
        have hhigh : (k * d : Int) < n + d := by exact_mod_cast hhigh
        omega
      have hle : (d : Int) * k ≤ d * j := Int.mul_le_mul_of_nonneg_left hkj hpos.le
      rw [mul_comm (d : Int) k] at hle
      have hbeyond' : (2 ^ 53 : Int) ≤ k * d := by exact_mod_cast not_lt.mp hsmall
      omega
    · have hn0 : 0 < n := by
        have hk : k ≠ 0 := by
          rintro rfl
          exact hsmall (by norm_num)
        have := hmul (Nat.pos_of_ne_zero hk)
        omega
      have hj0 : 0 < j := pos_of_mul_pos_right (a := step) (by omega) hpos.le
      have hle : step * 1 ≤ step * j := Int.mul_le_mul_of_nonneg_left (by omega) hpos.le
      omega

/-- **The ticks are the multiples of the step**, on an axis of doubles up to `2 ^ 52`. -/
theorem mem_ticks_of_double {v : Int} (hstart : |axis.labelStart| ≤ 2 ^ 52)
    (hend : axis.labelEnd < 2 ^ 53) :
    v ∈ axis.ticks step ↔ step ∣ v ∧ axis.labelStart ≤ v ∧ v ≤ axis.labelEnd := by
  have hcases : (step ∣ axis.firstTick step ∧ axis.labelStart ≤ axis.firstTick step ∧
      axis.firstTick step < axis.labelStart + step) ∨
      2 ^ 53 ≤ axis.firstTick step ∧ ∀ v, step ∣ v → axis.labelStart ≤ v → 2 ^ 53 ≤ v := by
    rw [abs_le] at hstart
    rcases Int.lt_or_le axis.labelStart 0 with hneg | hnonneg
    · obtain ⟨n, hn⟩ : ∃ n : Nat, axis.labelStart = -((n + 1 : Nat) : Int) :=
        ⟨(-axis.labelStart - 1).toNat, by omega⟩
      exact .inl (firstTick_of_neg hpos hword hn (by omega))
    · obtain ⟨n, hn⟩ := Int.eq_ofNat_of_zero_le hnonneg
      exact firstTick_of_nonneg hpos hword hn (by omega)
  rcases hcases with hfirst | ⟨hfirst, hmultiple⟩
  · exact mem_ticks_of_firstTick hpos hfirst
  · -- there is neither a tick nor a multiple
    rw [mem_ticks hpos]
    constructor
    · rintro ⟨hv, i, rfl⟩
      have hi : 0 ≤ (i : Int) * step := Int.mul_nonneg (by omega) hpos.le
      omega
    · rintro ⟨hdvd, hlow, hv⟩
      have := hmultiple v hdvd hlow
      omega

end AxisPlan

end LineCharts
