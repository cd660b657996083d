/-
Rounded quotients of whole numbers.

* `representable_div_pow` — doubles hold a grid of fractions, up to `2 ^ 53` of its steps;
* `Rounds.exists_near` — a rounded number is less than a step away on each such grid;
* `Rounds.exists_floor_quotient` — so a rounded quotient lies between the same whole
  numbers as the quotient.

Design notes.  A quotient by `d` that is no whole number is one share of `d` away from
the next one at least.  A dividend of 52 bits leaves room for a grid with steps that
are not longer than that.
-/
import LineCharts.Proofs.Double.Whole

namespace LineCharts.Double

variable {x : Float} {q : ℚ}

/-- Whole numbers up to `2 ^ 53` in units of a power of two. -/
theorem representable_div_pow {n k : Nat} (hn : n ≤ 2 ^ 53) (hk : k ≤ 1000) :
    Representable ((n : ℚ) / 2 ^ k) := by
  have hunit : (2 : ℚ) ^ (-(k : Int)) = 1 / 2 ^ k := by rw [zpow_neg, zpow_natCast, one_div]
  rcases Nat.lt_or_eq_of_le hn with hlt | rfl
  · exact ⟨n, -k, hlt, by omega, by omega, by rw [hunit, mul_one_div]⟩
  · refine ⟨2 ^ 52, 1 - k, by norm_num, by omega, by omega, ?_⟩
    rw [sub_eq_add_neg, zpow_add₀ (by norm_num), hunit]
    push_cast
    ring

/-- **A rounded number is less than a step away** on a grid that doubles hold. -/
theorem Rounds.exists_near (h : Rounds q x) {k : Nat} (hk : k ≤ 1000) (hnonneg : 0 ≤ q)
    (hle : q * 2 ^ k ≤ 2 ^ 53) : ∃ a : ℚ, amount (parts x) = a ∧ |a - q| < 1 / 2 ^ k := by
  have hpow : (0 : ℚ) < 2 ^ k := by positivity
  have hfloor : (0 : ℚ) ≤ q * 2 ^ k := by positivity
  -- the neighbours on the grid
  have hceil : ⌈q * 2 ^ k⌉₊ ≤ 2 ^ 53 := Nat.ceil_le.mpr (by exact_mod_cast hle)
  have hbelow := representable_div_pow ((Nat.floor_le_ceil (q * 2 ^ k)).trans hceil) hk
  have habove := representable_div_pow hceil hk
  have hlow := h.low hbelow ((div_le_iff₀ hpow).mpr (Nat.floor_le hfloor))
  obtain ⟨a, ha, hhigh⟩ := h.exists_amount habove ((le_div_iff₀ hpow).mpr (Nat.le_ceil _))
  rw [ha] at hlow
  have hlow : ((⌊q * 2 ^ k⌋₊ : Nat) : ℚ) ≤ a * 2 ^ k :=
    (div_le_iff₀ hpow).mp (WithTop.coe_le_coe.mp hlow)
  have hhigh : a * 2 ^ k ≤ ((⌈q * 2 ^ k⌉₊ : Nat) : ℚ) := (le_div_iff₀ hpow).mp hhigh
  refine ⟨a, ha, ?_⟩
  rw [lt_div_iff₀ hpow, ← abs_of_pos hpow, ← abs_mul, sub_mul, abs_lt]
  have hfloor_lt := Nat.lt_floor_add_one (q * 2 ^ k)
  have hceil_lt := Nat.ceil_lt_add_one hfloor
  constructor <;> linarith

/-! ### Between whole numbers -/

section

variable {c n d : Nat} (hpos : (0 : ℚ) < d)
include hpos

/-- A whole number that is above a quotient by less than a share is not above it. -/
theorem cast_le_div (h : (c : ℚ) < n / d + 1 / d) : (c : ℚ) ≤ n / d := by
  rw [← add_div, lt_div_iff₀ hpos] at h
  have hmul : c * d ≤ n := Nat.lt_succ_iff.mp (by exact_mod_cast h)
  rw [le_div_iff₀ hpos]
  exact_mod_cast hmul

/-- A whole number that is below a quotient by less than a share is not below it. -/
theorem div_le_cast (h : (n / d : ℚ) < c + 1 / d) : (n / d : ℚ) ≤ c := by
  have hshare : (c : ℚ) + 1 / d = (c * d + 1) / d := by
    rw [add_div, mul_div_cancel_right₀ _ hpos.ne']
  rw [hshare, div_lt_div_iff_of_pos_right hpos] at h
  have hmul : n ≤ c * d := Nat.lt_succ_iff.mp (by exact_mod_cast h)
  rw [div_le_iff₀ hpos]
  exact_mod_cast hmul

end

/-- A rounded quotient is less than a share away. -/
theorem Rounds.exists_near_quotient {n d : Nat} (h : Rounds (n / d) x) (hsmall : n ≤ 2 ^ 52)
    (hpos : 0 < d) (hword : d ≤ 2 ^ 63) :
    ∃ a : ℚ, amount (parts x) = a ∧ |a - n / d| < 1 / d := by
  have hpos' : (0 : ℚ) < d := Nat.cast_pos.mpr hpos
  -- a grid with steps that are shorter than a share
  have hlow : 2 ^ d.log2 ≤ d := Nat.log2_self_le hpos.ne'
  have hfew : d.log2 ≤ 63 := (Nat.pow_le_pow_iff_right (by norm_num)).mp (hlow.trans hword)
  have hroom : (n / d : ℚ) * 2 ^ (d.log2 + 1) ≤ 2 ^ 53 := by
    have hlow' : (2 : ℚ) ^ d.log2 ≤ d := by exact_mod_cast hlow
    have hsmall' : (n : ℚ) ≤ 2 ^ 52 := by exact_mod_cast hsmall
    rw [div_mul_eq_mul_div, div_le_iff₀ hpos', pow_succ]
    calc (n : ℚ) * (2 ^ d.log2 * 2) ≤ 2 ^ 52 * (d * 2) := by gcongr
      _ = 2 ^ 53 * d := by ring
  obtain ⟨a, ha, hnear⟩ := h.exists_near (by omega) (by positivity) hroom
  have hhigh : (d : ℚ) < 2 ^ (d.log2 + 1) := by exact_mod_cast Nat.lt_log2_self (n := d)
  exact ⟨a, ha, hnear.trans (by gcongr)⟩

/-- **A rounded quotient lies between the same whole numbers as the quotient.** -/
theorem Rounds.exists_floor_quotient {n d : Nat} (h : Rounds (n / d) x) (hsmall : n ≤ 2 ^ 52)
    (hpos : 0 < d) (hword : d ≤ 2 ^ 63) : ∃ a : ℚ, amount (parts x) = a ∧ a ≤ n ∧
      ⌊a⌋₊ = ⌊(n / d : ℚ)⌋₊ ∧ ⌈a⌉₊ = ⌈(n / d : ℚ)⌉₊ := by
  have hpos' : (0 : ℚ) < d := Nat.cast_pos.mpr hpos
  obtain ⟨a, ha, hshare⟩ := h.exists_near_quotient hsmall hpos hword
  obtain ⟨hbelow, habove⟩ := abs_lt.mp hshare
  have hceil : ⌈(n / d : ℚ)⌉₊ ≤ n :=
    Nat.ceil_le.mpr (div_le_self (by positivity) (Nat.one_le_cast.mpr hpos))
  -- doubles hold both neighbours, so the quotient is not rounded beyond them
  have hmin : (⌊(n / d : ℚ)⌋₊ : ℚ) ≤ a := by
    have hfloor := (Nat.floor_le_ceil (n / d : ℚ)).trans hceil
    have hlow := h.low (representable_natCast (by omega)) (Nat.floor_le (by positivity))
    rw [ha] at hlow
    exact WithTop.coe_le_coe.mp hlow
  have hmax : a ≤ ⌈(n / d : ℚ)⌉₊ := by
    have hhigh := h.high (representable_natCast (by omega)) (Nat.le_ceil _)
    rw [ha] at hhigh
    exact WithTop.coe_le_coe.mp hhigh
  have hnonneg : 0 ≤ a := (Nat.cast_nonneg _).trans hmin
  refine ⟨a, ha, hmax.trans (Nat.cast_le.mpr hceil), ?_, ?_⟩
  · have hlt : (⌊a⌋₊ : ℚ) < n / d + 1 / d := by linarith [Nat.floor_le hnonneg]
    exact le_antisymm (Nat.le_floor (cast_le_div hpos' hlt)) (Nat.le_floor hmin)
  · have hlt : (n / d : ℚ) < ⌈a⌉₊ + 1 / d := by linarith [Nat.le_ceil a]
    exact le_antisymm (Nat.ceil_le.mpr hmax) (Nat.ceil_le.mpr (div_le_cast hpos' hlt))

end LineCharts.Double
