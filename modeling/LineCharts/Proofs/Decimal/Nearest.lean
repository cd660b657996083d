/-
A number with a fixed number of places is written by the decimal nearest to it.

* `Decimal.abs_divEven_sub_le` — rounding a quotient to a natural number
  moves it by a half at most;
* `Exact.exists_places_eq` — so a rational is written to half a unit of the last place;
* `Double.exists_places_eq` — and a double that is not negative, by its exact value;
* `Double.exists_quotient_eq` — so a quotient of doubles is written to less than a
  unit of the last place.

Design notes.  The quotient is rounded twice, first to a double and then to the places.  Each
place takes less than four bits, so the first error is below half a unit as long as the bits
in front of the point leave room for them.
-/
import LineCharts.Axis.Label
import LineCharts.Proofs.Decimal.Exact
import LineCharts.Proofs.Double.Quotients

namespace LineCharts

/-! ### Quotients of natural numbers -/

theorem Decimal.abs_divEven_sub_le (num : Nat) {den : Nat} (hden : 0 < den) :
    |(divEven num den : ℚ) - num / den| ≤ 1 / 2 := by
  have hpos : (0 : ℚ) < den := Nat.cast_pos.mpr hden
  -- the quotient is its whole part and the share of the remainder
  obtain ⟨q, r, hq, hr, hlt⟩ : ∃ q r, q = num / den ∧ r = num % den ∧ r < den :=
    ⟨_, _, rfl, rfl, Nat.mod_lt num hden⟩
  have hsplit : (num : ℚ) / den = q + r / den := by
    rw [div_eq_iff hpos.ne', add_mul, div_mul_cancel₀ _ hpos.ne', hq, hr]
    exact_mod_cast (Nat.div_add_mod' num den).symm
  have hshare : (r : ℚ) / den * 2 = (2 * r : Nat) / den := by
    push_cast
    ring
  have hbelow (h : 2 * r ≤ den) : |(q : ℚ) - num / den| ≤ 1 / 2 := by
    have hle : ((2 * r : Nat) : ℚ) / den ≤ 1 := (div_le_one hpos).mpr (Nat.cast_le.mpr h)
    have hnonneg : (0 : ℚ) ≤ r / den := by positivity
    rw [hsplit, abs_le]
    constructor <;> linarith
  have habove (h : den ≤ 2 * r) : |((q + 1 : Nat) : ℚ) - num / den| ≤ 1 / 2 := by
    have hle : 1 ≤ ((2 * r : Nat) : ℚ) / den := (one_le_div hpos).mpr (Nat.cast_le.mpr h)
    have hone : (r : ℚ) / den ≤ 1 := (div_le_one hpos).mpr (Nat.cast_le.mpr hlt.le)
    rw [hsplit, abs_le]
    push_cast
    constructor <;> linarith
  rw [divEven, ← hq, ← hr]
  split
  case isTrue h => exact hbelow h.le
  case isFalse h =>
    split
    case isTrue h' => exact habove h'.le
    case isFalse h' =>
      split
      · exact hbelow (not_lt.mp h')
      · exact habove (not_lt.mp h)

/-! ### Rationals -/

/-- A rational is written to half a unit of the last place. -/
theorem Exact.exists_places_eq (count : Nat) (x : ℚ) : ∃ c : Nat,
    places count x = (Decimal.mk (x < 0) c (-count)).plain ∧
      |(c : ℚ) - (10 ^ count * |x|)| ≤ 1 / 2 := by
  refine ⟨Decimal.divEven (x.num.natAbs * 10 ^ count) x.den, rfl, ?_⟩
  have hsize : (10 : ℚ) ^ count * |x| = ((x.num.natAbs * 10 ^ count : Nat) : ℚ) / x.den := by
    rw [abs_eq_natAbs_div, mul_div_assoc', mul_comm]
    push_cast
    rfl
  rw [hsize]
  exact Decimal.abs_divEven_sub_le _ x.den_pos

/-! ### Doubles -/

/-- The quotient of natural numbers that stands for a finite double in
units of the last place. -/
theorem Dyad.scaled_eq (x : Dyad) (places : Nat) : 0 < (x.scaled places).2 ∧
    ((x.scaled places).1 : ℚ) / (x.scaled places).2 =
      10 ^ places * (x.mantissa * 2 ^ x.exponent) := by
  obtain ⟨m, e, narrow⟩ := x
  cases e with
  | ofNat n =>
    refine ⟨Nat.one_pos, ?_⟩
    show ((m * 2 ^ n * 10 ^ places : Nat) : ℚ) / (1 : Nat) = 10 ^ places * (m * 2 ^ (n : Int))
    rw [zpow_natCast]
    push_cast
    ring
  | negSucc n =>
    refine ⟨Nat.two_pow_pos (n + 1), ?_⟩
    show ((m * 10 ^ places : Nat) : ℚ) / ((2 ^ (n + 1) : Nat) : ℚ) =
      10 ^ places * (m * 2 ^ Int.negSucc n)
    rw [zpow_negSucc]
    push_cast
    ring

namespace Double

open Float.Model (UnpackedFloat Format)
open Float.Model.UnpackedFloat

variable {x : Float} {a q : ℚ}

/-- The field of the fraction. -/
theorem toNat_fraction (b : UInt64) : (b &&& 0xfffffffffffff).toNat = b.toNat % 2 ^ 52 := by
  rw [UInt64.toNat_and]
  show b.toNat &&& (2 ^ 52 - 1) = _
  rw [Nat.and_two_pow_sub_one_eq_mod]

/-- The bits of a finite double tell its mantissa and its exponent. -/
theorem ofBits_of_parts {s : Sign} {m : Nat} {e : Int} {h : 0 < m}
    (hx : parts x = .finite s m e h) :
    (Dyad.ofBits x.toBits).mantissa = m ∧ (Dyad.ofBits x.toBits).exponent = e := by
  obtain ⟨hm, hlow, hnormal, hhigh⟩ := bounds_of_parts hx
  obtain ⟨c, hc⟩ := signBit_eq s
  have hbits := toBits_of_parts hx
  have hfraction := toNat_fraction x.toBits
  have hpower := toNat_power x.toBits
  rw [Dyad.ofBits, hpower, hfraction, hbits]
  -- the field of the exponent is zero just where bits of the mantissa are missing
  by_cases hfull : 2 ^ 52 ≤ m
  · rw [if_neg (by omega)]
    constructor <;> dsimp only <;> omega
  · rw [if_pos (by omega)]
    constructor <;> dsimp only <;> omega

/-- **A double that is not negative is written to half a unit of the last place.** -/
theorem exists_places_eq (count : Nat) (hx : Plus (parts x)) (ha : amount (parts x) = a) :
    ∃ c : Nat, places count x = (Decimal.mk false c (-count)).plain ∧
      |(c : ℚ) - 10 ^ count * a| ≤ 1 / 2 := by
  have hnumber : x.isNaN = false ∧ x.isInf = false := by
    show (parts x).isNaN = false ∧ (parts x).isInf = false
    rcases plus_cases hx ha with ⟨hxu, _⟩ | ⟨m, e, h, hxu, _⟩
    · rw [hxu]
      exact ⟨rfl, rfl⟩
    · rw [hxu]
      exact ⟨rfl, rfl⟩
  have hwritten : places count x = (Decimal.rounded count x.toBits).plain := by
    rw [places, written, hnumber.1, hnumber.2]
    rfl
  obtain ⟨hpos, hscaled⟩ := Dyad.scaled_eq (Dyad.ofBits x.toBits) count
  obtain ⟨hsign, hvalue⟩ : (x.toBits >>> 63 == 1) = false ∧
      ((Dyad.ofBits x.toBits).mantissa : ℚ) * 2 ^ (Dyad.ofBits x.toBits).exponent = a := by
    rcases plus_cases hx ha with ⟨hxu, rfl⟩ | ⟨m, e, h, hxu, rfl⟩
    · obtain rfl : x = 0.0 := eq_zero_of_parts hxu
      have hzero : (Dyad.ofBits (0.0 : Float).toBits).mantissa = 0 := by decide
      rw [hzero, Nat.cast_zero, zero_mul]
      exact ⟨by decide, rfl⟩
    · obtain ⟨hm, he⟩ := ofBits_of_parts hxu
      obtain ⟨hlt, hlow, _, hhigh⟩ := bounds_of_parts hxu
      rw [hm, he]
      refine ⟨beq_eq_false_iff_ne.mpr fun hone => ?_, rfl⟩
      have htop : x.toBits.toNat >>> 63 = 1 := by
        rw [← UInt64.toNat_ofNat_of_lt (n := 1) (by decide)]
        exact (UInt64.toNat_shiftRight _ _).symm.trans (congrArg UInt64.toNat hone)
      rw [toBits_of_parts hxu, signBit, Nat.shiftRight_eq_div_pow] at htop
      omega
  have hnear := Decimal.abs_divEven_sub_le ((Dyad.ofBits x.toBits).scaled count).1 hpos
  rw [hscaled, hvalue] at hnear
  exact ⟨_, by rw [hwritten, Decimal.rounded, hsign], hnear⟩

/-! ### Rounded quotients -/

/-- **A quotient of whole numbers is written to less than a unit of the last place**, if the
divisor is large enough for the places. -/
theorem exists_quotient_eq {places v d : Nat} (heven : 2 ∣ v) (hv : v ≤ 3 * 2 ^ 52)
    (hd : 3 * 16 ^ places ≤ d) (hd' : d ≤ 2 ^ 53) :
    ∃ c : Nat, LabelFormat.quotient Float places v d = (Decimal.mk false c (-places)).plain ∧
      |(c : ℚ) - 10 ^ places * (v / d)| < 1 := by
  have hpos : (0 : ℚ) < d := by
    have hpow : 0 < 16 ^ places := by positivity
    exact_mod_cast (by omega : 0 < d)
  -- both numbers are doubles
  have hnum : amount (parts (ofInt v)) = ((v : ℚ) : WithTop ℚ) := by
    obtain ⟨n, rfl⟩ := heven
    refine (rounds_ofNat (2 * n)).amount_eq ?_
    have hheld := representable_mul_pow (g := n) (k := 1) (by omega) (by norm_num)
    rwa [pow_one, mul_comm] at hheld
  have hden : amount (parts (ofInt d)) = ((d : ℚ) : WithTop ℚ) := amount_ofNat hd'
  have hquotient : Rounds ((v : ℚ) / d) (ofInt v / ofInt d) :=
    rounds_div (rounds_ofNat v).plus (rounds_ofNat d).plus hnum hden hpos
  -- sixteen steps of the grid for each digit, and two more
  have hgrid : (2 : ℚ) ^ (4 * places + 1) = 2 * 16 ^ places := by
    rw [pow_succ, pow_mul]
    norm_num [mul_comm]
  have hroom : (v : ℚ) / d * 2 ^ (4 * places + 1) ≤ 2 ^ 53 := by
    have hv' : (v : ℚ) ≤ 3 * 2 ^ 52 := by exact_mod_cast hv
    have hd'' : (3 : ℚ) * 16 ^ places ≤ d := by exact_mod_cast hd
    rw [div_mul_eq_mul_div, div_le_iff₀ hpos, hgrid]
    calc (v : ℚ) * (2 * 16 ^ places) ≤ 3 * 2 ^ 52 * (2 * 16 ^ places) := by gcongr
      _ = 2 ^ 53 * (3 * 16 ^ places) := by ring
      _ ≤ 2 ^ 53 * d := by gcongr
  have hplaces : 4 * places + 1 ≤ 1000 := by
    have hlt : 16 ^ places < 16 ^ 14 := by omega
    have hfew := (Nat.pow_lt_pow_iff_right (by norm_num)).mp hlt
    omega
  obtain ⟨a, ha, hnear⟩ := hquotient.exists_near hplaces (by positivity) hroom
  obtain ⟨c, hc, hwritten⟩ := exists_places_eq places hquotient.plus ha
  refine ⟨c, hc, ?_⟩
  have hdigits : (10 : ℚ) ^ places ≤ 16 ^ places := by gcongr; norm_num
  have hfirst : 10 ^ places * |a - v / d| < 1 / 2 := by
    calc (10 : ℚ) ^ places * |a - v / d| < 10 ^ places * (1 / 2 ^ (4 * places + 1)) := by
          gcongr
      _ ≤ 16 ^ places * (1 / 2 ^ (4 * places + 1)) := by gcongr
      _ = 1 / 2 := by
        rw [hgrid]
        field_simp
  calc |(c : ℚ) - 10 ^ places * (v / d)|
      = |(c - 10 ^ places * a) + 10 ^ places * (a - v / d)| := by congr 1; ring
    _ ≤ |c - 10 ^ places * a| + |10 ^ places * (a - v / d)| := abs_add_le _ _
    _ = |c - 10 ^ places * a| + 10 ^ places * |a - v / d| := by
      rw [abs_mul (10 ^ places), abs_of_pos (by positivity : (0 : ℚ) < 10 ^ places)]
    _ < 1 := by linarith

end Double

end LineCharts
