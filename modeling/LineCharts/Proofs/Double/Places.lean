/-
Paths of doubles hold whole numbers as they are.

* `eq_ofNat_of_amount` — a whole number up to `2 ^ 53` is one double;
* `mul_ofNat`, `div_ofNat`, `add_ofNat`, `round_ofNat` — products, quotients, sums and nearest
  whole numbers that are such numbers are exact;
* `floor_eq_ofNat`, `ceil_eq_ofNat` — so are the whole numbers around a number up to `2 ^ 53`;
* `tenPow_eq_ofNat` — so is a power of ten;
* `Path.roundTo_ofNat` — so a whole number keeps its place in a path of decimal places, as
  long as its product with the unit of the path stays below `2 ^ 53`.
-/
import LineCharts.Geometry.Path
import LineCharts.Proofs.Double.Same

namespace LineCharts

namespace Double

open Float.Model (UnpackedFloat Format)
open Float.Model.UnpackedFloat

variable {x y : Float} {m n : Nat}

/-! ### One double for each number -/

/-- Doubles that are not negative are equal if they are as far from zero. -/
theorem nonneg_of_amount {a : ℚ} (ha : amount (parts x) = a) : 0 ≤ a := by
  have hzero := zero_le_amount (parts x)
  rw [ha] at hzero
  exact WithTop.coe_le_coe.1 hzero

theorem eq_of_amount (hx : Plus (parts x)) (hy : Plus (parts y))
    (h : amount (parts x) = amount (parts y)) : x = y := by
  have hcompare : (parts x).compare (parts y) = some .eq := by
    rw [compare_plus (regular_parts x) (regular_parts y) hx hy, h, Option.some_inj]
    exact compare_eq_iff_eq.mpr rfl
  exact eq_of_beq (beq_iff_compare.mpr hcompare) (ne_negZero_of_plus hx)
    (ne_negZero_of_plus hy)

theorem eq_zero_of_amount (hx : Plus (parts x)) (h : amount (parts x) = 0) : x = 0.0 := by
  refine eq_of_amount hx plus_zero ?_
  rw [h, parts_zero]
  rfl

/-- **A whole number is one double.** -/
theorem eq_ofNat_of_amount (hx : Plus (parts x)) (hn : n ≤ 2 ^ 53)
    (h : amount (parts x) = (n : ℚ)) : x = ofNat n :=
  eq_of_amount hx (rounds_ofNat n).plus (h.trans (amount_ofNat hn).symm)

/-- A whole number that a double can hold is what it is rounded to. -/
theorem Rounds.eq_ofNat (h : Rounds n x) (hn : n ≤ 2 ^ 53) : x = ofNat n :=
  eq_ofNat_of_amount h.plus hn (h.amount_eq (representable_natCast hn))

theorem ofNat_inj (hm : m ≤ 2 ^ 53) (hn : n ≤ 2 ^ 53) (h : (ofNat m == ofNat n) = true) :
    m = n := by
  have hsame : Same (ofInt m) (ofInt n) := .inr h
  have hwhole := eq_or_nonpos_of_same_ofInt (by omega) (by omega) hsame
  omega

theorem ofNat_zero : ofNat 0 = 0.0 := by decide

theorem ofNat_one : ofNat 1 = 1.0 := by decide

/-! ### Exact operations -/

theorem mul_ofNat (hm : m ≤ 2 ^ 53) (hn : n ≤ 2 ^ 53) (h : m * n ≤ 2 ^ 53) :
    ofNat m * ofNat n = ofNat (m * n) := by
  have hrounds := rounds_mul (rounds_ofNat m).plus (rounds_ofNat n).plus (amount_ofNat hm)
    (amount_ofNat hn)
  rw [← Nat.cast_mul] at hrounds
  exact hrounds.eq_ofNat h

theorem div_ofNat (hm : m ≤ 2 ^ 53) (hn : n ≤ 2 ^ 53) (h : m * n ≤ 2 ^ 53) (hpos : 0 < n) :
    ofNat (m * n) / ofNat n = ofNat m := by
  have hpos' : (0 : ℚ) < n := Nat.cast_pos.mpr hpos
  have hrounds :=
    rounds_div (rounds_ofNat (m * n)).plus (rounds_ofNat n).plus (amount_ofNat h)
      (amount_ofNat hn) hpos'
  rw [Nat.cast_mul, mul_div_cancel_right₀ _ hpos'.ne'] at hrounds
  exact hrounds.eq_ofNat hm

theorem truncate_ofNat (hn : n ≤ 2 ^ 53) : truncate (ofNat n) = ofNat n := by
  obtain ⟨hplus, hamount⟩ := truncate_of_amount (rounds_ofNat n).plus (amount_ofNat hn)
  rw [Int.floor_natCast, Int.cast_natCast] at hamount
  exact eq_ofNat_of_amount hplus hn hamount

/-- A number less itself is zero. -/
theorem sub_self_of_amount {a : ℚ} (hx : Plus (parts x)) (ha : amount (parts x) = a) :
    x - x = 0.0 := by
  have hzero : UnpackedFloat.sub .binary64 (parts x) (parts x) = .zero .positive := by
    rcases plus_cases hx ha with ⟨hxu, _⟩ | ⟨m, e, h, hxu, _⟩
    · rw [hxu]
      rfl
    · rw [hxu]
      simp only [UnpackedFloat.sub, sub_self, UnpackedFloat.normalize]
      rfl
  rw [sub_eq, hzero, ← zero_eq]

/-- A zero as a summand takes the sign off the negative zero, and nothing else. -/
theorem add_zero_cases (x : Float) : x + 0.0 = x ∨ x = -0.0 ∧ x + 0.0 = 0.0 := by
  by_cases hx : parts x = .zero .negative
  · obtain rfl := eq_negZero_of_parts hx
    exact .inr ⟨rfl, by decide⟩
  · refine .inl ?_
    have hadd : UnpackedFloat.add .binary64 (parts x) (.zero .positive) = parts x := by
      generalize parts x = u at *
      cases u with
      | zero s =>
        cases s with
        | positive => rfl
        | negative => exact absurd rfl hx
      | notANumber => rfl
      | infinity s => rfl
      | finite s m e h => rfl
    rw [add_eq, parts_zero, hadd, ofParts_parts]

theorem add_zero_of_plus (hx : Plus (parts x)) : x + 0.0 = x :=
  (add_zero_cases x).resolve_right fun hzero => ne_negZero_of_plus hx hzero.1

theorem zero_add_of_plus (hx : Plus (parts x)) : 0.0 + x = x := by
  have hadd : UnpackedFloat.add .binary64 (.zero .positive) (parts x) = parts x := by
    generalize parts x = u at *
    cases u with
    | notANumber => exact hx.elim
    | infinity s => rfl
    | zero s =>
      obtain rfl : s = .positive := hx
      rfl
    | finite s m e h => rfl
  rw [add_eq, parts_zero, hadd, ofParts_parts]

/-- A mantissa at a lesser exponent. -/
theorem mul_zpow_eq_shiftLeft (m : Nat) {e t : Int} (hte : t ≤ e) :
    (m * 2 ^ e : ℚ) = ((m <<< (e - t).toNat : Nat) : ℚ) * 2 ^ t := by
  rw [← shiftLeft_mul_zpow m e (e - t).toNat]
  congr 2
  omega

theorem rounds_add {a b : ℚ} (hx : Plus (parts x)) (hy : Plus (parts y))
    (ha : amount (parts x) = a) (hb : amount (parts y) = b) : Rounds (a + b) (x + y) := by
  rcases plus_cases hx ha with ⟨hxu, rfl⟩ | ⟨m₁, e₁, h₁, hxu, rfl⟩
  · obtain rfl : x = 0.0 := eq_zero_of_parts hxu
    rw [zero_add, zero_add_of_plus hy]
    exact rounds_self hy hb
  · rcases plus_cases hy hb with ⟨hyu, rfl⟩ | ⟨m₂, e₂, h₂, hyu, rfl⟩
    · obtain rfl : y = 0.0 := eq_zero_of_parts hyu
      rw [add_zero, add_zero_of_plus hx]
      exact rounds_self hx ha
    · rw [add_eq, hxu, hyu]
      -- both mantissas are shifted to the lesser exponent
      obtain ⟨t, ht⟩ : ∃ t, t = Min.min e₁ e₂ := ⟨_, rfl⟩
      have hsum : UnpackedFloat.add .binary64 (.finite .positive m₁ e₁ h₁)
          (.finite .positive m₂ e₂ h₂) =
          normalize .binary64 ((m₁ <<< (e₁ - t).toNat + m₂ <<< (e₂ - t).toNat : Nat) : Int) t
          .positive := by
        rw [ht]
        rfl
      rw [hsum, mul_zpow_eq_shiftLeft m₁ (show t ≤ e₁ by omega),
        mul_zpow_eq_shiftLeft m₂ (show t ≤ e₂ by omega), ← add_mul, ← Nat.cast_add]
      exact rounds_normalize _ t

theorem add_ofNat (hn : m + n ≤ 2 ^ 53) : ofNat m + ofNat n = ofNat (m + n) := by
  have hrounds :=
    rounds_add (rounds_ofNat m).plus (rounds_ofNat n).plus (amount_ofNat (by omega))
      (amount_ofNat (by omega))
  rw [← Nat.cast_add] at hrounds
  exact hrounds.eq_ofNat hn

/-- The greatest whole double that is not above. -/
theorem floor_eq_ofNat {a : ℚ} (hx : Plus (parts x)) (ha : amount (parts x) = a)
    (hle : a ≤ 2 ^ 53) :
    floor x = ofNat ⌊a⌋₊ := by
  obtain ⟨hplus, hamount⟩ := floor_of_amount hx ha
  have hnonneg := nonneg_of_amount ha
  have hn : ⌊a⌋₊ ≤ 2 ^ 53 := by exact_mod_cast (Nat.floor_le hnonneg).trans hle
  rw [← Int.natCast_floor_eq_floor hnonneg, Int.cast_natCast] at hamount
  exact eq_ofNat_of_amount hplus hn hamount

/-- The least whole double that is not below. -/
theorem ceil_eq_ofNat {a : ℚ} (hx : Plus (parts x)) (ha : amount (parts x) = a)
    (hle : a ≤ 2 ^ 53) :
    ceil x = ofNat ⌈a⌉₊ := by
  obtain ⟨hplus, hamount⟩ := truncate_of_amount hx ha
  have hnonneg := nonneg_of_amount ha
  have hlow : (⌊a⌋₊ : ℚ) ≤ a := Nat.floor_le hnonneg
  have hhigh : a < ⌊a⌋₊ + 1 := Nat.lt_floor_add_one a
  rw [← Int.natCast_floor_eq_floor hnonneg, Int.cast_natCast] at hamount
  generalize ⌊a⌋₊ = n at *
  have hn : n ≤ 2 ^ 53 := by exact_mod_cast hlow.trans hle
  have hbelow : truncate x < x ↔ (n : ℚ) < a := by
    rw [lt_iff_amount hplus hx, hamount, ha, WithTop.coe_lt_coe]
  rw [ceil]
  split
  case isTrue h =>
    have hlt := hbelow.mp h
    have hceil : ⌈a⌉₊ = n + 1 := by
      refine (Nat.ceil_eq_iff (Nat.succ_ne_zero n)).mpr ⟨hlt, ?_⟩
      push_cast
      exact hhigh.le
    have hn' : n < 2 ^ 53 := by exact_mod_cast hlt.trans_le hle
    rw [eq_ofNat_of_amount hplus hn hamount, ← ofNat_one, add_ofNat hn', hceil]
  case isFalse h =>
    have hge := not_lt.mp (hbelow.not.mp h)
    rw [eq_ofNat_of_amount hplus hn hamount, hge.antisymm hlow, Nat.ceil_natCast]

theorem round_ofNat (hn : n ≤ 2 ^ 53) : round (ofNat n) = ofNat n := by
  have hup : ¬ (0.5 : Float) ≤ 0.0 := by decide
  have hdown : ¬ (0.0 : Float) ≤ -0.5 := by decide
  rw [round, truncate_ofNat hn, sub_self_of_amount (rounds_ofNat n).plus (amount_ofNat hn)]
  rw [if_neg hup, if_neg hdown]

/-! ### Powers of ten -/

/-- A power that a double can hold is exact: so is all on the way to it but the last
square, which is not used. -/
theorem power_ofNat {b : Nat} (hb : 1 ≤ b) (hm : 1 ≤ m) (h : m * b ^ n ≤ 2 ^ 53) :
    Scalar.power (ofNat m) (ofNat b) n = ofNat (m * b ^ n) := by
  induction n using Nat.strong_induction_on generalizing m b with
  | _ n ih =>
    have hpow : 1 ≤ b ^ n := Nat.one_le_pow _ _ hb
    have hm' : m ≤ 2 ^ 53 := (Nat.le_mul_of_pos_right m hpow).trans h
    -- the factor that an odd exponent splits off
    have hodd (hn : n ≠ 0) : ofNat m * ofNat b = ofNat (m * b) := by
      have hle : m * b ≤ 2 ^ 53 := (Nat.mul_le_mul_left m (Nat.le_self_pow hn b)).trans h
      exact mul_ofNat hm' ((Nat.le_mul_of_pos_left b hm).trans hle) hle
    rw [Scalar.power]
    split
    case isTrue hn => rw [hn, pow_zero, mul_one]
    case isFalse hn =>
      rcases Nat.lt_or_ge n 2 with hlt | hge
      · obtain rfl : n = 1 := by omega
        rw [if_pos rfl, Scalar.power, if_pos rfl, hodd hn, pow_one]
      · have hhalf : b ^ n = b ^ (n % 2) * (b * b) ^ (n / 2) := by
          rw [← pow_two, ← pow_mul, ← pow_add, Nat.mod_add_div]
        have hsquare : b * b ≤ 2 ^ 53 :=
          calc b * b = b ^ 2 := (pow_two b).symm
            _ ≤ b ^ n := Nat.pow_le_pow_right hb hge
            _ ≤ m * b ^ n := Nat.le_mul_of_pos_left _ hm
            _ ≤ 2 ^ 53 := h
        have hb' : b ≤ 2 ^ 53 := (Nat.le_mul_of_pos_left b hb).trans hsquare
        have hbb : 1 ≤ b * b := Nat.mul_pos hb hb
        rw [hhalf] at h ⊢
        rw [mul_ofNat hb' hb' hsquare]
        rcases Nat.mod_two_eq_zero_or_one n with h0 | h1
        · rw [h0, pow_zero, one_mul] at h ⊢
          rw [if_neg zero_ne_one, ih (n / 2) (by omega) hbb hm h]
        · rw [h1, pow_one, ← mul_assoc] at h ⊢
          rw [if_pos rfl, hodd hn, ih (n / 2) (by omega) hbb (Nat.mul_pos hm hb) h]

theorem tenPow_eq_ofNat {digits : Nat} (h : 10 ^ digits ≤ 2 ^ 53) :
    (Scalar.tenPow digits : Float) = ofNat (10 ^ digits) := by
  have hten : (10.0 : Float) = ofNat 10 := by decide
  rw [← one_mul (10 ^ digits)] at h ⊢
  rw [← power_ofNat (by norm_num) le_rfl h, ofNat_one, ← hten]
  rfl

end Double

/-- **A whole number keeps its place in a path of doubles.** -/
theorem Path.roundTo_ofNat {digits n : Nat} (hunit : 10 ^ digits ≤ 2 ^ 53)
    (h : n * 10 ^ digits ≤ 2 ^ 53) :
    Path.roundTo (Scalar.tenPow digits) (Double.ofNat n) = Double.ofNat n := by
  have hpos : 0 < 10 ^ digits := by positivity
  have hn : n ≤ 2 ^ 53 := (Nat.le_mul_of_pos_right n hpos).trans h
  rw [Double.tenPow_eq_ofNat hunit, roundTo, Double.mul_ofNat hn hunit h]
  show Double.round (Double.ofNat (n * 10 ^ digits)) / Double.ofNat (10 ^ digits) + 0.0 = _
  rw [Double.round_ofNat h, Double.div_ofNat hn hunit h hpos,
    Double.add_zero_of_plus (Double.rounds_ofNat n).plus]

end LineCharts
