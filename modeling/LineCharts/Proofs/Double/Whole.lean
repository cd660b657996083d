/-
Whole numbers and doubles.

* `rounds_ofNat`, `rounds_ofInt` — a whole number becomes a double next to it; up to `2 ^ 53`
  it becomes the double of the same amount (`amount_ofNat`);
* `toInt_of_amount` — the whole part of a double that is not negative, held within a word;
* `toInt_floor` — the greatest whole double that is not above has the same whole part.

Design notes.  The bits of a double are its sign, its exponent and its mantissa side
by side, in one sum (`toBits_of_parts`); clearing the lowest bits of the sum clears
those of the mantissa.
-/
import LineCharts.Proofs.Double.Sign

namespace LineCharts.Double

open Float.Model (UnpackedFloat Format totalExponent)
open Float.Model.UnpackedFloat

variable {q a : ℚ} {x : Float}

/-! ### From whole numbers -/

theorem log2_shiftLeft {m : Nat} (hm : 0 < m) (k : Nat) : (m <<< k).log2 = m.log2 + k := by
  have hle := Nat.log2_self_le (Nat.ne_of_gt hm)
  have hlt : m < 2 ^ (m.log2 + 1) := Nat.lt_log2_self
  have hpos := Nat.two_pow_pos k
  rw [Nat.shiftLeft_eq, Nat.log2_eq_iff (Nat.mul_pos hm hpos).ne']
  rw [pow_add, show m.log2 + k + 1 = m.log2 + 1 + k by omega, pow_add _ (m.log2 + 1)]
  exact ⟨Nat.mul_le_mul_right _ hle, Nat.mul_lt_mul_of_pos_right hlt hpos⟩

theorem shiftLeft_mul_zpow (m : Nat) (e : Int) (k : Nat) :
    ((m <<< k : Nat) : ℚ) * 2 ^ (e - (k : Int)) = m * 2 ^ e := by
  rw [Nat.shiftLeft_eq, Nat.cast_mul, Nat.cast_pow, Nat.cast_ofNat, zpow_sub₀ (by norm_num),
    zpow_natCast]
  field_simp

/-- Rounding shifts a mantissa no further than to the exponent of its result. -/
theorem le_target_shiftLeft {m : Nat} (hm : 0 < m) (e : Int) :
    e - ((e - target m e).toNat : Int) ≤
      target (m <<< (e - target m e).toNat) (e - (e - target m e).toNat) := by
  generalize hk : (e - target m e).toNat = k
  rw [target_eq] at hk ⊢
  rw [log2_shiftLeft hm]
  push_cast
  omega

theorem rounds_round {m : Nat} (hm : 0 < m) (e : Int) :
    Rounds (m * 2 ^ e) (ofParts (.round .binary64 .positive m e)) := by
  show Rounds _ (ofParts (roundWithAccuracy .binary64 .positive (m <<< (e - target m e).toNat)
    (e - (e - target m e).toNat) .exact))
  rw [← shiftLeft_mul_zpow m e (e - target m e).toNat]
  exact rounds_roundWithAccuracy (describes_exact _ _) (le_target_shiftLeft hm e)

theorem rounds_normalize (n : Nat) (e : Int) :
    Rounds (n * 2 ^ e) (ofParts (normalize .binary64 (n : Int) e .positive)) := by
  rcases Nat.eq_zero_or_pos n with rfl | hn
  · rw [Nat.cast_zero, zero_mul]
    exact rounds_zero
  · have hgt : compare (n : Int) 0 = .gt := compare_gt_iff_gt.2 (Int.natCast_pos.2 hn)
    rw [UnpackedFloat.normalize, hgt]
    exact rounds_round hn e

theorem rounds_ofScientific {n : Nat} (hn : 0 < n) :
    Rounds n (ofParts (.ofScientific .binary64 n 0)) := by
  have hbits : (2 : Int) ^ Format.binary64.exponentBits = 2048 := rfl
  have hproduct : UnpackedFloat.ofScientific .binary64 n 0 =
      roundWithAccuracy .binary64 .positive (n <<< 53 * 1) (-53) .exact := by
    rw [UnpackedFloat.ofScientific, dif_neg hn.ne', if_neg (by omega), if_neg (by omega),
      if_pos (le_refl _)]
    rfl
  have hquotient : ((n <<< 53 : Nat) : ℚ) * 2 ^ (-53 : Int) = n := by
    have h := shiftLeft_mul_zpow n 0 53
    rwa [zpow_zero, mul_one, show (0 : Int) - (53 : Nat) = -53 from rfl] at h
  rw [hproduct, mul_one, ← hquotient]
  refine rounds_roundWithAccuracy (describes_exact _ _) ?_
  rw [target_eq, log2_shiftLeft hn]
  omega

/-- A whole number becomes a double next to it. -/
theorem rounds_ofNat (n : Nat) : Rounds n (ofNat n) := by
  rw [ofNat]
  by_cases hn : n < UInt64.size
  · rw [if_pos hn]
    have hword : (UInt64.ofNat n).toNat = n := UInt64.toNat_ofNat_of_lt' hn
    show Rounds n (ofParts (normalize .binary64 ((UInt64.ofNat n).toNat : Int) 0 .positive))
    rw [hword]
    have h := rounds_normalize n 0
    rwa [zpow_zero, mul_one] at h
  · have hsize : UInt64.size = 2 ^ 64 := rfl
    have hslow : ¬ (n < 2 ^ 53 ∧ 0 ≤ 22) := by omega
    rw [if_neg hn, Float.ofScientific, dif_neg hslow]
    exact rounds_ofScientific (by omega)

theorem rounds_ofInt {n : Int} (hpos : 0 ≤ n) : Rounds n (ofInt n) := by
  obtain ⟨k, rfl⟩ := Int.eq_ofNat_of_zero_le hpos
  exact_mod_cast rounds_ofNat k

/-- Whole numbers up to `2 ^ 53` are kept. -/
theorem amount_ofNat {n : Nat} (hn : n ≤ 2 ^ 53) : amount (parts (ofNat n)) = (n : ℚ) :=
  (rounds_ofNat n).amount_eq (representable_natCast hn)

theorem parts_one : ∃ h, parts 1.0 = .finite .positive (2 ^ 52) (-52) h := by
  have hone : (1.0 : Float) = ofParts (.finite .positive (2 ^ 52) (-52) (by decide)) := by
    decide
  have hregular : Regular (.finite .positive (2 ^ 52) (-52) (by decide)) := by
    exact ⟨by norm_num, by norm_num, .inl (le_refl _)⟩
  refine ⟨by decide, ?_⟩
  rw [hone, parts_ofParts hregular]
  rfl

theorem amount_one : amount (parts 1.0) = ((1 : ℚ) : WithTop ℚ) := by
  obtain ⟨h, hone⟩ := parts_one
  rw [hone, amount]
  norm_num

theorem plus_one : Plus (parts 1.0) := by
  obtain ⟨h, hone⟩ := parts_one
  rw [hone]
  rfl

/-! ### To whole numbers -/

/-- The whole part of a mantissa at an exponent. -/
theorem roundToInt_positive (m : Nat) (e : Int) :
    ∃ w : Nat, roundToInt .positive m e = w ∧ w ≤ (m * 2 ^ e : ℚ) ∧
      (m * 2 ^ e : ℚ) < w + 1 := by
  have hup := describes_exact (m <<< (e - 0).toNat) (e - (e - 0).toNat)
  have hdown := hup.shiftRight (0 - (e - (e - 0).toNat)).toNat
  have hzero : e - ((e - 0).toNat : Int) + ((0 - (e - (e - 0).toNat)).toNat : Int) = 0 := by
    omega
  rw [hzero, shiftLeft_mul_zpow] at hdown
  refine ⟨_, rfl, ?_, ?_⟩
  · simpa using hdown.low
  · simpa using hdown.high

theorem saturate_natCast (n : Nat) :
    Scalar.saturate n = Min.min (n : Int) Scalar.maxInt64 := by
  rw [Scalar.saturate, Scalar.minInt64, Scalar.maxInt64]
  omega

theorem toUInt64_of_parts {w : Nat} (hx : (parts x).toInt 0 (UInt64.size - 1) = w) :
    x.toUInt64.toNat = Min.min w (2 ^ 64 - 1) := by
  show (UInt64.ofNatClamp ((parts x).toInt 0 (UInt64.size - 1)).toNat).toNat = _
  rw [hx, Int.toNat_natCast, UInt64.ofNatClamp]
  split
  case isTrue h =>
    rw [UInt64.toNat_ofNatLT]
    have hsize : UInt64.size = 2 ^ 64 := rfl
    omega
  case isFalse h =>
    have hsize : UInt64.size = 2 ^ 64 := rfl
    rw [show (UInt64.ofNatLT (UInt64.size - 1) (by decide)).toNat = 2 ^ 64 - 1 from rfl]
    omega

/-- The whole part as an unsigned word. -/
theorem toUInt64_of_amount (hx : Plus (parts x)) (ha : amount (parts x) = a) :
    (x.toUInt64.toNat : Int) = Min.min ⌊a⌋ (2 ^ 64 - 1) := by
  rcases plus_cases hx ha with ⟨hxu, rfl⟩ | ⟨m, e, h, hxu, rfl⟩
  · rw [toUInt64_of_parts (w := 0) (by rw [hxu]; rfl), Int.floor_zero]
    omega
  · obtain ⟨w, hw, hlow, hhigh⟩ := roundToInt_positive m e
    have hfloor : ⌊(m * 2 ^ e : ℚ)⌋ = w :=
      Int.floor_eq_iff.2 ⟨by simpa using hlow, by simpa using hhigh⟩
    rw [toUInt64_of_parts (w := w) (by rw [hxu]; exact hw), hfloor]
    omega

/-- The whole part, if it fits into a word. -/
theorem toInt_of_amount (hx : Plus (parts x)) (ha : amount (parts x) = a) :
    toInt x = Min.min ⌊a⌋ Scalar.maxInt64 := by
  rw [toInt, if_neg (not_lt_zero hx), saturate_natCast, toUInt64_of_amount hx ha,
    Scalar.maxInt64]
  omega

/-! ### The bits -/

/-- The highest bit, for a number with the sign. -/
def signBit : Sign → Nat
  | .positive => 0
  | .negative => 2 ^ 63

theorem toNat_components (s : Sign) (e : BitVec 11) (m : BitVec 52) :
    (packComponents .binary64 s e m).toNat = signBit s + (e.toNat * 2 ^ 52 + m.toNat) := by
  have happend (b : BitVec 1) :
      (b ++ e ++ m).toNat = (b.toNat * 2 ^ 11 + e.toNat) * 2 ^ 52 + m.toNat := by
    rw [BitVec.toNat_append, ← Nat.shiftLeft_add_eq_or_of_lt m.isLt, BitVec.toNat_append,
      ← Nat.shiftLeft_add_eq_or_of_lt e.isLt, Nat.shiftLeft_eq, Nat.shiftLeft_eq]
  cases s with
  | positive =>
    refine (happend 0#1).trans ?_
    rw [signBit, BitVec.toNat_zero]
    omega
  | negative =>
    refine (happend 1#1).trans ?_
    rw [signBit, BitVec.toNat_one (by decide)]
    omega

/-- Sign, exponent and mantissa stand side by side; the implicit bit of the mantissa counts
for one in the exponent. -/
theorem toBits_ofParts {s : Sign} {m : Nat} {e : Int} (h : 0 < m)
    (hu : Regular (.finite s m e h)) (he : e ≤ 971) :
    (ofParts (.finite s m e h)).toBits.toNat =
      signBit s + ((e + 1074).toNat * 2 ^ 52 + m) := by
  show (pack .binary64 (.finite s m e h)).toNat = _
  rw [pack_finite s h hu, if_neg (by omega), toNat_components]
  obtain ⟨hm, hlow, hnormal⟩ := hu
  by_cases hbits : 2 ^ 52 ≤ m
  · rw [if_pos hbits, BitVec.toNat_ofNat, BitVec.toNat_ofNat]
    omega
  · rw [if_neg hbits, BitVec.toNat_ofNat, BitVec.toNat_ofNat]
    omega

/-- Clearing the lowest `j` bits of a word. -/
theorem toNat_and_mask (b : UInt64) {j : UInt64} (hj : j.toNat < 64) :
    (b &&& 0xffffffffffffffff <<< j).toNat = b.toNat / 2 ^ j.toNat * 2 ^ j.toNat := by
  rw [UInt64.toNat_and, UInt64.toNat_shiftLeft, Nat.mod_eq_of_lt hj,
    ← Nat.shiftRight_eq_div_pow, ← Nat.shiftLeft_eq]
  show b.toNat &&& (2 ^ 64 - 1) <<< j.toNat % 2 ^ 64 = _
  refine Nat.eq_of_testBit_eq fun i => ?_
  rw [Nat.testBit_and, Nat.testBit_mod_two_pow, Nat.testBit_shiftLeft, Nat.testBit_shiftLeft,
    Nat.testBit_shiftRight, Nat.testBit_two_pow_sub_one]
  by_cases hi : j.toNat ≤ i
  · rw [show j.toNat + (i - j.toNat) = i by omega]
    by_cases hlt : i < 64
    · simp [hi, hlt]
      omega
    · have hpow : 2 ^ 64 ≤ 2 ^ i := Nat.pow_le_pow_right (by norm_num) (by omega)
      have hbit : b.toNat.testBit i = false :=
        Nat.testBit_lt_two_pow (Nat.lt_of_lt_of_le b.toNat_lt hpow)
      simp [hbit]
  · simp [hi]

/-- The field of the exponent. -/
theorem toNat_power (b : UInt64) :
    ((b >>> 52) &&& 0x7ff).toNat = b.toNat / 2 ^ 52 % 2 ^ 11 := by
  rw [UInt64.toNat_and, UInt64.toNat_shiftRight]
  show b.toNat >>> 52 &&& (2 ^ 11 - 1) = _
  rw [Nat.and_two_pow_sub_one_eq_mod, Nat.shiftRight_eq_div_pow]

theorem ofBits_of_toNat {b : UInt64} {x : Float} (h : b.toNat = x.toBits.toNat) :
    Float.ofBits b = x := by
  rw [UInt64.toNat_inj.1 h, Float.ofBits_toBits]

/-- A mantissa keeps its highest bit when its lowest are cleared. -/
theorem clear_mantissa {m k : Nat} (hk : k ≤ 52) (hm : 2 ^ 52 ≤ m) :
    2 ^ 52 ≤ m / 2 ^ k * 2 ^ k ∧ m / 2 ^ k * 2 ^ k ≤ m := by
  have hunit : 2 ^ 52 = 2 ^ (52 - k) * 2 ^ k := by
    rw [← pow_add, Nat.sub_add_cancel (by omega)]
  refine ⟨?_, Nat.div_mul_le_self m _⟩
  rw [hunit] at hm ⊢
  exact Nat.mul_le_mul_right _ ((Nat.le_div_iff_mul_le (Nat.two_pow_pos k)).2 hm)

section

variable {s : Sign} {m : Nat} {e : Int} {h : 0 < m}

/-- The sign is above all other fields. -/
theorem signBit_eq (s : Sign) : ∃ c, signBit s = c * 2 ^ 63 := by
  cases s with
  | positive => exact ⟨0, rfl⟩
  | negative => exact ⟨1, rfl⟩

theorem toBits_of_parts (hx : parts x = .finite s m e h) :
    x.toBits.toNat = signBit s + ((e + 1074).toNat * 2 ^ 52 + m) := by
  obtain ⟨hm, hlow, hnormal, hhigh⟩ := bounds_of_parts hx
  rw [← ofParts_parts x, hx]
  exact toBits_ofParts h ⟨hm, hlow, hnormal⟩ hhigh

/-- The field of the exponent of a normal number. -/
theorem power_of_parts (hx : parts x = .finite s m e h) (hm : 2 ^ 52 ≤ m) :
    ((x.toBits >>> 52) &&& 0x7ff).toNat = (e + 1075).toNat := by
  obtain ⟨hlt, hlow, _, hhigh⟩ := bounds_of_parts hx
  obtain ⟨c, hc⟩ := signBit_eq s
  rw [toNat_power, toBits_of_parts hx]
  omega

/-- Below one nothing is left but the sign. -/
theorem truncate_small (hx : parts x = .finite s m e h) (he : e < -52 ∨ m < 2 ^ 52) :
    truncate x = ofParts (.zero s) := by
  have hbits := toBits_of_parts hx
  have hpower := toNat_power x.toBits
  obtain ⟨hm, hlow, hnormal, hhigh⟩ := bounds_of_parts hx
  obtain ⟨c, hc⟩ := signBit_eq s
  have hsmall : (x.toBits >>> 52) &&& 0x7ff < 1023 := by
    rw [UInt64.lt_iff_toNat_lt, hpower]
    show _ < 1023
    omega
  rw [truncate, if_pos hsmall]
  refine ofBits_of_toNat ?_
  rw [UInt64.toNat_and]
  show x.toBits.toNat &&& 2 ^ 63 = _
  rw [Nat.and_two_pow, hbits]
  cases s with
  | positive =>
    have hbit : (signBit .positive + ((e + 1074).toNat * 2 ^ 52 + m)).testBit 63 = false :=
      Nat.testBit_lt_two_pow (by rw [signBit]; omega)
    rw [hbit]
    decide
  | negative =>
    have hbit : (2 ^ 63 + ((e + 1074).toNat * 2 ^ 52 + m)).testBit 63 = true := by
      rw [Nat.testBit_two_pow_add_eq, Nat.testBit_lt_two_pow (by omega)]
      rfl
    rw [signBit, hbit]
    decide

/-- Without bits below the unit everything is left. -/
theorem truncate_large (hx : parts x = .finite s m e h) (he : 0 ≤ e) (hm : 2 ^ 52 ≤ m) :
    truncate x = x := by
  have hval := power_of_parts hx hm
  have hsmall : ¬ (x.toBits >>> 52) &&& 0x7ff < 1023 := by
    rw [UInt64.lt_iff_toNat_lt, hval]
    show ¬ _ < 1023
    omega
  have hlarge : (x.toBits >>> 52) &&& 0x7ff ≥ 1075 := by
    rw [ge_iff_le, UInt64.le_iff_toNat_le, hval]
    show 1075 ≤ _
    omega
  rw [truncate, if_neg hsmall, if_pos hlarge]

/-- In between the bits below the unit are cleared. -/
theorem truncate_middle (hx : parts x = .finite s m e h) (he : e < 0) (hmin : -52 ≤ e)
    (hm : 2 ^ 52 ≤ m) (h' : 0 < m / 2 ^ (-e).toNat * 2 ^ (-e).toNat) :
    truncate x = ofParts (.finite s (m / 2 ^ (-e).toNat * 2 ^ (-e).toNat) e h') ∧
      Regular (.finite s (m / 2 ^ (-e).toNat * 2 ^ (-e).toNat) e h') := by
  have hbits := toBits_of_parts hx
  have hval := power_of_parts hx hm
  obtain ⟨hlt, hlow, _, hle⟩ := bounds_of_parts hx
  have hsmall : ¬ (x.toBits >>> 52) &&& 0x7ff < 1023 := by
    rw [UInt64.lt_iff_toNat_lt, hval]
    show ¬ _ < 1023
    omega
  have hlarge : ¬ (x.toBits >>> 52) &&& 0x7ff ≥ 1075 := by
    rw [ge_iff_le, UInt64.le_iff_toNat_le, hval]
    show ¬ 1075 ≤ _
    omega
  -- the bits below the unit are as many as the exponent is below zero
  have hcount : ((1075 : UInt64) - ((x.toBits >>> 52) &&& 0x7ff)).toNat = (-e).toNat := by
    have hle : (x.toBits >>> 52) &&& 0x7ff ≤ 1075 := by
      rw [UInt64.le_iff_toNat_le, hval]
      show _ ≤ 1075
      omega
    have hwidth : (1075 : UInt64).toNat = 1075 := rfl
    rw [UInt64.toNat_sub_of_le _ _ hle, hval, hwidth]
    omega
  have hmask := toNat_and_mask x.toBits (j := (1075 : UInt64) - ((x.toBits >>> 52) &&& 0x7ff))
    (by rw [hcount]; omega)
  rw [hcount] at hmask
  rw [truncate, if_neg hsmall, if_neg hlarge]
  obtain ⟨hkeep, hdrop⟩ := clear_mantissa (k := (-e).toNat) (by omega) hm
  generalize hk : (-e).toNat = k at *
  have hunit : 2 ^ 52 = 2 ^ (52 - k) * 2 ^ k := by
    rw [← pow_add, Nat.sub_add_cancel (by omega)]
  have hregular : Regular (.finite s (m / 2 ^ k * 2 ^ k) e h') :=
    ⟨by omega, hlow, .inl hkeep⟩
  refine ⟨ofBits_of_toNat ?_, hregular⟩
  -- the fields above are multiples of what is cleared, so the mantissa is cleared alone
  obtain ⟨c, hc⟩ := signBit_eq s
  have hfields (m : Nat) : signBit s + ((e + 1074).toNat * 2 ^ 52 + m) =
      (c * 2 ^ 11 + (e + 1074).toNat) * 2 ^ (52 - k) * 2 ^ k + m := by
    rw [hc, mul_assoc _ (2 ^ (52 - k)), ← hunit]
    omega
  have hsplit (n : Nat) : (n * 2 ^ k + m) / 2 ^ k = n + m / 2 ^ k := by
    rw [mul_comm, Nat.mul_add_div (Nat.two_pow_pos k)]
  rw [hmask, toBits_ofParts h' hregular hle, hbits, hfields, hfields, hsplit, add_mul]

end

/-! ### The whole part -/

theorem floor_eq_zero {m : Nat} {e : Int} (hm : m < 2 ^ 53) (he : e ≤ -53) :
    ⌊(m * 2 ^ e : ℚ)⌋ = 0 := by
  have hpos := two_zpow_pos e
  have hm : (m : ℚ) < 2 ^ 53 := by exact_mod_cast hm
  have he : (2 : ℚ) ^ e ≤ 2 ^ (-53 : Int) := zpow_le_zpow_right₀ (by norm_num) he
  have hone : (m * 2 ^ e : ℚ) < 2 ^ 53 * 2 ^ (-53 : Int) :=
    mul_lt_mul hm he hpos (by norm_num)
  rw [Int.floor_eq_iff]
  constructor
  · rw [Int.cast_zero]
    positivity
  · rw [Int.cast_zero, zero_add]
    exact lt_of_lt_of_eq hone (by norm_num)

theorem two_zpow_neg {e : Int} (he : e < 0) : (2 : ℚ) ^ e = 1 / 2 ^ (-e).toNat := by
  rw [← zpow_natCast, show (((-e).toNat : Nat) : Int) = -e by omega, zpow_neg,
    one_div, inv_inv]

theorem floor_of_neg (m : Nat) {e : Int} (he : e < 0) :
    ⌊(m * 2 ^ e : ℚ)⌋ = ((m / 2 ^ (-e).toNat : Nat) : Int) := by
  have hdiv := Rat.floor_natCast_div_natCast m (2 ^ (-e).toNat)
  rw [two_zpow_neg he, mul_one_div, ← Nat.cast_ofNat, ← Nat.cast_pow, hdiv]
  rfl

/-- The greatest whole double that is not above is the whole part. -/
theorem truncate_of_amount (hx : Plus (parts x)) (ha : amount (parts x) = a) :
    Plus (parts (truncate x)) ∧ amount (parts (truncate x)) = ((⌊a⌋ : ℚ) : WithTop ℚ) := by
  have hzero (hfloor : ⌊a⌋ = 0) (htrunc : truncate x = 0.0) :
      Plus (parts (truncate x)) ∧ amount (parts (truncate x)) = ((⌊a⌋ : ℚ) : WithTop ℚ) := by
    rw [htrunc, parts_zero, hfloor, Int.cast_zero]
    exact ⟨rfl, rfl⟩
  rcases plus_cases hx ha with ⟨hxu, rfl⟩ | ⟨m, e, h, hxu, rfl⟩
  · have hx0 : x = 0.0 := eq_zero_of_parts hxu
    exact hzero Int.floor_zero (by rw [hx0]; decide)
  obtain ⟨hlt, hlow, hnormal, hle⟩ := bounds_of_parts hxu
  by_cases hsmall : e < -52 ∨ m < 2 ^ 52
  · -- a number with few bits has the least exponent, so it is below one as well
    exact hzero (floor_eq_zero hlt (by omega))
      ((truncate_small hxu hsmall).trans zero_eq.symm)
  rw [not_or, not_lt, not_lt] at hsmall
  by_cases hwhole : 0 ≤ e
  · rw [truncate_large hxu hwhole hsmall.2]
    refine ⟨hx, ?_⟩
    obtain ⟨k, rfl⟩ := Int.eq_ofNat_of_zero_le hwhole
    have hint : (m * 2 ^ (k : Int) : ℚ) = ((m * 2 ^ k : Int) : ℚ) := by
      push_cast
      rw [zpow_natCast]
    rw [ha, hint, Int.floor_intCast]
  · have hkeep := (clear_mantissa (k := (-e).toNat) (by omega) hsmall.2).1
    have hpos : 0 < m / 2 ^ (-e).toNat * 2 ^ (-e).toNat :=
      Nat.lt_of_lt_of_le (Nat.two_pow_pos 52) hkeep
    obtain ⟨htrunc, hregular⟩ := truncate_middle hxu (by omega) (by omega) hsmall.2 hpos
    rw [htrunc, parts_ofParts hregular, held, if_pos hle]
    refine ⟨rfl, ?_⟩
    rw [amount, floor_of_neg m (by omega), two_zpow_neg (by omega), Int.cast_natCast,
      Nat.cast_mul, Nat.cast_pow, Nat.cast_ofNat]
    congr 1
    field_simp

theorem floor_of_amount (hx : Plus (parts x)) (ha : amount (parts x) = a) :
    Plus (parts (floor x)) ∧ amount (parts (floor x)) = ((⌊a⌋ : ℚ) : WithTop ℚ) := by
  obtain ⟨hplus, hamount⟩ := truncate_of_amount hx ha
  have hnot : ¬ x < truncate x := by
    rw [lt_iff_amount hx hplus, ha, hamount]
    exact not_lt.2 (WithTop.coe_le_coe.2 (Int.floor_le a))
  rw [floor, if_neg hnot]
  exact ⟨hplus, hamount⟩

/-- Taking the fraction off does not change the whole part. -/
theorem toInt_floor (hx : Plus (parts x)) (ha : amount (parts x) = a) :
    toInt (floor x) = Min.min ⌊a⌋ Scalar.maxInt64 := by
  obtain ⟨hplus, hamount⟩ := floor_of_amount hx ha
  rw [toInt_of_amount hplus hamount, Int.floor_intCast]

theorem toInt_floor_infinity {x : Float} (hx : parts x = .infinity .positive) :
    toInt (floor x) = Scalar.maxInt64 := by
  have hinf : x = ofParts (.infinity .positive) := by rw [← hx, ofParts_parts]
  rw [hinf]
  decide

end LineCharts.Double
