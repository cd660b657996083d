/-
Negative doubles.

* `parts_neg` — a number and its negative differ in the sign of their parts;
* `neg_lt_neg` — they compare the other way round;
* `neg_div`, `neg_mul` — quotients and products of finite numbers take the
  sign of the first one;
* `ceil_neg` — the least whole double that is not below a negative number is the negative of
  the greatest one that is not above its distance from zero;
* `toInt_neg` — the whole part of a negative number, held within a word.

Design notes.  Rounding looks at mantissa and exponent only, and clearing the lowest bits
keeps the highest one.  So the sign is carried through both.
-/
import LineCharts.Proofs.Double.Places

namespace LineCharts.Double

open Float.Model (UnpackedFloat Format)
open Float.Model.UnpackedFloat

variable {x y : Float} {a b q : ℚ}

/-! ### The sign -/

theorem held_parts (x : Float) : held (parts x) = parts x := by
  rw [← parts_ofParts (regular_parts x), ofParts_parts]

theorem held_neg (u : UnpackedFloat) : held u.neg = (held u).neg := by
  cases u with
  | finite s m e h =>
    rw [UnpackedFloat.neg, held, held]
    split <;> rfl
  | infinity s => rfl
  | zero s => rfl
  | notANumber => rfl

theorem parts_neg (x : Float) : parts (-x) = (parts x).neg := by
  have hparts : parts (-x) = held (parts x).neg :=
    parts_ofParts (regular_neg (regular_parts x))
  rw [hparts, held_neg, held_parts]

theorem neg_neg_parts (u : UnpackedFloat) : u.neg.neg = u := by
  cases u with
  | finite s m e h => cases s <;> rfl
  | infinity s => cases s <;> rfl
  | zero s => cases s <;> rfl
  | notANumber => rfl

theorem neg_neg (x : Float) : - -x = x := by
  rw [← parts_inj, parts_neg, parts_neg, neg_neg_parts]

theorem ofParts_neg {u : UnpackedFloat} (hu : Regular u) : ofParts u.neg = -ofParts u := by
  rw [← parts_inj, parts_neg, parts_ofParts hu, parts_ofParts (regular_neg hu), held_neg]

theorem compare_neg (u v : UnpackedFloat) : u.neg.compare v.neg = v.compare u := by
  have hfinite (m₁ m₂ : Nat) (e₁ e₂ : Int) : ((compare e₁ e₂).then (compare m₁ m₂)).swap =
      (compare e₂ e₁).then (compare m₂ m₁) := by
    rw [Ordering.swap_then, Int.compare_swap, Nat.compare_swap]
  cases u with
  | notANumber => cases v <;> rfl
  | infinity s =>
    cases v with
    | notANumber => rfl
    | infinity s' => cases s <;> cases s' <;> rfl
    | zero s' => cases s <;> rfl
    | finite s' m' e' h' => cases s <;> cases s' <;> rfl
  | zero s =>
    cases v with
    | notANumber => rfl
    | infinity s' => cases s' <;> rfl
    | zero s' => rfl
    | finite s' m' e' h' => cases s' <;> rfl
  | finite s m e h =>
    cases v with
    | notANumber => rfl
    | infinity s' => cases s <;> cases s' <;> rfl
    | zero s' => cases s <;> rfl
    | finite s' m' e' h' =>
      cases s with
      | positive =>
        cases s' with
        | positive => exact congrArg some (hfinite m m' e e')
        | negative => rfl
      | negative =>
        cases s' with
        | positive => rfl
        | negative => exact congrArg some (hfinite m' m e' e).symm

theorem neg_lt_neg : -x < -y ↔ y < x := by
  rw [lt_iff_compare, lt_iff_compare, parts_neg, parts_neg, compare_neg]

theorem neg_lt_zero {m : Nat} {e : Int} {h : 0 < m} (hx : parts x = .finite .positive m e h) :
    -x < 0.0 := by
  rw [lt_iff_compare, parts_neg, hx, parts_zero]
  rfl

/-! ### Quotients and products -/

theorem roundWithAccuracy_neg (s : Sign) (m : Nat) (e : Int) (acc : Accuracy) :
    roundWithAccuracy .binary64 (-s) m e acc =
      (roundWithAccuracy .binary64 s m e acc).neg := by
  simp only [roundWithAccuracy]
  split <;> rfl

theorem regular_roundWithAccuracy (s : Sign) {m : Nat} {e : Int} {acc : Accuracy}
    (hq : Describes q (.ofMantissaAndAccuracy m acc) e) (he : e ≤ target m e) :
    Regular (roundWithAccuracy .binary64 s m e acc) := by
  obtain ⟨m', r, heq, _, hnormal, _, _, hround⟩ := roundWithAccuracy_eq s hq he
  have hleast : -1074 ≤ target m e := by
    rw [target_eq]
    omega
  rw [heq]
  exact regular_normal s hleast (by omega)

theorem neg_div (hx : Plus (parts x)) (hy : Plus (parts y)) (ha : amount (parts x) = a)
    (hb : amount (parts y) = b) (hpos : 0 < b) : -x / y = -(x / y) := by
  rw [div_eq, div_eq, parts_neg]
  rcases plus_cases hy hb with ⟨_, rfl⟩ | ⟨m₂, e₂, h₂, hyu, rfl⟩
  · exact absurd hpos (lt_irrefl 0)
  · rcases plus_cases hx ha with ⟨hxu, rfl⟩ | ⟨m₁, e₁, h₁, hxu, rfl⟩
    · have hzero : Regular (.zero .positive) := trivial
      rw [hxu, hyu]
      exact ofParts_neg hzero
    · obtain ⟨hq, he⟩ := describes_divCore e₁ e₂ h₁ h₂
      rw [hxu, hyu]
      refine Eq.trans ?_ (ofParts_neg (regular_roundWithAccuracy .positive hq he))
      exact congrArg ofParts (roundWithAccuracy_neg .positive _ _ _)

theorem neg_mul (hx : Plus (parts x)) (hy : Plus (parts y)) (ha : amount (parts x) = a)
    (hb : amount (parts y) = b) : -x * y = -(x * y) := by
  have hrx := regular_parts x
  have hry := regular_parts y
  have hzero : Regular (.zero .positive) := trivial
  rw [mul_eq, mul_eq, parts_neg]
  rcases plus_cases hx ha with ⟨hxu, rfl⟩ | ⟨m₁, e₁, h₁, hxu, rfl⟩
  · rcases plus_cases hy hb with ⟨hyu, rfl⟩ | ⟨m₂, e₂, h₂, hyu, rfl⟩
    · rw [hxu, hyu]
      exact ofParts_neg hzero
    · rw [hxu, hyu]
      exact ofParts_neg hzero
  · rcases plus_cases hy hb with ⟨hyu, rfl⟩ | ⟨m₂, e₂, h₂, hyu, rfl⟩
    · rw [hxu, hyu]
      exact ofParts_neg hzero
    · rw [hxu] at hrx ⊢
      rw [hyu] at hry ⊢
      have hregular :=
        regular_roundWithAccuracy .positive (describes_exact (m₁ * m₂) (e₁ + e₂))
          (le_target_mul h₁ h₂ hrx hry)
      refine Eq.trans ?_ (ofParts_neg hregular)
      exact congrArg ofParts (roundWithAccuracy_neg .positive _ _ _)

/-! ### Whole numbers -/

theorem truncate_neg (hx : Plus (parts x)) (ha : amount (parts x) = a) :
    truncate (-x) = -truncate x := by
  rcases plus_cases hx ha with ⟨hxu, _⟩ | ⟨m, e, h, hxu, _⟩
  · obtain rfl : x = 0.0 := eq_zero_of_parts hxu
    decide
  obtain ⟨_, _, hnormal, _⟩ := bounds_of_parts hxu
  have hxu' : parts (-x) = .finite .negative m e h := by
    rw [parts_neg, hxu]
    rfl
  by_cases hsmall : e < -52 ∨ m < 2 ^ 52
  · have hzero : Regular (.zero .positive) := trivial
    rw [truncate_small hxu hsmall, truncate_small hxu' hsmall]
    exact ofParts_neg hzero
  rw [not_or, not_lt, not_lt] at hsmall
  by_cases hwhole : 0 ≤ e
  · rw [truncate_large hxu hwhole hsmall.2, truncate_large hxu' hwhole hsmall.2]
  · have hkeep := (clear_mantissa (k := (-e).toNat) (by omega) hsmall.2).1
    have hpos : 0 < m / 2 ^ (-e).toNat * 2 ^ (-e).toNat :=
      Nat.lt_of_lt_of_le (Nat.two_pow_pos 52) hkeep
    obtain ⟨htrunc, hregular⟩ := truncate_middle hxu (by omega) (by omega) hsmall.2 hpos
    rw [htrunc, (truncate_middle hxu' (by omega) (by omega) hsmall.2 hpos).1]
    exact ofParts_neg hregular

theorem ceil_neg (hx : Plus (parts x)) (ha : amount (parts x) = a) :
    ceil (-x) = -floor x := by
  obtain ⟨hplus, hamount⟩ := truncate_of_amount hx ha
  have hnot : ¬ x < truncate x := by
    rw [lt_iff_amount hx hplus, ha, hamount]
    exact not_lt.2 (WithTop.coe_le_coe.2 (Int.floor_le a))
  rw [ceil, floor, truncate_neg hx ha, if_neg hnot, if_neg (neg_lt_neg.not.mpr hnot)]

/-- The whole part of a negative number, if it fits into a word. -/
theorem toInt_neg (hx : Plus (parts x)) (ha : amount (parts x) = a)
    (hle : ⌊a⌋ ≤ Scalar.maxInt64) :
    toInt (-x) = -⌊a⌋ := by
  rcases plus_cases hx ha with ⟨hxu, rfl⟩ | ⟨m, e, h, hxu, _⟩
  · obtain rfl : x = 0.0 := eq_zero_of_parts hxu
    rw [Int.floor_zero]
    decide
  · have hnonneg := Int.floor_nonneg.mpr (nonneg_of_amount ha)
    rw [Scalar.maxInt64] at hle
    rw [toInt, if_pos (neg_lt_zero hxu), neg_neg, toUInt64_of_amount hx ha, Scalar.saturate,
      Scalar.minInt64, Scalar.maxInt64]
    omega

/-- Adding zero takes the sign off a negative zero, and nothing else. -/
theorem toInt_neg_add_zero (hx : Plus (parts x)) (ha : amount (parts x) = a)
    (hle : ⌊a⌋ ≤ Scalar.maxInt64) :
    toInt (-x + 0.0) = -⌊a⌋ := by
  rcases plus_cases hx ha with ⟨hxu, rfl⟩ | ⟨m, e, h, hxu, _⟩
  · obtain rfl : x = 0.0 := eq_zero_of_parts hxu
    rw [Int.floor_zero]
    decide
  · have hne : -x ≠ -0.0 := by
      rw [ne_eq, ← parts_inj, parts_neg, hxu, parts_negZero]
      exact nofun
    have hsum : -x + 0.0 = -x := (add_zero_cases (-x)).resolve_right fun hzero => hne hzero.1
    rw [hsum, toInt_neg hx ha hle]

end LineCharts.Double
