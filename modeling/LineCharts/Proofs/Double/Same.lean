/-
Doubles that are the same but for the sign of a zero.

* `Same x y` — `x` and `y` are one double, or equal; then they are one double or both zeros
  (`Same.eq_or_isZero`);
* `eq_of_beq` — equal doubles are one double, if neither is the negative zero;
* `add_eq_negZero`, `sub_eq_negZero`, `mul_ne_negZero` — which sums, differences and products
  are the negative zero;
* `not_isZero_margin` — the margin of a range is no zero;
* `eq_or_nonpos_of_same_ofInt` — whole numbers that are the same as doubles are
  equal, or not positive.

Design notes.  Rounding takes no number to a zero whose exponent a double can hold
(`parts_round_ne_zero`), so a sum is a zero only where it is one exactly.
-/
import LineCharts.Proofs.Double.Whole

namespace LineCharts.Double

open Float.Model (UnpackedFloat Format)
open Float.Model.UnpackedFloat

variable {x y z : Float}

/-! ### Equal doubles -/

/-- One double, or two that are equal. -/
def Same (x y : Float) : Prop := x = y ∨ (x == y) = true

/-- One of the two zeros. -/
def IsZero (x : Float) : Prop := x = 0.0 ∨ x = -0.0

instance : DecidablePred IsZero := fun x => inferInstanceAs (Decidable (x = 0.0 ∨ x = -0.0))

theorem eq_or_isZero_of_beq (h : (x == y) = true) : x = y ∨ IsZero x ∧ IsZero y := by
  have hpositive : (0 : Float) = 0.0 := by decide
  rw [Float.beq_iff_ne_nan_and_eq, hpositive] at h
  obtain ⟨_, _, rfl | ⟨rfl, rfl⟩ | ⟨rfl, rfl⟩⟩ := h
  · exact .inl rfl
  · exact .inr ⟨.inl rfl, .inr rfl⟩
  · exact .inr ⟨.inr rfl, .inl rfl⟩

theorem IsZero.beq (hx : IsZero x) (hy : IsZero y) : (x == y) = true := by
  rcases hx with rfl | rfl
  · rcases hy with rfl | rfl
    · decide
    · decide
  · rcases hy with rfl | rfl
    · decide
    · decide

namespace Same

theorem refl (x : Float) : Same x x := .inl rfl

theorem eq_or_isZero (h : Same x y) : x = y ∨ IsZero x ∧ IsZero y :=
  h.elim .inl eq_or_isZero_of_beq

theorem symm (h : Same x y) : Same y x := by
  rcases h.eq_or_isZero with rfl | ⟨hx, hy⟩
  · exact refl x
  · exact .inr (hy.beq hx)

theorem trans (h : Same x y) (h' : Same y z) : Same x z := by
  rcases h.eq_or_isZero with rfl | ⟨hx, hy⟩
  · exact h'
  · rcases h'.eq_or_isZero with rfl | ⟨_, hz⟩
    · exact h
    · exact .inr (hx.beq hz)

/-- A double that is the same as one that is equal to itself is equal to it. -/
theorem beq (h : Same x y) (hy : (y == y) = true) : (x == y) = true := by
  rcases h with rfl | h
  · exact hy
  · exact h

end Same

/-- **Equal doubles that are not the negative zero are one double.** -/
theorem eq_of_beq (h : (x == y) = true) (hx : x ≠ -0.0) (hy : y ≠ -0.0) : x = y := by
  rcases eq_or_isZero_of_beq h with rfl | ⟨hx' | hx', hy' | hy'⟩
  · rfl
  · rw [hx', hy']
  · exact absurd hy' hy
  · exact absurd hx' hx
  · exact absurd hx' hx

theorem ne_negZero_of_plus (hx : Plus (parts x)) : x ≠ -0.0 := by
  rintro rfl
  rw [parts_negZero] at hx
  cases hx

/-! ### Sums and differences -/

/-- What a double can hold but for its length is rounded to no zero. -/
theorem parts_round_ne_zero {s s' : Sign} {m : Nat} {e : Int} (hm : 0 < m) (he : -1074 ≤ e) :
    parts (ofParts (.round .binary64 s m e)) ≠ .zero s' := by
  show parts (ofParts (roundWithAccuracy .binary64 s (m <<< (e - target m e).toNat)
    (e - (e - target m e).toNat) .exact)) ≠ _
  have hdescribes :=
    describes_exact (m <<< (e - target m e).toNat) (e - (e - target m e).toNat)
  rw [shiftLeft_mul_zpow] at hdescribes
  have hle := le_target_shiftLeft hm e
  generalize (e - target m e).toNat = k at *
  obtain ⟨m', r, heq, hr, hnormal, hlow, hhigh, hround⟩ :=
    roundWithAccuracy_eq s hdescribes hle
  have hleast : -1074 ≤ target (m <<< k) (e - k) := by
    rw [target_eq]
    omega
  generalize target (m <<< k) (e - k) = t at *
  have hpos : 0 < m' := by
    rcases hnormal with hnormal | rfl
    · omega
    · -- at the least exponent the number is one unit at least
      by_contra hzero
      obtain rfl : m' = 0 := by omega
      have hone : (1 : ℚ) ≤ m := by exact_mod_cast hm
      have hunit : (2 : ℚ) ^ (-1074 : Int) ≤ 2 ^ e := zpow_le_zpow_right₀ (by norm_num) he
      have hle : (2 : ℚ) ^ (-1074 : Int) ≤ m * 2 ^ e :=
        le_trans hunit (le_mul_of_one_le_left (two_zpow_pos e).le hone)
      rw [Nat.cast_zero, zero_add, one_mul] at hhigh
      exact absurd hhigh (not_lt.2 hle)
  have hregular : Regular (normal s r t) := regular_normal s hleast (by omega)
  rw [heq, parts_ofParts hregular, normal, dif_neg (by omega)]
  intro h
  split at h
  · rw [held] at h
    split at h <;> cases h
  · rw [held] at h
    split at h <;> cases h

theorem parts_normalize_ne_negZero (M : Int) {e : Int} (he : -1074 ≤ e) :
    parts (ofParts (.normalize .binary64 M e .positive)) ≠ .zero .negative := by
  rw [UnpackedFloat.normalize]
  split
  case h_1 hM =>
    have hneg : M < 0 := compare_lt_iff_lt.1 hM
    exact parts_round_ne_zero (by omega) he
  case h_2 hM =>
    have hzero : Regular (.zero .positive) := trivial
    rw [parts_ofParts hzero]
    intro h
    cases h
  case h_3 hM =>
    have hpos : 0 < M := compare_gt_iff_gt.1 hM
    exact parts_round_ne_zero (by omega) he

/-- A sum is rounded, or it has regular parts and is the negative zero only for two such. -/
theorem add_cases {u v : UnpackedFloat} (hu : Regular u) (hv : Regular v) :
    (∃ M e, -1074 ≤ e ∧ UnpackedFloat.add .binary64 u v =
      .normalize .binary64 M e .positive) ∨ Regular (.add .binary64 u v) ∧
        (UnpackedFloat.add .binary64 u v = .zero .negative →
          u = .zero .negative ∧ v = .zero .negative) := by
  cases u with
  | notANumber => exact .inr ⟨trivial, nofun⟩
  | infinity s =>
    cases v with
    | notANumber => exact .inr ⟨trivial, nofun⟩
    | infinity s' =>
      cases s <;> cases s' <;> exact .inr ⟨trivial, nofun⟩
    | zero s' => exact .inr ⟨trivial, nofun⟩
    | finite s' m' e' h' => exact .inr ⟨trivial, nofun⟩
  | zero s =>
    cases v with
    | notANumber => exact .inr ⟨trivial, nofun⟩
    | infinity s' => exact .inr ⟨trivial, nofun⟩
    | zero s' =>
      cases s with
      | positive => cases s' <;> exact .inr ⟨trivial, nofun⟩
      | negative =>
        cases s' with
        | positive => exact .inr ⟨trivial, nofun⟩
        | negative => exact .inr ⟨trivial, fun _ => ⟨rfl, rfl⟩⟩
    | finite s' m' e' h' => exact .inr ⟨hv, nofun⟩
  | finite s m e h =>
    cases v with
    | notANumber => exact .inr ⟨trivial, nofun⟩
    | infinity s' => exact .inr ⟨trivial, nofun⟩
    | zero s' => exact .inr ⟨hu, nofun⟩
    | finite s' m' e' h' =>
      obtain ⟨_, hlow, _⟩ := hu
      obtain ⟨_, hlow', _⟩ := hv
      exact .inl ⟨_, _, le_min hlow hlow', rfl⟩

theorem eq_negZero_of_parts (h : parts x = .zero .negative) : x = -0.0 :=
  parts_inj.1 (h.trans parts_negZero.symm)

theorem eq_zero_of_held {u : UnpackedFloat} {s : Sign} (h : held u = .zero s) :
    u = .zero s := by
  cases u with
  | finite s' m e hm =>
    rw [held] at h
    split at h <;> cases h
  | infinity s' => exact h
  | zero s' => exact h
  | notANumber => exact h

/-- **Only the sum of two negative zeros is the negative zero.** -/
theorem add_eq_negZero (h : x + y = -0.0) : x = -0.0 ∧ y = -0.0 := by
  have hsum : parts (ofParts (.add .binary64 (parts x) (parts y))) = .zero .negative := by
    rw [← add_eq, h, parts_negZero]
  -- a rounded sum is no negative zero, so the sum is one without rounding
  rcases add_cases (regular_parts x) (regular_parts y) with
    ⟨M, e, he, heq⟩ | ⟨hregular, hzeros⟩
  · rw [heq] at hsum
    exact absurd hsum (parts_normalize_ne_negZero M he)
  · rw [parts_ofParts hregular] at hsum
    obtain ⟨hx, hy⟩ := hzeros (eq_zero_of_held hsum)
    exact ⟨eq_negZero_of_parts hx, eq_negZero_of_parts hy⟩

theorem sub_eq_add (u v : UnpackedFloat) :
    UnpackedFloat.sub .binary64 u v = .add .binary64 u v.neg := by
  cases u with
  | notANumber => rfl
  | infinity s => cases v <;> rfl
  | zero s => cases v <;> rfl
  | finite s m e h =>
    cases v with
    | notANumber => rfl
    | infinity s' => rfl
    | zero s' => rfl
    | finite s' m' e' h' =>
      have happly (n : Nat) : (-s').apply n = -s'.apply n := by
        cases s' with
        | positive => rfl
        | negative => exact (neg_neg _).symm
      simp only [UnpackedFloat.sub, UnpackedFloat.neg, UnpackedFloat.add, happly,
        sub_eq_add_neg]

theorem regular_neg {u : UnpackedFloat} (hu : Regular u) : Regular u.neg := by
  cases u <;> exact hu

/-- **Only the negative zero less the positive one is the negative zero.** -/
theorem sub_eq_negZero (h : x - y = -0.0) : x = -0.0 ∧ y = 0.0 := by
  have hdiff : parts (ofParts (.add .binary64 (parts x) (parts y).neg)) =
      .zero .negative := by
    rw [← sub_eq_add, ← sub_eq, h, parts_negZero]
  rcases add_cases (regular_parts x) (regular_neg (regular_parts y)) with
    ⟨M, e, he, heq⟩ | ⟨hregular, hzeros⟩
  · rw [heq] at hdiff
    exact absurd hdiff (parts_normalize_ne_negZero M he)
  · rw [parts_ofParts hregular] at hdiff
    obtain ⟨hx, hy⟩ := hzeros (eq_zero_of_held hdiff)
    refine ⟨eq_negZero_of_parts hx, parts_inj.1 ?_⟩
    rw [parts_zero]
    generalize parts y = v at *
    cases v with
    | zero s =>
      cases s with
      | positive => rfl
      | negative => cases hy
    | notANumber => cases hy
    | infinity s => cases hy
    | finite s m e h => cases hy

/-! ### Products -/

theorem isZero_ofParts (s : Sign) : IsZero (ofParts (.zero s)) := by
  cases s with
  | positive => exact .inl zero_eq.symm
  | negative => exact .inr negZero_eq.symm

theorem parts_of_isZero (hx : IsZero x) : ∃ s, parts x = .zero s := by
  rcases hx with rfl | rfl
  · exact ⟨_, parts_zero⟩
  · exact ⟨_, parts_negZero⟩

/-- Doubles that are the same have products that are the same. -/
theorem Same.mul (x : Float) (h : Same y z) : Same (x * y) (x * z) := by
  rcases h.eq_or_isZero with rfl | ⟨hy, hz⟩
  · exact .refl _
  · -- zeros of either sign: the products are zeros, or both are no number
    obtain ⟨s, hs⟩ := parts_of_isZero hy
    obtain ⟨t, ht⟩ := parts_of_isZero hz
    rw [mul_eq, mul_eq, hs, ht]
    cases parts x with
    | notANumber => exact .refl _
    | infinity r => exact .refl _
    | zero r => exact .inr ((isZero_ofParts _).beq (isZero_ofParts _))
    | finite r m e h => exact .inr ((isZero_ofParts _).beq (isZero_ofParts _))

/-- A product of numbers with the positive sign is rounded, or it is not the negative zero. -/
theorem mul_cases {u v : UnpackedFloat} (hu : Plus u) (hv : Plus v) :
    (∃ a b : ℚ, amount u = a ∧ amount v = b) ∨
      Regular (.mul .binary64 u v) ∧ UnpackedFloat.mul .binary64 u v ≠ .zero .negative := by
  cases u with
  | notANumber => exact hu.elim
  | infinity s =>
    cases v with
    | notANumber => exact hv.elim
    | infinity s' => exact .inr ⟨trivial, nofun⟩
    | zero s' => exact .inr ⟨trivial, nofun⟩
    | finite s' m' e' h' => exact .inr ⟨trivial, nofun⟩
  | zero s =>
    cases v with
    | notANumber => exact hv.elim
    | infinity s' => exact .inr ⟨trivial, nofun⟩
    | zero s' => exact .inl ⟨0, 0, rfl, rfl⟩
    | finite s' m' e' h' => exact .inl ⟨0, _, rfl, rfl⟩
  | finite s m e h =>
    cases v with
    | notANumber => exact hv.elim
    | infinity s' => exact .inr ⟨trivial, nofun⟩
    | zero s' => exact .inl ⟨_, 0, rfl, rfl⟩
    | finite s' m' e' h' => exact .inl ⟨_, _, rfl, rfl⟩

/-- The product of numbers with the positive sign is not the negative zero. -/
theorem mul_ne_negZero (hx : Plus (parts x)) (hy : Plus (parts y)) : x * y ≠ -0.0 := by
  rcases mul_cases hx hy with ⟨a, b, ha, hb⟩ | ⟨hregular, hne⟩
  · exact ne_negZero_of_plus (rounds_mul hx hy ha hb).plus
  · intro h
    have hproduct : parts (ofParts (.mul .binary64 (parts x) (parts y))) =
        .zero .negative := by
      rw [← mul_eq, h, parts_negZero]
    rw [parts_ofParts hregular] at hproduct
    exact hne (eq_zero_of_held hproduct)

theorem amount_of_isZero (hx : IsZero x) : amount (parts x) = 0 :=
  amount_of_beq_zero (hx.beq (.inl rfl))

/-- A number that is not below one, times a positive finite one, is no zero. -/
theorem not_isZero_mul (hx : Plus (parts x)) (hone : 1 ≤ amount (parts x)) (hy : 0.0 < y)
    (hfinite : y.isFinite = true) : ¬ IsZero (x * y) := by
  intro hzero
  have hplus := plus_of_pos hy
  obtain ⟨b, hb, hyb⟩ := amount_of_isFinite hplus hfinite
  rw [lt_iff_amount plus_zero hplus, parts_zero, hyb] at hy
  have hpos : 0 < b := WithTop.coe_lt_coe.1 hy
  rcases plus_cases hplus hyb with ⟨_, rfl⟩ | ⟨m, e, h, hyu, hbm⟩
  · exact absurd hpos (lt_irrefl 0)
  cases ha : amount (parts x) with
  | top =>
    obtain ⟨s, hs⟩ := parts_of_isZero hzero
    have hinfinity : Regular (.infinity .positive) := trivial
    rw [mul_eq, parts_of_top hx ha, hyu] at hs
    have hproduct : parts (ofParts (.infinity .positive)) = .zero s := hs
    rw [parts_ofParts hinfinity] at hproduct
    cases hproduct
  | coe a =>
    rw [ha] at hone
    -- the product is not below the second factor, which a double holds, and
    -- rounding keeps this
    have hle : b ≤ a * b := le_mul_of_one_le_left hb (WithTop.coe_le_coe.1 hone)
    have hheld : Representable b := hbm ▸ representable_of_parts h hyu
    have hlow := (rounds_mul hx hplus ha hyb).low hheld hle
    rw [amount_of_isZero hzero] at hlow
    exact absurd (WithTop.coe_le_coe.1 hlow) (not_le.2 hpos)

theorem parts_twenty : ∃ h, parts 20.0 = .finite .positive (5 * 2 ^ 50) (-48) h := by
  have htwenty : (20.0 : Float) =
      ofParts (.finite .positive (5 * 2 ^ 50) (-48) (by decide)) := by
    decide
  have hregular : Regular (.finite .positive (5 * 2 ^ 50) (-48) (by decide)) := by
    exact ⟨by norm_num, by norm_num, .inl (by norm_num)⟩
  refine ⟨by decide, ?_⟩
  rw [htwenty, parts_ofParts hregular]
  rfl

/-- A tenth of a number that is not below 20 is no zero. -/
theorem not_isZero_margin (spread : Float) : ¬ IsZero (max spread 20.0 * 0.1) := by
  obtain ⟨h, htwenty⟩ := parts_twenty
  obtain ⟨hplus, hle⟩ := le_max htwenty spread
  have hone : 1 ≤ amount (parts 20.0) := by
    rw [htwenty, amount]
    exact WithTop.coe_le_coe.2 (by norm_num)
  exact not_isZero_mul hplus (le_trans hone hle) (by decide) (by decide)

/-! ### Whole numbers -/

theorem not_plus_neg (hx : Plus (parts x)) : ¬ Plus (parts (-x)) := by
  have hneg : -x = ofParts (parts x).neg := rfl
  have hregular : Regular (parts x).neg := regular_neg (regular_parts x)
  have hsign : Sign.negative ≠ .positive := Sign.noConfusion
  rw [hneg, parts_ofParts hregular]
  generalize parts x = u at *
  cases u with
  | notANumber => exact hx.elim
  | infinity s =>
    obtain rfl : s = .positive := hx
    exact hsign
  | zero s =>
    obtain rfl : s = .positive := hx
    exact hsign
  | finite s m e h =>
    obtain rfl : s = .positive := hx
    rw [UnpackedFloat.neg, held]
    split
    · exact hsign
    · exact hsign

theorem eq_zero_of_isZero_ofNat {n : Nat} (hn : n ≤ 2 ^ 53) (h : IsZero (ofNat n)) :
    n = 0 := by
  have hamount := amount_ofNat hn
  rw [amount_of_isZero h] at hamount
  exact_mod_cast (WithTop.coe_injective hamount).symm

/-- Whole numbers up to `2 ^ 53` that are the same as doubles are the same,
unless they are negative. -/
theorem eq_or_nonpos_of_same_ofInt {a b : Int} (ha : a ≤ 2 ^ 53) (hb : b ≤ 2 ^ 53)
    (h : Same (ofInt a) (ofInt b)) : a = b ∨ a ≤ 0 ∧ b ≤ 0 := by
  have hplus (n : Nat) : Plus (parts (ofNat n)) := (rounds_ofNat n).plus
  rcases h.eq_or_isZero with heq | ⟨hx, hy⟩
  · cases a with
    | ofNat n =>
      cases b with
      | ofNat m =>
        have hn : (n : Int) ≤ 2 ^ 53 := ha
        have hm : (m : Int) ≤ 2 ^ 53 := hb
        have hamount : amount (parts (ofNat n)) = amount (parts (ofNat m)) :=
          congrArg _ (congrArg _ heq)
        rw [amount_ofNat (by omega), amount_ofNat (by omega)] at hamount
        exact .inl (congrArg _ (Nat.cast_injective (WithTop.coe_injective hamount)))
      | negSucc m =>
        have heq : ofNat n = -ofNat (m + 1) := heq
        exact absurd (heq ▸ hplus n) (not_plus_neg (hplus (m + 1)))
    | negSucc n =>
      cases b with
      | ofNat m =>
        have heq : -ofNat (n + 1) = ofNat m := heq
        exact absurd (heq ▸ hplus m) (not_plus_neg (hplus (n + 1)))
      | negSucc m => exact .inr ⟨by omega, by omega⟩
  · -- two zeros: each integer is zero, or negative
    have hnonpos {c : Int} (hc : c ≤ 2 ^ 53) (hzero : IsZero (ofInt c)) : c ≤ 0 := by
      cases c with
      | ofNat n =>
        have hn : (n : Int) ≤ 2 ^ 53 := hc
        obtain rfl : n = 0 := eq_zero_of_isZero_ofNat (by omega) hzero
        exact le_refl _
      | negSucc n => omega
    exact .inr ⟨hnonpos ha hx, hnonpos hb hy⟩

end LineCharts.Double
