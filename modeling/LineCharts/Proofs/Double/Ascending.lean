/-
Functions that keep the order of doubles, and the coordinates of a path.

* `round_of_amount`, `round_neg` — the nearest whole double of a number of either sign;
* `Ascending` — a function keeps the order and the signs of doubles, and takes
  no number to no number;
* `ascending_mul`, `ascending_div`, `ascending_round` — products and quotients with a
  positive number and nearest whole doubles are such functions, also one behind the
  other (`Ascending.comp`);
* `Ascending.lt_of_lt` — they bring no two doubles into another order;
* `Path.lt_of_roundTo_lt` — so coordinates in a path of doubles keep their order.

Design notes.  Overflow takes a number to infinity, which stays where it is.  So only finite
numbers have to be looked at, and there rounding keeps the order.
-/
import LineCharts.Proofs.Double.Order

namespace LineCharts

namespace Double

open Float.Model (UnpackedFloat Format)
open Float.Model.UnpackedFloat

variable {x y : Float} {a b : ℚ}

/-! ### The nearest whole double -/

/-- The fraction of a number needs no more bits than the number, and a number with
a fraction is small. -/
theorem fract_of_amount (hx : Plus (parts x)) (ha : amount (parts x) = a) :
    Representable (Int.fract a) ∧ (Int.fract a ≠ 0 → ⌊a⌋₊ + 1 ≤ 2 ^ 53) := by
  have hwhole {n : Int} (h : a = n) :
      Representable (Int.fract a) ∧ (Int.fract a ≠ 0 → ⌊a⌋₊ + 1 ≤ 2 ^ 53) := by
    rw [h, Int.fract_intCast]
    exact ⟨representable_zero, fun hne => absurd rfl hne⟩
  rcases plus_cases hx ha with ⟨_, h⟩ | ⟨m, e, h, hxu, rfl⟩
  · exact hwhole (h.trans Int.cast_zero.symm)
  obtain ⟨hlt, hlow, _, hhigh⟩ := bounds_of_parts hxu
  by_cases he : 0 ≤ e
  · refine hwhole (n := m * 2 ^ e.toNat) ?_
    push_cast
    rw [← zpow_natCast, Int.toNat_of_nonneg he]
  · have hfloor := floor_of_neg m (not_le.1 he)
    have hunit := two_zpow_neg (not_le.1 he)
    have hk : 1 ≤ (-e).toNat := by omega
    generalize (-e).toNat = k at *
    have hdiv : (m : ℚ) = 2 ^ k * ((m / 2 ^ k : Nat) : ℚ) + ((m % 2 ^ k : Nat) : ℚ) := by
      exact_mod_cast (Nat.div_add_mod m (2 ^ k)).symm
    have hpow : (2 : ℚ) ^ k ≠ 0 := by positivity
    refine ⟨⟨m % 2 ^ k, e, (Nat.mod_le _ _).trans_lt hlt, hlow, hhigh, ?_⟩, fun _ => ?_⟩
    · rw [Int.fract, hfloor, Int.cast_natCast, hunit, hdiv]
      field_simp
      ring
    · have hnat : ⌊(m * 2 ^ e : ℚ)⌋₊ = m / 2 ^ k := by
        rw [← Int.floor_toNat, hfloor, Int.toNat_natCast]
      have hle : m / 2 ^ k ≤ m / 2 ^ 1 :=
        Nat.div_le_div_left (Nat.pow_le_pow_right (by norm_num) hk) (by norm_num)
      omega

theorem amount_half : Plus (parts 0.5) ∧ amount (parts 0.5) = ((1 / 2 : ℚ) : WithTop ℚ) := by
  have hhalf : (0.5 : Float) = ofParts (.finite .positive (2 ^ 52) (-53) (by decide)) := by
    decide
  have hregular : Regular (.finite .positive (2 ^ 52) (-53) (by decide)) :=
    ⟨by norm_num, by norm_num, .inl le_rfl⟩
  rw [hhalf, parts_ofParts hregular]
  refine ⟨rfl, ?_⟩
  show (((2 ^ 52 : Nat) * 2 ^ (-53 : Int) : ℚ) : WithTop ℚ) = _
  norm_num

/-- The rest behind the whole part is exact. -/
theorem rest_of_amount (hx : Plus (parts x)) (ha : amount (parts x) = a) :
    Plus (parts (x - truncate x)) ∧
      amount (parts (x - truncate x)) = ((Int.fract a : ℚ) : WithTop ℚ) := by
  obtain ⟨hplus, hamount⟩ := truncate_of_amount hx ha
  have hrounds := rounds_sub hx hplus ha hamount (Int.floor_le a)
  rw [Int.self_sub_floor] at hrounds
  exact ⟨hrounds.plus, hrounds.amount_eq (fract_of_amount hx ha).1⟩

/-- The nearest whole double of a number that is not negative; a half goes up. -/
theorem round_of_amount (hx : Plus (parts x)) (ha : amount (parts x) = a) :
    Plus (parts (round x)) ∧ amount (parts (round x)) = ((⌊a + 1 / 2⌋ : ℚ) : WithTop ℚ) := by
  obtain ⟨hwhole, hfloor⟩ := truncate_of_amount hx ha
  obtain ⟨hrest, hfract⟩ := rest_of_amount hx ha
  obtain ⟨hhalf, hamount⟩ := amount_half
  have hnonneg : 0 ≤ a := nonneg_of_amount ha
  have hsplit : (⌊a⌋ : ℚ) + Int.fract a = a := Int.floor_add_fract a
  have hlt : Int.fract a < 1 := Int.fract_lt_one a
  rw [round]
  split
  case isTrue hup =>
    rw [le_iff_amount hhalf hrest, hamount, hfract] at hup
    have hup' : 1 / 2 ≤ Int.fract a := WithTop.coe_le_coe.1 hup
    have hbound := (fract_of_amount hx ha).2 (by linarith)
    have hrounds := rounds_add hwhole plus_one hfloor amount_one
    have hnext : ⌊a + 1 / 2⌋ = ⌊a⌋ + 1 := by
      rw [Int.floor_eq_iff]
      push_cast
      constructor <;> linarith
    have hcast : (⌊a⌋ : ℚ) + 1 = ((⌊a⌋₊ + 1 : Nat) : ℚ) := by
      rw [← Int.natCast_floor_eq_floor hnonneg]
      push_cast
      rfl
    rw [hnext, Int.cast_add, Int.cast_one]
    refine ⟨hrounds.plus, hrounds.amount_eq ?_⟩
    rw [hcast]
    exact representable_natCast hbound
  case isFalse hup =>
    rw [le_iff_amount hhalf hrest, hamount, hfract] at hup
    have hup' : Int.fract a < 1 / 2 := WithTop.coe_lt_coe.1 (not_le.1 hup)
    have hsame : ⌊a + 1 / 2⌋ = ⌊a⌋ := by
      rw [Int.floor_eq_iff]
      constructor <;> linarith [Int.fract_nonneg a]
    have hdown : ¬ x - truncate x ≤ -0.5 :=
      not_le_neg hrest hhalf (.inr (by rw [hamount]; norm_num))
    rw [if_neg hdown, hsame]
    exact ⟨hwhole, hfloor⟩

/-- The nearest whole double of a negative number; a half goes down. -/
theorem round_neg (hx : Plus (parts x)) (ha : amount (parts x) = a) :
    round (-x) = -round x := by
  obtain ⟨hwhole, hfloor⟩ := truncate_of_amount hx ha
  obtain ⟨hrest, _⟩ := rest_of_amount hx ha
  obtain ⟨hhalf, hamount⟩ := amount_half
  have hpos : amount (parts 0.5) ≠ 0 := by
    rw [hamount]
    norm_num
  have hopposite := neg_add_neg x (-truncate x)
  rw [← sub_eq_add_neg, ← sub_eq_add_neg] at hopposite
  have hdown : ¬ x - truncate x ≤ -0.5 := not_le_neg hrest hhalf (.inr hpos)
  rw [round, round, truncate_neg hx ha, if_neg hdown]
  -- the rest behind the whole part changes its sign as well, unless it is zero
  rcases hopposite with heq | ⟨hzero, heq⟩
  · have hup : ¬ (0.5 : Float) ≤ -(x - truncate x) := not_le_neg hhalf hrest (.inl hpos)
    rw [heq, if_neg hup]
    by_cases hle : 0.5 ≤ x - truncate x
    · rw [if_pos (neg_le_neg.mpr hle), if_pos hle]
      have hone := (rounds_add hwhole plus_one hfloor amount_one).low
        (representable_natCast (n := 1) (by norm_num)) (by
          have hnonneg := Int.floor_nonneg.mpr (nonneg_of_amount ha)
          push_cast
          exact le_add_of_nonneg_left (Int.cast_nonneg hnonneg))
      rcases neg_add_neg (truncate x) 1.0 with hsum | ⟨hzero, _⟩
      · rw [sub_eq_add_neg, hsum]
      · rw [hzero, parts_zero] at hone
        exact absurd hone (by decide)
    · rw [if_neg (neg_le_neg.not.mpr hle), if_neg hle]
  · rw [heq, hzero, if_neg (by decide), if_neg (by decide), if_neg (by decide)]

/-! ### Functions that keep the order -/

/-- A function of doubles keeps their order and their signs, and zero. -/
structure Ascending (f : Float → Float) : Prop where
  plus : ∀ {x : Float}, Plus (parts x) → Plus (parts (f x))
  mono : ∀ {x y : Float}, Plus (parts x) → Plus (parts y) →
    amount (parts x) ≤ amount (parts y) → amount (parts (f x)) ≤ amount (parts (f y))
  neg : ∀ {x : Float}, Plus (parts x) → f (-x) = -f x
  zero : f 0.0 = 0.0
  nan : f nan = nan

/-- Functions one behind the other. -/
theorem Ascending.comp {f g : Float → Float} (hf : Ascending f) (hg : Ascending g) :
    Ascending fun x => g (f x) where
  plus hx := hg.plus (hf.plus hx)
  mono hx hy hle := hg.mono (hf.plus hx) (hf.plus hy) (hf.mono hx hy hle)
  neg hx := by rw [hf.neg hx, hg.neg (hf.plus hx)]
  zero := by rw [hf.zero, hg.zero]
  nan := by rw [hf.nan, hg.nan]

/-- Only finite numbers have to be looked at if infinity stays. -/
theorem ascending_of_finite {f : Float → Float}
    (plus : ∀ {x : Float} {a : ℚ}, Plus (parts x) → amount (parts x) = a → Plus (parts (f x)))
    (mono : ∀ {x y : Float} {a b : ℚ}, Plus (parts x) → Plus (parts y) →
      amount (parts x) = a → amount (parts y) = b → a ≤ b →
      amount (parts (f x)) ≤ amount (parts (f y)))
    (neg : ∀ {x : Float} {a : ℚ}, Plus (parts x) → amount (parts x) = a → f (-x) = -f x)
    (infinity : f infinity = infinity) (negInfinity : f (-Double.infinity) = -Double.infinity)
    (zero : f 0.0 = 0.0) (nan : f nan = nan) : Ascending f where
  plus {x} hx := by
    cases ha : amount (parts x) with
    | top =>
      rw [eq_infinity hx ha, infinity]
      exact plus_infinity
    | coe a => exact plus hx ha
  mono {x y} hx hy hle := by
    cases hb : amount (parts y) with
    | top =>
      rw [eq_infinity hy hb, infinity, parts_infinity]
      exact le_top
    | coe b =>
      cases ha : amount (parts x) with
      | top =>
        rw [ha, hb] at hle
        exact absurd hle (by simp)
      | coe a =>
        rw [ha, hb] at hle
        exact mono hx hy ha hb (WithTop.coe_le_coe.1 hle)
  neg {x} hx := by
    cases ha : amount (parts x) with
    | top => rw [eq_infinity hx ha, infinity, negInfinity]
    | coe a => exact neg hx ha
  zero := zero
  nan := nan

theorem ascending_round : Ascending round :=
  ascending_of_finite (fun hx ha => (round_of_amount hx ha).1)
    (fun hx hy ha hb hle => by
      rw [(round_of_amount hx ha).2, (round_of_amount hy hb).2]
      exact WithTop.coe_le_coe.2 (Int.cast_le.2 (Int.floor_mono (by linarith))))
    round_neg (by decide) (by decide) (by decide) (by decide)

theorem ascending_mul (hy : Plus (parts y)) (hb : amount (parts y) = b) (hpos : 0 < b) :
    Ascending (· * y) := by
  obtain ⟨m, e, h, hyu, rfl⟩ := (plus_cases hy hb).resolve_left fun hzero => hpos.ne' hzero.2
  refine ascending_of_finite (fun hx ha => (rounds_mul hx hy ha hb).plus)
    (fun hx hx' ha ha' hle => ?_) (fun hx ha => neg_mul hx hy ha hb) ?_ ?_
    (zero_mul_of_amount hy hb) ?_
  · exact (nearest_mul hx hy ha hb).mono (nearest_mul hx' hy ha' hb)
      (mul_le_mul_of_nonneg_right hle hpos.le)
  · show infinity * y = _
    rw [mul_eq, parts_infinity, hyu]
    rfl
  · show -infinity * y = _
    rw [mul_eq, parts_neg, parts_infinity, hyu]
    rfl
  · show nan * y = _
    rw [mul_eq, parts_nan]
    rfl

theorem ascending_div (hy : Plus (parts y)) (hb : amount (parts y) = b) (hpos : 0 < b) :
    Ascending (· / y) := by
  obtain ⟨m, e, h, hyu, rfl⟩ := (plus_cases hy hb).resolve_left fun hzero => hpos.ne' hzero.2
  refine ascending_of_finite (fun hx ha => (rounds_div hx hy ha hb hpos).plus)
    (fun hx hx' ha ha' hle => ?_) (fun hx ha => neg_div hx hy ha hb hpos) ?_ ?_
    (zero_div_of_amount hy hb hpos) ?_
  · exact (nearest_div hx hy ha hb hpos).mono (nearest_div hx' hy ha' hb hpos)
      (div_le_div_of_nonneg_right hle hpos.le)
  · show infinity / y = _
    rw [div_eq, parts_infinity, hyu]
    rfl
  · show -infinity / y = _
    rw [div_eq, parts_neg, parts_infinity, hyu]
    rfl
  · show nan / y = _
    rw [div_eq, parts_nan]
    rfl

/-- **Such a function brings no two numbers into another order.** -/
theorem Ascending.lt_of_lt {f : Float → Float} (hf : Ascending f) (h : f x < f y) :
    x < y := by
  have hne {x : Float} (hx : Plus (parts x)) (h : amount (parts (f x)) ≠ 0) :
      amount (parts x) ≠ 0 := by
    intro hzero
    rw [eq_zero_of_amount hx hzero, hf.zero, parts_zero] at h
    exact h rfl
  rcases sign_cases x with hx | ⟨x, hx, rfl⟩ | rfl
  · rcases sign_cases y with hy | ⟨y, hy, rfl⟩ | rfl
    · rw [lt_iff_amount (hf.plus hx) (hf.plus hy)] at h
      rw [lt_iff_amount hx hy]
      exact lt_of_not_ge fun hle => absurd (hf.mono hy hx hle) (not_le.2 h)
    · rw [hf.neg hy] at h
      exact absurd h (not_lt_neg (hf.plus hx) (hf.plus hy))
    · rw [hf.nan] at h
      exact absurd h not_lt_nan
  · rcases sign_cases y with hy | ⟨y, hy, rfl⟩ | rfl
    · rw [hf.neg hx, neg_lt_iff (hf.plus hx) (hf.plus hy)] at h
      rw [neg_lt_iff hx hy]
      exact h.imp (hne hx) (hne hy)
    · rw [hf.neg hx, hf.neg hy, neg_lt_neg, lt_iff_amount (hf.plus hy) (hf.plus hx)] at h
      rw [neg_lt_neg, lt_iff_amount hy hx]
      exact lt_of_not_ge fun hle => absurd (hf.mono hx hy hle) (not_le.2 h)
    · rw [hf.nan] at h
      exact absurd h not_lt_nan
  · rw [hf.nan] at h
    exact absurd h not_nan_lt

/-- A zero as a summand changes no comparison. -/
theorem add_zero_lt_add_zero : x + 0.0 < y + 0.0 ↔ x < y := by
  have hleft (y : Float) : 0.0 < y ↔ -0.0 < y := by
    rw [lt_iff_compare, lt_iff_compare, parts_zero, parts_negZero]
    cases parts y with
    | finite s m e h => cases s <;> rfl
    | infinity s => cases s <;> rfl
    | zero s => rfl
    | notANumber => rfl
  have hright (x : Float) : x < 0.0 ↔ x < -0.0 := by
    rw [lt_iff_compare, lt_iff_compare, parts_zero, parts_negZero]
    cases parts x with
    | finite s m e h => cases s <;> rfl
    | infinity s => cases s <;> rfl
    | zero s => rfl
    | notANumber => rfl
  rcases add_zero_cases x with hx | ⟨hx, hx'⟩
  · rcases add_zero_cases y with hy | ⟨hy, hy'⟩
    · rw [hx, hy]
    · rw [hx, hy', hright, hy]
  · rcases add_zero_cases y with hy | ⟨hy, hy'⟩
    · rw [hx', hy, hleft, hx]
    · rw [hx', hy', hleft, hright, hx, hy]

end Double

/-- **Coordinates in a path of doubles keep their order.** -/
theorem Path.lt_of_roundTo_lt {digits : Nat} (hunit : 10 ^ digits ≤ 2 ^ 53) {x y : Float}
    (h : roundTo (Scalar.tenPow digits) x < roundTo (Scalar.tenPow digits) y) : x < y := by
  have hplus := (Double.rounds_ofNat (10 ^ digits)).plus
  have hamount := Double.amount_ofNat hunit
  have hpos : (0 : ℚ) < ((10 ^ digits : Nat) : ℚ) := by positivity
  have hf := ((Double.ascending_mul hplus hamount hpos).comp Double.ascending_round).comp
    (Double.ascending_div hplus hamount hpos)
  rw [Double.tenPow_eq_ofNat hunit] at h
  exact hf.lt_of_lt (Double.add_zero_lt_add_zero.1 h)

end LineCharts
