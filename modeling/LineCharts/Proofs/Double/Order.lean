/-
Doubles in their order, with their signs.

* `sign_cases` — a double is not negative, or the negative of one that is not, or no number;
* `compare_signs` — doubles of different signs compare by their signs, zeros apart; from it
  `not_lt_neg`, `neg_lt_iff`, `not_le_neg`, `neg_le`;
* `neg_add_neg` — the sum of two negatives is the negative of the sum, unless it is zero;
* `rounds_sub` — a difference that is not negative is rounded;
* `sub_le_of_lt` — a difference to a greater number is not above any number
  that is not below zero.

Design notes.  A sum that is zero has the positive sign, also with both signs changed; so sums
of negatives are looked at with zero apart.
-/
import LineCharts.Proofs.Double.Negation

namespace LineCharts

namespace Double

open Float.Model (UnpackedFloat Format)
open Float.Model.UnpackedFloat

variable {x y z : Float} {a b : ℚ}

/-! ### Sums and differences -/

theorem regular_round (s : Sign) {m : Nat} (hm : 0 < m) (e : Int) :
    Regular (UnpackedFloat.round .binary64 s m e) := by
  show Regular (roundWithAccuracy .binary64 s (m <<< (e - target m e).toNat)
    (e - (e - target m e).toNat) .exact)
  exact regular_roundWithAccuracy s (describes_exact _ _) (le_target_shiftLeft hm e)

theorem regular_normalize (M e : Int) (s : Sign) : Regular (normalize .binary64 M e s) := by
  rw [UnpackedFloat.normalize]
  split
  case h_1 hM =>
    have hneg : M < 0 := compare_lt_iff_lt.1 hM
    exact regular_round _ (by omega) e
  case h_2 => trivial
  case h_3 hM =>
    have hpos : 0 < M := compare_gt_iff_gt.1 hM
    exact regular_round _ (by omega) e

theorem normalize_neg {M : Int} (hM : M ≠ 0) (e : Int) (s : Sign) :
    normalize .binary64 (-M) e s = (normalize .binary64 M e s).neg := by
  have hround (s' : Sign) (m : Nat) : UnpackedFloat.round .binary64 (-s') m e =
      (UnpackedFloat.round .binary64 s' m e).neg := roundWithAccuracy_neg _ _ _ _
  rcases lt_or_gt_of_ne hM with hneg | hpos
  · have hup : compare (-M) 0 = .gt := compare_gt_iff_gt.2 (by omega)
    have hdown : compare M 0 = .lt := compare_lt_iff_lt.2 hneg
    rw [UnpackedFloat.normalize, UnpackedFloat.normalize, hup, hdown]
    exact hround .negative _
  · have hdown : compare (-M) 0 = .lt := compare_lt_iff_lt.2 (by omega)
    have hup : compare M 0 = .gt := compare_gt_iff_gt.2 hpos
    rw [UnpackedFloat.normalize, UnpackedFloat.normalize, hup, hdown]
    dsimp only
    rw [Int.neg_neg]
    exact hround .positive _

theorem regular_add {u v : UnpackedFloat} (hu : Regular u) (hv : Regular v) :
    Regular (.add .binary64 u v) := by
  rcases add_cases hu hv with ⟨M, e, _, heq⟩ | ⟨hregular, _⟩
  · rw [heq]
    exact regular_normalize M e _
  · exact hregular

/-- The negatives of two numbers have the negative of their sum, unless it is zero. -/
theorem add_neg_neg (u v : UnpackedFloat) :
    UnpackedFloat.add .binary64 u.neg v.neg = (UnpackedFloat.add .binary64 u v).neg ∨
      UnpackedFloat.add .binary64 u v = .zero .positive ∧
        UnpackedFloat.add .binary64 u.neg v.neg = .zero .positive := by
  cases u with
  | notANumber => exact .inl rfl
  | infinity s =>
    cases v with
    | notANumber => exact .inl rfl
    | infinity s' => cases s <;> cases s' <;> exact .inl rfl
    | zero s' => exact .inl rfl
    | finite s' m' e' h' => exact .inl rfl
  | zero s =>
    cases v with
    | notANumber => exact .inl rfl
    | infinity s' => exact .inl rfl
    | zero s' =>
      cases s with
      | positive =>
        cases s' with
        | positive => exact .inl rfl
        | negative => exact .inr ⟨rfl, rfl⟩
      | negative =>
        cases s' with
        | positive => exact .inr ⟨rfl, rfl⟩
        | negative => exact .inl rfl
    | finite s' m' e' h' => exact .inl rfl
  | finite s m e h =>
    cases v with
    | notANumber => exact .inl rfl
    | infinity s' => exact .inl rfl
    | zero s' => exact .inl rfl
    | finite s' m' e' h' =>
      have happly (s : Sign) (n : Nat) : (-s).apply n = -s.apply n := by
        cases s with
        | positive => rfl
        | negative => exact (Int.neg_neg _).symm
      simp only [UnpackedFloat.add, UnpackedFloat.neg, happly, ← neg_add]
      generalize s.apply _ + s'.apply _ = M
      by_cases hM : M = 0
      · subst hM
        exact .inr ⟨rfl, rfl⟩
      · exact .inl (normalize_neg hM _ _)

theorem add_comm_parts (u v : UnpackedFloat) :
    UnpackedFloat.add .binary64 u v = UnpackedFloat.add .binary64 v u := by
  cases u with
  | notANumber => cases v <;> rfl
  | infinity s =>
    cases v with
    | infinity s' => cases s <;> cases s' <;> rfl
    | notANumber => rfl
    | zero s' => rfl
    | finite s' m' e' h' => rfl
  | zero s =>
    cases v with
    | zero s' => cases s <;> cases s' <;> rfl
    | notANumber => rfl
    | infinity s' => rfl
    | finite s' m' e' h' => rfl
  | finite s m e h =>
    cases v with
    | notANumber => rfl
    | infinity s' => rfl
    | zero s' => rfl
    | finite s' m' e' h' =>
      simp only [UnpackedFloat.add, min_comm e e', Int.add_comm]

theorem add_comm (x y : Float) : x + y = y + x := by
  rw [add_eq, add_eq, add_comm_parts]

theorem sub_eq_add_neg (x y : Float) : x - y = x + -y := by
  rw [sub_eq, add_eq, parts_neg, sub_eq_add]

theorem neg_add_neg (x y : Float) : -x + -y = -(x + y) ∨ x + y = 0.0 ∧ -x + -y = 0.0 := by
  rw [add_eq, add_eq, parts_neg, parts_neg, zero_eq,
    ← ofParts_neg (regular_add (regular_parts x) (regular_parts y))]
  exact (add_neg_neg (parts x) (parts y)).imp (congrArg ofParts)
    (And.imp (congrArg ofParts) (congrArg ofParts))

/-! ### Signs -/

/-- The double that is no number. -/
def nan : Float := ofParts .notANumber

/-- The double above all others. -/
def infinity : Float := ofParts (.infinity .positive)

theorem plus_or_neg (u : UnpackedFloat) : Plus u ∨ Plus u.neg ∨ u = .notANumber := by
  cases u with
  | notANumber => exact .inr (.inr rfl)
  | infinity s =>
    cases s with
    | positive => exact .inl rfl
    | negative => exact .inr (.inl rfl)
  | zero s =>
    cases s with
    | positive => exact .inl rfl
    | negative => exact .inr (.inl rfl)
  | finite s m e h =>
    cases s with
    | positive => exact .inl rfl
    | negative => exact .inr (.inl rfl)

/-- A double has the positive sign, is the negative of one that has, or is no number. -/
theorem sign_cases (x : Float) :
    Plus (parts x) ∨ (∃ y, Plus (parts y) ∧ x = -y) ∨ x = nan := by
  rcases plus_or_neg (parts x) with h | h | h
  · exact .inl h
  · rw [← parts_neg] at h
    exact .inr (.inl ⟨-x, h, (neg_neg x).symm⟩)
  · exact .inr (.inr (by rw [nan, ← h, ofParts_parts]))

theorem parts_nan : parts nan = .notANumber := by
  have hregular : Regular .notANumber := trivial
  rw [nan, parts_ofParts hregular]
  rfl

theorem not_nan_lt : ¬ nan < x := by
  rw [lt_iff_compare, parts_nan]
  simp [UnpackedFloat.compare]

theorem not_lt_nan : ¬ x < nan := by
  rw [lt_iff_compare, parts_nan]
  cases parts x <;> simp [UnpackedFloat.compare]

theorem le_iff_compare : x ≤ y ↔ ((parts x).compare (parts y)).any Ordering.isLE = true :=
  decide_eq_true_iff

/-- Different signs decide a comparison, unless both numbers are zero. -/
theorem compare_signs {u v : UnpackedFloat} (hu : Plus u) (hv : Plus v) :
    (amount u = 0 ∧ amount v = 0) ∧ u.neg.compare v = some .eq ∧ u.compare v.neg = some .eq ∨
      (amount u ≠ 0 ∨ amount v ≠ 0) ∧ u.neg.compare v = some .lt ∧
        u.compare v.neg = some .gt := by
  cases u with
  | notANumber => exact hu.elim
  | infinity s =>
    obtain rfl : s = .positive := hu
    refine .inr ⟨.inl WithTop.top_ne_zero, ?_⟩
    cases v with
    | notANumber => exact hv.elim
    | infinity s' =>
      obtain rfl : s' = .positive := hv
      exact ⟨rfl, rfl⟩
    | zero s' => exact ⟨rfl, rfl⟩
    | finite s' m' e' h' => exact ⟨rfl, rfl⟩
  | zero s =>
    cases v with
    | notANumber => exact hv.elim
    | infinity s' =>
      obtain rfl : s' = .positive := hv
      exact .inr ⟨.inr WithTop.top_ne_zero, rfl, rfl⟩
    | zero s' => exact .inl ⟨⟨rfl, rfl⟩, rfl, rfl⟩
    | finite s' m' e' h' =>
      obtain rfl : s' = .positive := hv
      exact .inr ⟨.inr (amount_finite_pos h').ne', rfl, rfl⟩
  | finite s m e h =>
    obtain rfl : s = .positive := hu
    refine .inr ⟨.inl (amount_finite_pos h).ne', ?_⟩
    cases v with
    | notANumber => exact hv.elim
    | infinity s' =>
      obtain rfl : s' = .positive := hv
      exact ⟨rfl, rfl⟩
    | zero s' => exact ⟨rfl, rfl⟩
    | finite s' m' e' h' =>
      obtain rfl : s' = .positive := hv
      exact ⟨rfl, rfl⟩

/-- What has the positive sign is not below the negative of what has. -/
theorem not_lt_neg (hx : Plus (parts x)) (hy : Plus (parts y)) : ¬ x < -y := by
  rw [lt_iff_compare, parts_neg]
  rcases compare_signs hx hy with ⟨_, _, hcompare⟩ | ⟨_, _, hcompare⟩
  · rw [hcompare]
    decide
  · rw [hcompare]
    decide

/-- The negative of a number is below another number unless both are zero. -/
theorem neg_lt_iff (hx : Plus (parts x)) (hy : Plus (parts y)) :
    -x < y ↔ amount (parts x) ≠ 0 ∨ amount (parts y) ≠ 0 := by
  rw [lt_iff_compare, parts_neg]
  rcases compare_signs hx hy with ⟨⟨hx', hy'⟩, hcompare, _⟩ | ⟨hne, hcompare, _⟩
  · rw [hcompare, hx', hy']
    simp
  · rw [hcompare]
    exact iff_of_true rfl hne

/-- What has the positive sign is above the negative of what has, unless both are zero. -/
theorem not_le_neg (hx : Plus (parts x)) (hy : Plus (parts y))
    (hpos : amount (parts x) ≠ 0 ∨ amount (parts y) ≠ 0) : ¬ x ≤ -y := by
  rw [le_iff_compare, parts_neg]
  rcases compare_signs hx hy with ⟨⟨hx', hy'⟩, _⟩ | ⟨_, _, hcompare⟩
  · exact absurd hpos (by rw [hx', hy']; simp)
  · rw [hcompare]
    decide

theorem neg_le_neg : -x ≤ -y ↔ y ≤ x := by
  rw [le_iff_compare, le_iff_compare, parts_neg, parts_neg, compare_neg]

/-- A number that is not above zero is not above one that is not below it. -/
theorem neg_le (hx : Plus (parts x)) (hy : 0.0 ≤ y) : -x ≤ y := by
  rcases sign_cases y with h | ⟨y, h, rfl⟩ | rfl
  · rw [le_iff_compare, parts_neg]
    rcases compare_signs hx h with ⟨_, hcompare, _⟩ | ⟨_, hcompare, _⟩
    · rw [hcompare]
      rfl
    · rw [hcompare]
      rfl
  · -- only the negative of zero is not below zero
    have hzero : amount (parts y) = 0 := by
      by_contra hne
      exact not_le_neg plus_zero h (.inr hne) hy
    obtain rfl : y = 0.0 := eq_zero_of_amount h hzero
    exact neg_le_neg.mpr (zero_le hx)
  · exact absurd hy (by decide)

/-- What is above a number with the positive sign has it too. -/
theorem plus_of_lt (hx : Plus (parts x)) (h : x < y) : Plus (parts y) := by
  rcases sign_cases y with hy | ⟨y, hy, rfl⟩ | rfl
  · exact hy
  · exact absurd h (not_lt_neg hx hy)
  · exact absurd h not_lt_nan

theorem lt_irrefl (x : Float) : ¬ x < x := by
  rcases sign_cases x with hx | ⟨x, hx, rfl⟩ | rfl
  · rw [lt_iff_amount hx hx]
    exact (le_refl _).not_gt
  · rw [neg_lt_neg, lt_iff_amount hx hx]
    exact (le_refl _).not_gt
  · exact not_nan_lt

theorem parts_infinity : parts infinity = .infinity .positive := by
  have hregular : Regular (.infinity .positive) := trivial
  rw [infinity, parts_ofParts hregular]
  rfl

theorem eq_infinity (hx : Plus (parts x)) (ha : amount (parts x) = ⊤) : x = infinity := by
  rw [← parts_inj, parts_of_top hx ha, parts_infinity]

theorem plus_infinity : Plus (parts infinity) := by
  rw [parts_infinity]
  rfl

theorem infinity_add (hx : Plus (parts x)) : infinity + x = infinity := by
  rw [add_eq, parts_infinity, infinity]
  generalize parts x = u at *
  cases u with
  | notANumber => exact hx.elim
  | infinity s =>
    obtain rfl : s = .positive := hx
    rfl
  | zero s => rfl
  | finite s m e h => rfl

theorem infinity_sub (hx : Plus (parts x)) (ha : amount (parts x) = a) :
    infinity - x = infinity := by
  rw [sub_eq, parts_infinity, infinity]
  rcases plus_cases hx ha with ⟨h, _⟩ | ⟨m, e, _, h, _⟩
  · rw [h]
    rfl
  · rw [h]
    rfl

theorem plus_add (hx : Plus (parts x)) (hy : Plus (parts y)) : Plus (parts (x + y)) := by
  cases ha : amount (parts x) with
  | top =>
    rw [eq_infinity hx ha, infinity_add hy]
    exact plus_infinity
  | coe a =>
    cases hb : amount (parts y) with
    | top =>
      rw [eq_infinity hy hb, add_comm, infinity_add hx]
      exact plus_infinity
    | coe b => exact (rounds_add hx hy ha hb).plus

theorem rounds_sub (hx : Plus (parts x)) (hy : Plus (parts y)) (ha : amount (parts x) = a)
    (hb : amount (parts y) = b) (hle : b ≤ a) : Rounds (a - b) (x - y) := by
  rcases plus_cases hy hb with ⟨hyu, rfl⟩ | ⟨m₂, e₂, h₂, hyu, rfl⟩
  · obtain rfl : y = 0.0 := eq_zero_of_parts hyu
    rw [sub_zero, sub_zero_of_plus hx]
    exact rounds_self hx ha
  · rcases plus_cases hx ha with ⟨_, rfl⟩ | ⟨m₁, e₁, h₁, hxu, rfl⟩
    · have hpos : (0 : ℚ) < m₂ * 2 ^ e₂ := mul_pos (Nat.cast_pos.2 h₂) (two_zpow_pos e₂)
      exact absurd hle (not_le.2 hpos)
    · rw [sub_eq, hxu, hyu]
      -- both mantissas are shifted to the lesser exponent
      obtain ⟨t, ht⟩ : ∃ t, t = Min.min e₁ e₂ := ⟨_, rfl⟩
      have hdiff : UnpackedFloat.sub .binary64 (.finite .positive m₁ e₁ h₁)
          (.finite .positive m₂ e₂ h₂) = normalize .binary64
            (((m₁ <<< (e₁ - t).toNat : Nat) : Int) - (m₂ <<< (e₂ - t).toNat : Nat)) t
              .positive := by
        rw [ht]
        rfl
      rw [hdiff]
      rw [mul_zpow_eq_shiftLeft m₁ (show t ≤ e₁ by omega),
        mul_zpow_eq_shiftLeft m₂ (show t ≤ e₂ by omega)] at hle ⊢
      generalize m₁ <<< (e₁ - t).toNat = n₁ at *
      generalize m₂ <<< (e₂ - t).toNat = n₂ at *
      have hn : n₂ ≤ n₁ := Nat.cast_le.1 (le_of_mul_le_mul_right hle (two_zpow_pos t))
      rw [← Nat.cast_sub hn, ← sub_mul, ← Nat.cast_sub hn]
      exact rounds_normalize _ t

/-- The greater of two numbers less the other one has the positive sign. -/
theorem plus_sub_of_lt (hx : Plus (parts x)) (hy : Plus (parts y)) (h : x < y) :
    Plus (parts (y - x)) := by
  rw [lt_iff_amount hx hy] at h
  cases ha : amount (parts x) with
  | top => exact absurd (ha ▸ h) not_top_lt
  | coe a =>
    cases hb : amount (parts y) with
    | top =>
      rw [eq_infinity hy hb, infinity_sub hx ha]
      exact plus_infinity
    | coe b =>
      rw [ha, hb] at h
      exact (rounds_sub hy hx hb ha (WithTop.coe_lt_coe.1 h).le).plus

theorem plus_sub (h : x < y) : Plus (parts (y - x)) := by
  rcases sign_cases x with hx | ⟨x, hx, rfl⟩ | rfl
  · rcases sign_cases y with hy | ⟨y, hy, rfl⟩ | rfl
    · exact plus_sub_of_lt hx hy h
    · exact absurd h (not_lt_neg hx hy)
    · exact absurd h not_lt_nan
  · rcases sign_cases y with hy | ⟨y, hy, rfl⟩ | rfl
    · rw [sub_eq_add_neg, neg_neg]
      exact plus_add hy hx
    · rw [sub_eq_add_neg, neg_neg, add_comm, ← sub_eq_add_neg]
      exact plus_sub_of_lt hy hx (neg_lt_neg.mp h)
    · exact absurd h not_lt_nan
  · exact absurd h not_nan_lt

/-- **A difference to a greater number is not above any number that is not below zero.** -/
theorem sub_le_of_lt (h : x < y) (hz : 0.0 ≤ z) : x - y ≤ z := by
  have hopposite := neg_add_neg y (-x)
  rw [neg_neg, add_comm (-y), ← sub_eq_add_neg, ← sub_eq_add_neg] at hopposite
  rcases hopposite with heq | ⟨_, heq⟩
  · rw [heq]
    exact neg_le (plus_sub h) hz
  · rw [heq]
    exact hz

end Double

end LineCharts
