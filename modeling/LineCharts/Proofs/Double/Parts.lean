/-
Doubles taken apart.

* `parts` takes a double apart, `ofParts` puts one together; the operations on doubles are
  operations on parts (`add_eq`, `sub_eq`, `mul_eq`, `div_eq`);
* `regular_parts`, `parts_ofParts` — the mantissa of a double is normal or its exponent is the
  least one, and such parts come back, but for the overflow to infinity (`held`);
* `amount` is the distance of a double from zero;
* `beq_iff`, `le_iff_amount`, `lt_iff_amount` — equality, and the order of doubles
  that are not negative.

Design notes.  The parts of finite doubles are compared by their exponents first, so the order
needs that both are regular.
-/
import Mathlib
import LineCharts.Scalar.Double

namespace LineCharts.Double

open Float.Model (UnpackedFloat Format)
open Float.Model.UnpackedFloat

/-- A double taken apart. -/
def parts (x : Float) : UnpackedFloat := x.toModel.unpack

/-- The double that has these parts, or overflows from them. -/
def ofParts (u : UnpackedFloat) : Float := .ofModel (.pack u)

theorem add_eq (x y : Float) : x + y = ofParts (.add .binary64 (parts x) (parts y)) := rfl

theorem sub_eq (x y : Float) : x - y = ofParts (.sub .binary64 (parts x) (parts y)) := rfl

theorem mul_eq (x y : Float) : x * y = ofParts (.mul .binary64 (parts x) (parts y)) := rfl

theorem div_eq (x y : Float) : x / y = ofParts (.div .binary64 (parts x) (parts y)) := rfl

theorem ofParts_parts (x : Float) : ofParts (parts x) = x :=
  Float.toBits_inj.1 (UInt64.toBitVec_inj.1 (pack_unpack_of_valid x.toModel.valid))

theorem parts_inj {x y : Float} : parts x = parts y ↔ x = y := by
  constructor
  · intro h
    rw [← ofParts_parts x, h, ofParts_parts]
  · rintro rfl
    rfl

/-! ### Regular parts -/

/-- A mantissa has 53 bits, or fewer at the least exponent. -/
def Regular : UnpackedFloat → Prop
  | .finite _ m e _ => m < 2 ^ 53 ∧ -1074 ≤ e ∧ (2 ^ 52 ≤ m ∨ e = -1074)
  | _ => True

/-- What is left of parts in a double: an exponent that is too great gives infinity. -/
def held : UnpackedFloat → UnpackedFloat
  | .finite s m e h => if e ≤ 971 then .finite s m e h else .infinity s
  | u => u

/-! ### Packing and unpacking -/

theorem toNat_one_append (m : BitVec 52) : (1#1 ++ m).toNat = 2 ^ 52 + m.toNat := by
  rw [BitVec.toNat_append, ← Nat.shiftLeft_add_eq_or_of_lt m.isLt]
  rfl

/-- What the parts of a double are, by the fields of its bits. -/
theorem unpack_components (s : Sign) (e : BitVec 11) (m : BitVec 52) :
    unpack .binary64 (packComponents .binary64 s e m) =
      if e = -1#11 then if m = 0#52 then .infinity s else .notANumber
      else if e = 0#11 then
        if h : m = 0#52 then .zero s
        else .finite s m.toNat (-1074)
          (by simpa [BitVec.toNat_pos, BitVec.pos_iff_ne_zero] using h)
      else .finite s (1#1 ++ m).toNat (e.toNat - 1075) (by rw [toNat_one_append]; omega) := by
  simp only [unpack, unpackExponent_packComponents, unpackMantissa_packComponents,
    unpackSign_packComponents, Sign.ofBitVec_toBitVec]
  by_cases hinf : e = -1#11
  · rw [if_pos hinf, if_pos hinf]
  rw [if_neg hinf, if_neg hinf]
  by_cases hsub : e = 0#11
  · subst hsub
    rfl
  · rw [if_neg hsub, if_neg hsub]
    rfl

theorem regular_unpack_components (s : Sign) (e : BitVec 11) (m : BitVec 52) :
    Regular (unpack .binary64 (packComponents .binary64 s e m)) ∧
      ∀ s' m' e' h, unpack .binary64 (packComponents .binary64 s e m) = .finite s' m' e' h →
        e' ≤ 971 := by
  rw [unpack_components]
  by_cases hinf : e = -1#11
  · rw [if_pos hinf]
    split
    · exact ⟨trivial, fun _ _ _ _ h => by cases h⟩
    · exact ⟨trivial, fun _ _ _ _ h => by cases h⟩
  rw [if_neg hinf]
  have hm := m.isLt
  by_cases hsub : e = 0#11
  · rw [if_pos hsub]
    split
    · exact ⟨trivial, fun _ _ _ _ h => by cases h⟩
    · refine ⟨⟨by omega, by omega, .inr rfl⟩, ?_⟩
      intro _ _ _ _ h
      cases h
      omega
  · rw [if_neg hsub]
    -- a normal number: the implicit bit makes up 53 bits
    have hlow : e.toNat ≠ 0 := fun h => hsub (BitVec.eq_of_toNat_eq h)
    have hhigh : e.toNat ≠ 2047 := fun h => hinf (BitVec.eq_of_toNat_eq h)
    have he := e.isLt
    refine ⟨⟨?_, ?_, ?_⟩, ?_⟩
    · rw [toNat_one_append]
      omega
    · omega
    · rw [toNat_one_append]
      omega
    · intro _ _ _ _ h
      cases h
      omega

theorem components_unpack (b : BitVec 64) : ∃ s e m, b = packComponents .binary64 s e m :=
  ⟨_, _, _, (@packComponents_unpackSign_unpackExponent_unpackMantissa .binary64 b).symm⟩

/-- The parts of a double are regular. -/
theorem regular_parts (x : Float) : Regular (parts x) := by
  obtain ⟨s, e, m, h⟩ := components_unpack x.toModel.toBits.toBitVec
  rw [parts, Float.Model.unpack, h]
  exact (regular_unpack_components s e m).1

theorem exponent_le {x : Float} {s : Sign} {m : Nat} {e : Int} {h : 0 < m}
    (hx : parts x = .finite s m e h) : e ≤ 971 := by
  obtain ⟨s', e', m', hb⟩ := components_unpack x.toModel.toBits.toBitVec
  rw [parts, Float.Model.unpack, hb] at hx
  exact (regular_unpack_components s' e' m').2 _ _ _ _ hx

/-- The bounds on mantissa and exponent of a finite double. -/
theorem bounds_of_parts {x : Float} {s : Sign} {m : Nat} {e : Int} {h : 0 < m}
    (hx : parts x = .finite s m e h) :
    m < 2 ^ 53 ∧ -1074 ≤ e ∧ (2 ^ 52 ≤ m ∨ e = -1074) ∧ e ≤ 971 := by
  have hu := regular_parts x
  rw [hx] at hu
  exact ⟨hu.1, hu.2.1, hu.2.2, exponent_le hx⟩

/-- The fields of the bits of a finite double. -/
theorem pack_finite (s : Sign) {m : Nat} {e : Int} (h : 0 < m)
    (hu : Regular (.finite s m e h)) :
    pack .binary64 (.finite s m e h) =
      if 971 < e then packedInfinity .binary64 s
      else packComponents .binary64 s
        (if 2 ^ 52 ≤ m then BitVec.ofNat 11 (e + 1075).toNat else 0#11)
          (BitVec.ofNat 52 m) := by
  obtain ⟨hm, hlow, hnormal⟩ := hu
  have hbias : e + (Format.binary64.exponentBias : Nat) +
      (Format.binary64.mantissaBitsWithoutImplicit : Nat) = e + 1075 := by
    show e + (1023 : Nat) + (52 : Nat) = e + 1075
    omega
  have hwidth : Format.binary64.mantissaBits = 53 := rfl
  simp only [pack, hbias, hwidth]
  by_cases hhigh : 971 < e
  · rw [if_pos hhigh, if_pos (show 2048 ≤ (e + 1075).toNat + 1 by omega)]
  · rw [if_neg hhigh, if_neg (show ¬ 2048 ≤ (e + 1075).toNat + 1 by omega)]
    by_cases hbits : 2 ^ 52 ≤ m
    · have hlog : m.log2 = 52 := (Nat.log2_eq_iff (by omega)).2 ⟨hbits, hm⟩
      rw [if_pos hbits, if_pos (by omega)]
    · have hlog : m.log2 < 52 := (Nat.log2_lt (by omega)).2 (by omega)
      rw [if_neg hbits, if_neg (by omega)]

theorem unpack_normal (s : Sign) {m : Nat} {e : Int} (h : 0 < m) (hbits : 2 ^ 52 ≤ m)
    (hm : m < 2 ^ 53) (hlow : -1074 ≤ e) (hhigh : e ≤ 971) :
    unpack .binary64 (packComponents .binary64 s (BitVec.ofNat 11 (e + 1075).toNat)
      (BitVec.ofNat 52 m)) = .finite s m e h := by
  have hexp : (BitVec.ofNat 11 (e + 1075).toNat).toNat = (e + 1075).toNat := by
    rw [BitVec.toNat_ofNat, Nat.mod_eq_of_lt (by omega)]
  have hmant : (1#1 ++ BitVec.ofNat 52 m).toNat = m := by
    rw [toNat_one_append, BitVec.toNat_ofNat]
    omega
  have hinf : BitVec.ofNat 11 (e + 1075).toNat ≠ -1#11 := by
    intro h
    rw [h, show (-1#11 : BitVec 11).toNat = 2047 from rfl] at hexp
    omega
  have hsub : BitVec.ofNat 11 (e + 1075).toNat ≠ 0#11 := by
    intro h
    rw [h, show (0#11 : BitVec 11).toNat = 0 from rfl] at hexp
    omega
  rw [unpack_components, if_neg hinf, if_neg hsub]
  simp only [hmant, hexp]
  congr 1
  omega

theorem unpack_subnormal (s : Sign) {m : Nat} (h : 0 < m) (hbits : m < 2 ^ 52) :
    unpack .binary64 (packComponents .binary64 s 0#11 (BitVec.ofNat 52 m)) =
      .finite s m (-1074) h := by
  have hmant : (BitVec.ofNat 52 m).toNat = m := by
    rw [BitVec.toNat_ofNat]
    omega
  have hzero : BitVec.ofNat 52 m ≠ 0#52 := by
    intro h
    rw [h, show (0#52 : BitVec 52).toNat = 0 from rfl] at hmant
    omega
  rw [unpack_components, if_neg (by decide), if_pos rfl, dif_neg hzero]
  simp only [hmant]

/-- Regular parts come back from a double, but for an overflow. -/
theorem parts_ofParts {u : UnpackedFloat} (hu : Regular u) : parts (ofParts u) = held u := by
  show unpack .binary64 (pack .binary64 u) = held u
  have hinfinity (s : Sign) :
      unpack .binary64 (packedInfinity .binary64 s) = .infinity s := by
    rw [packedInfinity, unpack_components]
    rfl
  cases u with
  | infinity s => exact hinfinity s
  | notANumber => exact unpack_packedNaN
  | zero s => exact unpack_packedZero
  | finite s m e h =>
    rw [pack_finite s h hu, held]
    obtain ⟨hm, hlow, hnormal⟩ := hu
    by_cases hhigh : 971 < e
    · rw [if_pos hhigh, if_neg (show ¬ e ≤ 971 by omega)]
      exact hinfinity s
    · rw [if_neg hhigh, if_pos (show e ≤ 971 by omega)]
      by_cases hbits : 2 ^ 52 ≤ m
      · rw [if_pos hbits]
        exact unpack_normal s h hbits hm hlow (by omega)
      · -- with fewer bits the exponent is the least one, and its field is zero
        obtain rfl : e = -1074 := by omega
        rw [if_neg hbits]
        exact unpack_subnormal s h (by omega)

/-! ### The order of doubles that are not negative -/

/-- The sign of the parts is plus, and they have a sign. -/
def Plus : UnpackedFloat → Prop
  | .infinity s | .zero s | .finite s _ _ _ => s = .positive
  | .notANumber => False

/-- The distance from zero; none is infinite but that of infinity. -/
def amount : UnpackedFloat → WithTop ℚ
  | .infinity _ => ⊤
  | .finite _ m e _ => ((m * 2 ^ e : ℚ) : WithTop ℚ)
  | _ => 0

theorem two_zpow_pos (e : ℤ) : (0 : ℚ) < 2 ^ e := zpow_pos (by norm_num) e

theorem amount_finite_pos {s : Sign} {m : Nat} {e : Int} (h : 0 < m) :
    0 < amount (.finite s m e h) := by
  have hm : (0 : ℚ) < m := Nat.cast_pos.2 h
  exact WithTop.coe_lt_coe.2 (mul_pos hm (two_zpow_pos e))

/-- A mantissa of 53 bits at a greater exponent is not below any other one. -/
theorem le_of_exponent_lt {m₁ m₂ : Nat} {e₁ e₂ : Int} (h₁ : m₁ ≤ 2 ^ 53) (h₂ : 2 ^ 52 ≤ m₂)
    (he : e₁ < e₂) : (m₁ * 2 ^ e₁ : ℚ) ≤ m₂ * 2 ^ e₂ := by
  have hm₁ : (m₁ : ℚ) ≤ 2 ^ 53 := by exact_mod_cast h₁
  have hm₂ : (2 ^ 52 : ℚ) ≤ m₂ := by exact_mod_cast h₂
  calc (m₁ * 2 ^ e₁ : ℚ) ≤ 2 ^ 53 * 2 ^ e₁ := by gcongr
    _ = 2 ^ 52 * 2 ^ (e₁ + 1) := by
      rw [zpow_add₀ (by norm_num)]
      ring
    _ ≤ 2 ^ 52 * 2 ^ e₂ := by
      gcongr
      · norm_num
      · omega
    _ ≤ m₂ * 2 ^ e₂ := by gcongr

/-- Of two regular numbers the one with the greater exponent is greater. -/
theorem lt_of_exponent_lt {m₁ m₂ : Nat} {e₁ e₂ : Int} (h₁ : m₁ < 2 ^ 53) (h₂ : 2 ^ 52 ≤ m₂)
    (he : e₁ < e₂) : (m₁ * 2 ^ e₁ : ℚ) < m₂ * 2 ^ e₂ := by
  have hm₁ : (m₁ : ℚ) < ((2 ^ 53 : Nat) : ℚ) := Nat.cast_lt.2 h₁
  calc (m₁ * 2 ^ e₁ : ℚ) < ((2 ^ 53 : Nat) : ℚ) * 2 ^ e₁ := by gcongr
    _ ≤ m₂ * 2 ^ e₂ := le_of_exponent_lt le_rfl h₂ he

theorem compare_coe (a b : ℚ) : compare (a : WithTop ℚ) b = compare a b := by
  rcases lt_trichotomy a b with h | rfl | h
  · rw [compare_lt_iff_lt.2 h, compare_lt_iff_lt.2 (WithTop.coe_lt_coe.2 h)]
  · rw [compare_eq_iff_eq.2 rfl, compare_eq_iff_eq.2 rfl]
  · rw [compare_gt_iff_gt.2 h, compare_gt_iff_gt.2 (WithTop.coe_lt_coe.2 h)]

/-- Regular numbers are compared by their exponents, and then by their mantissas. -/
theorem compare_finite {m₁ m₂ : Nat} {e₁ e₂ : Int} {h₁ : 0 < m₁} {h₂ : 0 < m₂}
    (hu : Regular (.finite .positive m₁ e₁ h₁)) (hv : Regular (.finite .positive m₂ e₂ h₂)) :
    (compare e₁ e₂).then (compare m₁ m₂) = compare (m₁ * 2 ^ e₁ : ℚ) (m₂ * 2 ^ e₂) := by
  obtain ⟨hm₁, hlow₁, hnormal₁⟩ := hu
  obtain ⟨hm₂, hlow₂, hnormal₂⟩ := hv
  rcases lt_trichotomy e₁ e₂ with he | rfl | he
  · have hlt := lt_of_exponent_lt hm₁ (show 2 ^ 52 ≤ m₂ by omega) he
    rw [compare_lt_iff_lt.2 he, compare_lt_iff_lt.2 hlt]
    rfl
  · rw [compare_eq_iff_eq.2 rfl]
    have hpos := two_zpow_pos e₁
    rcases lt_trichotomy m₁ m₂ with hm | rfl | hm
    · have hlt : (m₁ * 2 ^ e₁ : ℚ) < m₂ * 2 ^ e₁ := by gcongr
      rw [compare_lt_iff_lt.2 hm, compare_lt_iff_lt.2 hlt]
      rfl
    · rw [compare_eq_iff_eq.2 rfl, compare_eq_iff_eq.2 rfl]
      rfl
    · have hgt : (m₂ * 2 ^ e₁ : ℚ) < m₁ * 2 ^ e₁ := by gcongr
      rw [compare_gt_iff_gt.2 hm, compare_gt_iff_gt.2 hgt]
      rfl
  · have hgt := lt_of_exponent_lt hm₂ (show 2 ^ 52 ≤ m₁ by omega) he
    rw [compare_gt_iff_gt.2 he, compare_gt_iff_gt.2 hgt]
    rfl

/-- Parts that are not negative are compared by their amounts. -/
theorem compare_plus {u v : UnpackedFloat} (hu : Regular u) (hv : Regular v) (hup : Plus u)
    (hvp : Plus v) : u.compare v = some (compare (amount u) (amount v)) := by
  cases u with
  | notANumber => exact hup.elim
  | infinity s =>
    obtain rfl : s = .positive := hup
    cases v with
    | notANumber => exact hvp.elim
    | infinity s' =>
      obtain rfl : s' = .positive := hvp
      rw [compare_eq_iff_eq.2 rfl]
      rfl
    | zero s' =>
      rw [compare_gt_iff_gt.2 (WithTop.coe_lt_top 0)]
      rfl
    | finite s' m e h =>
      rw [compare_gt_iff_gt.2 (WithTop.coe_lt_top _)]
      rfl
  | zero s =>
    cases v with
    | notANumber => exact hvp.elim
    | infinity s' =>
      obtain rfl : s' = .positive := hvp
      rw [compare_lt_iff_lt.2 (WithTop.coe_lt_top 0)]
      rfl
    | zero s' =>
      rw [compare_eq_iff_eq.2 (show amount (.zero s) = amount (.zero s') from rfl)]
      rfl
    | finite s' m e h =>
      obtain rfl : s' = .positive := hvp
      have hpos : amount (.zero s) < amount (.finite .positive m e h) := amount_finite_pos h
      rw [compare_lt_iff_lt.2 hpos]
      rfl
  | finite s m e h =>
    obtain rfl : s = .positive := hup
    cases v with
    | notANumber => exact hvp.elim
    | infinity s' =>
      obtain rfl : s' = .positive := hvp
      rw [compare_lt_iff_lt.2 (WithTop.coe_lt_top _)]
      rfl
    | zero s' =>
      have hpos : amount (.zero s') < amount (.finite .positive m e h) := amount_finite_pos h
      rw [compare_gt_iff_gt.2 hpos]
      rfl
    | finite s' m' e' h' =>
      obtain rfl : s' = .positive := hvp
      rw [UnpackedFloat.compare, compare_finite hu hv, amount, amount, compare_coe]

variable {x y : Float}

theorem le_iff_amount (hx : Plus (parts x)) (hy : Plus (parts y)) :
    x ≤ y ↔ amount (parts x) ≤ amount (parts y) := by
  have h : x ≤ y ↔ (UnpackedFloat.compare (parts x) (parts y)).any Ordering.isLE = true :=
    decide_eq_true_iff
  rw [h, compare_plus (regular_parts x) (regular_parts y) hx hy, Option.any_some,
    Ordering.isLE_iff_ne_gt]
  exact compare_le_iff_le

theorem lt_iff_amount (hx : Plus (parts x)) (hy : Plus (parts y)) :
    x < y ↔ amount (parts x) < amount (parts y) := by
  have h : x < y ↔ (UnpackedFloat.compare (parts x) (parts y) == some .lt) = true :=
    decide_eq_true_iff
  rw [h, compare_plus (regular_parts x) (regular_parts y) hx hy, beq_iff_eq, Option.some_inj,
    compare_lt_iff_lt]

end LineCharts.Double
