/-
The text of a rational that ends behind the point.

* `Decimal.Numeral` — digits in front of a point and behind it, and the number they denote;
* `Decimal.magnitude_eq` — the positional form of a decimal is a numeral;
* `Exact.fullPlaces?_of_ends` — a rational whose denominator divides a power of ten has enough
  places, no more than its denominator has binary digits;
* `Exact.text_of_ends` — so its text is a numeral of its size, behind its sign.
-/
import LineCharts.Scalar.Exact
import Mathlib.Tactic

namespace LineCharts

/-! ### Numerals -/

namespace Decimal

/-- Digits in front of a point and behind it. -/
structure Numeral where
  whole : List Char
  fraction : List Char
  whole_digits : ∀ c ∈ whole, c.isDigit = true
  fraction_digits : ∀ c ∈ fraction, c.isDigit = true
  some_digit : whole ++ fraction ≠ []

namespace Numeral

/-- The point stands only in front of digits. -/
def text (n : Numeral) : List Char :=
  n.whole ++ if n.fraction = [] then [] else '.' :: n.fraction

/-- The number that digits denote. -/
def value (n : Numeral) : Rat :=
  (Nat.ofDigitChars 10 (n.whole ++ n.fraction) 0 : Nat) / 10 ^ n.fraction.length

theorem text_head (n : Numeral) :
    ∃ c cs, n.text = c :: cs ∧ (c.isDigit = true ∨ c = '.') := by
  rw [text]
  cases hwhole : n.whole with
  | nil =>
    have hfraction : n.fraction ≠ [] := by
      have hne := n.some_digit
      rwa [hwhole, List.nil_append] at hne
    exact ⟨'.', n.fraction, by rw [if_neg hfraction, List.nil_append], .inr rfl⟩
  | cons c cs => exact ⟨c, _, rfl, .inl (n.whole_digits c (by simp [hwhole]))⟩

theorem point_mem_text (n : Numeral) : '.' ∈ n.text ↔ n.fraction ≠ [] := by
  have hwhole : '.' ∉ n.whole := fun h => absurd (n.whole_digits _ h) (by decide)
  rw [text, List.mem_append]
  split
  case isTrue h => simp [h, hwhole]
  case isFalse h => simp [h]

end Numeral

theorem isDigit_of_mem_toDigits {n : Nat} {c : Char} (h : c ∈ Nat.toDigits 10 n) :
    c.isDigit = true :=
  Nat.isDigit_of_mem_toDigits (by decide) (by decide) h

theorem isDigit_of_mem_padded {width n : Nat} {c : Char} (h : c ∈ padded width n) :
    c.isDigit = true := by
  rcases List.mem_append.mp h with h | h
  · rw [List.eq_of_mem_replicate h]
    decide
  · exact isDigit_of_mem_toDigits h

/-- A plain form has digits, a point and a sign. -/
theorem mem_plain {d : Decimal} {c : Char} (h : c ∈ d.plain.toList) :
    c.isDigit = true ∨ c = '.' ∨ c = '-' := by
  have hmagnitude : ∀ c ∈ d.magnitude, c.isDigit = true ∨ c = '.' ∨ c = '-' := by
    intro c hc
    rw [magnitude] at hc
    split at hc
    · exact .inl (isDigit_of_mem_toDigits hc)
    · rcases List.mem_append.mp hc with hc | hc
      · exact .inl (isDigit_of_mem_toDigits hc)
      rcases List.mem_cons.mp hc with rfl | hc
      · exact .inr (.inl rfl)
      · exact .inl (isDigit_of_mem_padded hc)
  rw [plain, signed, String.toList_ofList] at h
  split at h
  · rcases List.mem_cons.mp h with rfl | h
    · exact .inr (.inr rfl)
    · exact hmagnitude c h
  · exact hmagnitude c h

theorem length_padded {width n : Nat} (hwidth : 0 < width) (hn : n < 10 ^ width) :
    (padded width n).length = width := by
  have hle := (Nat.length_toDigits_le_iff (by decide) hwidth).mpr hn
  rw [padded, List.length_append, List.length_replicate, Nat.sub_add_cancel hle]

theorem ofDigitChars_padded (width n : Nat) : Nat.ofDigitChars 10 (padded width n) 0 = n := by
  rw [padded, Nat.ofDigitChars_append, Nat.ofDigitChars_replicate_zero, Nat.mul_zero,
    Nat.ofDigitChars_ten_toDigits]

/-- The digits of `c / 10 ^ places`. -/
def numeral (c places : Nat) : Numeral where
  whole := Nat.toDigits 10 (c / 10 ^ places)
  fraction := if places = 0 then [] else padded places (c % 10 ^ places)
  whole_digits _ h := isDigit_of_mem_toDigits h
  fraction_digits c h := by
    split at h
    · cases h
    · exact isDigit_of_mem_padded h
  some_digit h := Nat.toDigits_ne_nil (List.append_eq_nil_iff.mp h).1

theorem numeral_value (c places : Nat) : (numeral c places).value = c / 10 ^ places := by
  rw [Numeral.value, numeral]
  dsimp only
  rcases Nat.eq_zero_or_pos places with rfl | hpos
  · rw [if_pos rfl, List.append_nil, Nat.ofDigitChars_ten_toDigits, pow_zero, Nat.div_one]
    rfl
  · rw [if_neg (Nat.ne_of_gt hpos), length_padded hpos (Nat.mod_lt _ (by positivity)),
      Nat.ofDigitChars_append, Nat.ofDigitChars_ten_toDigits,
        Nat.ofDigitChars_eq_ofDigitChars_zero,
      length_padded hpos (Nat.mod_lt _ (by positivity)), ofDigitChars_padded, Nat.div_add_mod]

theorem magnitude_eq (negative : Bool) (c places : Nat) :
    (Decimal.mk negative c (-places)).magnitude = (numeral c places).text := by
  cases places with
  | zero =>
    have hfraction : (numeral c 0).fraction = [] := rfl
    rw [Numeral.text, if_pos hfraction, List.append_nil]
    show Nat.toDigits 10 (c * 1) = Nat.toDigits 10 (c / 1)
    rw [Nat.mul_one, Nat.div_one]
  | succ p =>
    have hfraction : (numeral c (p + 1)).fraction = padded (p + 1) (c % 10 ^ (p + 1)) := rfl
    have hlength :=
      length_padded (Nat.succ_pos p) (Nat.mod_lt c (by positivity : 10 ^ (p + 1) > 0))
    have hne : (numeral c (p + 1)).fraction ≠ [] := by
      intro h
      rw [← hfraction, h] at hlength
      cases hlength
    rw [Numeral.text, if_neg hne, hfraction]
    rfl

end Decimal

/-! ### Rationals that end -/

namespace Exact

/-- The rational has finitely many decimal places. -/
def Ends (x : Rat) : Prop := ∃ n : Nat, x.den ∣ 10 ^ n

theorem ends_div {unit : Rat} (k : Int) (hunit : ∃ digits : Int, unit = 10 ^ digits) :
    Ends (k / unit) := by
  obtain ⟨digits, rfl⟩ := hunit
  cases digits with
  | ofNat n =>
    refine ⟨n, ?_⟩
    have hdvd := Rat.den_dvd k (10 ^ n : Int)
    have hcast : ((k : Rat) / ((10 ^ n : Int) : Rat)) = k / 10 ^ (Int.ofNat n) := by
      push_cast
      rw [Int.ofNat_eq_natCast, zpow_natCast]
    rw [Rat.divInt_eq_div, hcast] at hdvd
    exact_mod_cast hdvd
  | negSucc n =>
    refine ⟨0, ?_⟩
    have hcast : (k : Rat) / 10 ^ (Int.negSucc n) = ((k * 10 ^ (n + 1) : Int) : Rat) := by
      rw [zpow_negSucc, div_inv_eq_mul]
      push_cast
      rfl
    rw [hcast, Rat.den_intCast]
    exact one_dvd _

/-- As many places are enough as the denominator has binary digits. -/
theorem dvd_pow_log2 {d n : Nat} (hd : d ≠ 0) (h : d ∣ 10 ^ n) : d ∣ 10 ^ Nat.log2 d := by
  have hten : ∀ m : Nat, 10 ^ m = 2 ^ m * 5 ^ m := fun m => by rw [← Nat.mul_pow]
  rw [hten] at h
  obtain ⟨a, b, ha, hb, rfl⟩ := (Nat.dvd_mul).mp h
  obtain ⟨i, _, rfl⟩ := (Nat.dvd_prime_pow Nat.prime_two).mp ha
  obtain ⟨j, _, rfl⟩ := (Nat.dvd_prime_pow Nat.prime_five).mp hb
  have hi : i ≤ Nat.log2 (2 ^ i * 5 ^ j) :=
    (Nat.le_log2 hd).mpr (Nat.le_mul_of_pos_right _ (by positivity))
  have hj : j ≤ Nat.log2 (2 ^ i * 5 ^ j) := by
    refine (Nat.le_log2 hd).mpr ?_
    calc 2 ^ j ≤ 5 ^ j := Nat.pow_le_pow_left (by decide) j
      _ ≤ 2 ^ i * 5 ^ j := Nat.le_mul_of_pos_left _ (by positivity)
  rw [hten (Nat.log2 _)]
  exact Nat.mul_dvd_mul (Nat.pow_dvd_pow 2 hi) (Nat.pow_dvd_pow 5 hj)

/-- **A rational that ends has a number of places** in which it is written in full. -/
theorem fullPlaces?_of_ends {x : Rat} (h : Ends x) :
    ∃ places, fullPlaces? x = some places ∧ x.den ∣ 10 ^ places := by
  obtain ⟨n, hn⟩ := h
  have hlog := dvd_pow_log2 x.den_ne_zero hn
  cases hfind : fullPlaces? x with
  | some places =>
    have hfound := List.find?_some hfind
    exact ⟨places, rfl, Nat.dvd_of_mod_eq_zero (eq_of_beq hfound)⟩
  | none =>
    -- the bound of the search is itself such a number
    have hall := List.find?_eq_none.mp hfind (Nat.log2 x.den) (by simp)
    exact absurd (beq_iff_eq.mpr (Nat.mod_eq_zero_of_dvd hlog)) hall

theorem abs_eq_natAbs_div (x : Rat) : |x| = (x.num.natAbs : Rat) / x.den := by
  conv_lhs => rw [← Rat.num_div_den x]
  rw [abs_div, Nat.abs_cast, Nat.cast_natAbs, Int.cast_abs]

theorem divEven_of_dvd {num den : Nat} (hden : 0 < den) (h : den ∣ num) :
    Decimal.divEven num den = num / den := by
  simp [Decimal.divEven, Nat.mod_eq_zero_of_dvd h, hden]

/-- **The text of a rational that ends** is a numeral of its size, behind a
minus if it is negative. -/
theorem text_of_ends {x : Rat} (h : Ends x) :
    ∃ n : Decimal.Numeral, n.value = |x| ∧ n.whole ≠ [] ∧
    (text x).toList = if x < 0 then '-' :: n.text else n.text := by
  obtain ⟨places, hplaces, hdvd⟩ := fullPlaces?_of_ends h
  have hden : (x.den : Rat) ≠ 0 := Nat.cast_ne_zero.mpr x.den_ne_zero
  have hcoefficient : Decimal.divEven (x.num.natAbs * Nat.pow 10 places) x.den =
      x.num.natAbs * (10 ^ places / x.den) :=
    (divEven_of_dvd x.den_pos (Dvd.dvd.mul_left hdvd _)).trans (Nat.mul_div_assoc _ hdvd)
  refine ⟨Decimal.numeral (x.num.natAbs * (10 ^ places / x.den)) places, ?_,
    Nat.toDigits_ne_nil, ?_⟩
  · rw [Decimal.numeral_value, Nat.cast_mul, Nat.cast_div hdvd hden]
    rw [abs_eq_natAbs_div]
    field_simp
    push_cast
    rfl
  · rw [text, hplaces, Option.getD_some, rounded, hcoefficient, Decimal.plain, Decimal.signed,
      Decimal.magnitude_eq, String.toList_ofList]
    simp

end Exact

end LineCharts
