/-
What rounding does to a number that is not negative.

* `Describes` — a mantissa with two residual bits describes a rational: it is the part of it
  above the unit, and the bits tell on which side of the middle the rest lies;
* `Nearest` — a double is what rounding makes of a rational; `nearest_mul`, `nearest_div` —
  products and quotients are;
* `Nearest.mono` — rounding keeps the order;
* `Nearest.rounds` — what rounding makes of a rational is not above a number that a double can
  hold if the rational is not, and not below if the rational is not (`Rounds`).

Design notes.  That the result lies between the neighbours makes rounding keep what a double
can hold.  For the order of two rationals between the same neighbours the middle matters, and
that a tie goes one way.
-/
import LineCharts.Proofs.Double.Parts

namespace LineCharts.Double

open Float.Model (UnpackedFloat Format totalExponent)
open Float.Model.UnpackedFloat

/-! ### Residual bits -/

/-- The mantissa is the part of `q` above the unit `2 ^ e`, and the residual bits are clear
exactly if nothing is below.  The first of them is set from the middle of the unit on, and it
alone in the middle. -/
structure Describes (q : ℚ) (em : ExtendedMantissa) (e : Int) : Prop where
  low : em.mantissa * 2 ^ e ≤ q
  high : q < (em.mantissa + 1) * 2 ^ e
  exact : q = em.mantissa * 2 ^ e ↔ (em.roundBit || em.stickyBit) = false
  middle : (2 * em.mantissa + 1) * 2 ^ e ≤ 2 * q ↔ em.roundBit = true
  tie : 2 * q = (2 * em.mantissa + 1) * 2 ^ e ↔ em.roundBit = true ∧ em.stickyBit = false

variable {q : ℚ} {em : ExtendedMantissa} {m : Nat} {e : Int} {acc : Accuracy}

theorem describes_exact (m : Nat) (e : Int) :
    Describes (m * 2 ^ e) (.ofMantissaAndAccuracy m .exact) e where
  low := le_refl _
  high := by
    have h := two_zpow_pos e
    show (m * 2 ^ e : ℚ) < (m + 1) * 2 ^ e
    linarith
  exact := ⟨fun _ => rfl, fun _ => rfl⟩
  middle := by
    have h := two_zpow_pos e
    show (2 * m + 1) * 2 ^ e ≤ 2 * (m * 2 ^ e : ℚ) ↔ false = true
    refine iff_of_false (fun hle => ?_) Bool.false_ne_true
    linarith
  tie := by
    have h := two_zpow_pos e
    show 2 * (m * 2 ^ e : ℚ) = (2 * m + 1) * 2 ^ e ↔ false = true ∧ _
    refine iff_of_false (fun heq => ?_) fun hset => Bool.false_ne_true hset.1
    linarith

theorem zpow_succ (e : Int) : (2 : ℚ) ^ (e + 1) = 2 * 2 ^ e := by
  rw [zpow_add₀ (by norm_num)]
  ring

/-- The mantissa gives its lowest bit to the residual bits. -/
theorem Describes.shiftRightOne (h : Describes q em e) :
    Describes q em.shiftRightOne (e + 1) := by
  have hpos := two_zpow_pos e
  have hdiv : ((em.mantissa / 2 : Nat) : ℚ) * 2 + ((em.mantissa % 2 : Nat) : ℚ) =
      em.mantissa := by
    exact_mod_cast Nat.div_add_mod' em.mantissa 2
  have hrest : ((em.mantissa % 2 : Nat) : ℚ) ≤ 1 := by
    exact_mod_cast Nat.le_of_lt_succ (Nat.mod_lt _ (by norm_num))
  have hnonneg : (0 : ℚ) ≤ ((em.mantissa % 2 : Nat) : ℚ) := Nat.cast_nonneg _
  have hlow := h.low
  have hhigh := h.high
  constructor
  · show ((em.mantissa / 2 : Nat) : ℚ) * 2 ^ (e + 1) ≤ q
    rw [zpow_succ]
    nlinarith
  · show q < (((em.mantissa / 2 : Nat) : ℚ) + 1) * 2 ^ (e + 1)
    rw [zpow_succ]
    nlinarith
  · show q = ((em.mantissa / 2 : Nat) : ℚ) * 2 ^ (e + 1) ↔
      ((em.mantissa % 2 != 0) || (em.roundBit || em.stickyBit)) = false
    rw [zpow_succ, Bool.or_eq_false_iff, ← h.exact, bne_eq_false_iff_eq]
    constructor
    · intro hq
      have heven : ((em.mantissa % 2 : Nat) : ℚ) = 0 := by nlinarith
      refine ⟨by exact_mod_cast heven, ?_⟩
      rw [hq, ← hdiv, heven]
      ring
    · rintro ⟨heven, hq⟩
      rw [heven, Nat.cast_zero, add_zero] at hdiv
      rw [hq, ← hdiv]
      ring
  · -- the middle of the new unit is an odd multiple of the old one
    show (2 * ((em.mantissa / 2 : Nat) : ℚ) + 1) * 2 ^ (e + 1) ≤ 2 * q ↔
      (em.mantissa % 2 != 0) = true
    rw [zpow_succ]
    rcases Nat.mod_two_eq_zero_or_one em.mantissa with heven | hodd
    · rw [heven, Nat.cast_zero, add_zero] at hdiv
      rw [← hdiv] at hhigh
      rw [heven]
      exact iff_of_false (fun hle => by linarith) Bool.false_ne_true
    · rw [hodd, Nat.cast_one] at hdiv
      rw [← hdiv] at hlow
      rw [hodd]
      exact iff_of_true (by linarith) rfl
  · show 2 * q = (2 * ((em.mantissa / 2 : Nat) : ℚ) + 1) * 2 ^ (e + 1) ↔
      (em.mantissa % 2 != 0) = true ∧ (em.roundBit || em.stickyBit) = false
    rw [zpow_succ, ← h.exact]
    rcases Nat.mod_two_eq_zero_or_one em.mantissa with heven | hodd
    · rw [heven, Nat.cast_zero, add_zero] at hdiv
      rw [← hdiv] at hhigh
      rw [heven]
      exact iff_of_false (fun heq => by linarith) fun hset => Bool.false_ne_true hset.1
    · rw [hodd, Nat.cast_one] at hdiv
      rw [hodd, ← hdiv]
      refine Iff.trans ?_ (and_iff_right rfl).symm
      constructor
      · intro heq
        linarith
      · intro heq
        linarith

theorem Describes.shiftRight (h : Describes q em e) (n : Nat) :
    Describes q (em >>> n) (e + n) := by
  induction n with
  | zero =>
    rw [Nat.cast_zero, add_zero]
    exact h
  | succ n ih =>
    rw [Nat.cast_succ, ← add_assoc]
    exact ih.shiftRightOne

/-- Rounding takes the mantissa, or the next one if something is below. -/
theorem Describes.roundedMantissa (h : Describes q em e) :
    em.roundedMantissa = em.mantissa ∨
      em.roundedMantissa = em.mantissa + 1 ∧ em.mantissa * 2 ^ e < q := by
  by_cases hclear : (em.roundBit || em.stickyBit) = false
  · left
    obtain ⟨m, round, sticky⟩ := em
    obtain ⟨rfl, rfl⟩ := Bool.or_eq_false_iff.1 hclear
    rfl
  · have hbelow : em.mantissa * 2 ^ e < q :=
      lt_of_le_of_ne h.low fun heq => hclear (h.exact.1 heq.symm)
    obtain ⟨m, round, sticky⟩ := em
    cases round with
    | false =>
      obtain rfl : sticky = true := by simpa using hclear
      exact .inl rfl
    | true =>
      cases sticky with
      | true => exact .inr ⟨rfl, hbelow⟩
      | false =>
        -- a tie goes to the even one of the two
        show m + m % 2 = m ∨ m + m % 2 = m + 1 ∧ _
        have hbit := Nat.mod_two_eq_zero_or_one m
        exact hbit.imp (by omega) fun hodd => ⟨by omega, hbelow⟩

/-! ### The first shift -/

/-- The exponent that rounding gives to a mantissa. -/
def target (m : Nat) (e : Int) : Int := Format.binary64.targetExponent (totalExponent m e)

theorem target_eq (m : Nat) (e : Int) :
    target m e = Max.max ((m.log2 : Int) + e - 52) (-1074) := by
  show Max.max ((m.log2 : Int) + 1 + e - (53 : Nat)) (3 - 2 ^ 10 - (53 : Nat)) = _
  omega

/-- A mantissa at the exponent that rounding gives to it has 53 bits at most, and no fewer
unless the exponent is the least one. -/
theorem Describes.bits {r : ExtendedMantissa} (h : Describes q em e)
    (he : e ≤ target em.mantissa e) (h' : Describes q r (target em.mantissa e)) :
    r.mantissa < 2 ^ 53 ∧ (2 ^ 52 ≤ r.mantissa ∨ target em.mantissa e = -1074) := by
  have ht := target_eq em.mantissa e
  generalize target em.mantissa e = t at *
  have hpos := two_zpow_pos t
  have hpow (k : Nat) : (2 : ℚ) ^ k * 2 ^ t = 2 ^ (k + t) := by
    rw [zpow_add₀ (by norm_num), zpow_natCast]
  constructor
  · have hbits : ((em.mantissa + 1 : Nat) : ℚ) ≤ ((2 ^ (em.mantissa.log2 + 1) : Nat) : ℚ) :=
      Nat.cast_le.2 Nat.lt_log2_self
    have hq : q < 2 ^ 53 * 2 ^ t :=
      calc q < (em.mantissa + 1) * 2 ^ e := h.high
        _ ≤ 2 ^ (em.mantissa.log2 + 1) * 2 ^ e := by
          push_cast at hbits
          gcongr
        _ = 2 ^ (((em.mantissa.log2 + 1 : Nat) : Int) + e) := by
          rw [zpow_add₀ (by norm_num), zpow_natCast]
        _ ≤ 2 ^ (((53 : Nat) : Int) + t) := zpow_le_zpow_right₀ (by norm_num) (by omega)
        _ = 2 ^ 53 * 2 ^ t := (hpow 53).symm
    have hlt : (r.mantissa : ℚ) < 2 ^ 53 :=
      lt_of_mul_lt_mul_right (lt_of_le_of_lt h'.low hq) hpos.le
    exact_mod_cast hlt
  · by_cases hleast : t = -1074
    · exact .inr hleast
    left
    -- the mantissa of zero is at the least exponent, where nothing is claimed
    have hne : em.mantissa ≠ 0 := by
      intro hzero
      rw [hzero, Nat.log2_zero] at ht
      omega
    have hbits : ((2 ^ em.mantissa.log2 : Nat) : ℚ) ≤ (em.mantissa : ℚ) :=
      Nat.cast_le.2 (Nat.log2_self_le hne)
    have hq : 2 ^ 52 * 2 ^ t < ((r.mantissa : ℚ) + 1) * 2 ^ t :=
      calc (2 : ℚ) ^ 52 * 2 ^ t = 2 ^ (((52 : Nat) : Int) + t) := hpow 52
        _ = 2 ^ ((em.mantissa.log2 : Int) + e) := by
          congr 1
          omega
        _ = 2 ^ em.mantissa.log2 * 2 ^ e := by
          rw [zpow_add₀ (by norm_num), zpow_natCast]
        _ ≤ em.mantissa * 2 ^ e := by
          push_cast at hbits
          gcongr
        _ ≤ q := h.low
        _ < (r.mantissa + 1) * 2 ^ t := h'.high
    have hlt : ((2 ^ 52 : Nat) : ℚ) < ((r.mantissa + 1 : Nat) : ℚ) := by
      push_cast
      exact lt_of_mul_lt_mul_right hq hpos.le
    exact Nat.le_of_lt_succ (Nat.cast_lt.1 hlt)

/-! ### The result -/

/-- A mantissa of at most 53 bits and a carry, as parts. -/
def normal (s : Sign) (r : Nat) (t : Int) : UnpackedFloat :=
  if h : r = 0 then .zero s
  else if r < 2 ^ 53 then .finite s r t (Nat.pos_of_ne_zero h)
  else .finite s (2 ^ 52) (t + 1) (by norm_num)

theorem amount_normal (s : Sign) {r : Nat} (hr : r ≤ 2 ^ 53) (t : Int) :
    amount (normal s r t) = ((r * 2 ^ t : ℚ) : WithTop ℚ) := by
  rw [normal]
  by_cases hzero : r = 0
  · rw [dif_pos hzero, hzero, Nat.cast_zero, zero_mul]
    rfl
  · rw [dif_neg hzero]
    by_cases hlt : r < 2 ^ 53
    · rw [if_pos hlt]
      rfl
    · obtain rfl : r = 2 ^ 53 := by omega
      rw [if_neg hlt, amount, zpow_succ]
      congr 1
      push_cast
      ring

theorem regular_normal (s : Sign) {r : Nat} {t : Int} (ht : -1074 ≤ t)
    (hnormal : 2 ^ 52 ≤ r ∨ t = -1074) : Regular (normal s r t) := by
  rw [normal]
  split
  · trivial
  · split
    · exact ⟨by assumption, ht, hnormal⟩
    · exact ⟨by norm_num, by omega, .inl (le_refl _)⟩

theorem mantissa_ofMantissaAndAccuracy (m : Nat) (acc : Accuracy) :
    (ExtendedMantissa.ofMantissaAndAccuracy m acc).mantissa = m := by
  rcases acc with _ | _ | _ | _ <;> rfl

theorem shiftToTargetExponent_eq {m : Nat} {e : Int} (acc : Accuracy) (he : e ≤ target m e) :
    shiftToTargetExponent .binary64 m e acc =
      (ExtendedMantissa.ofMantissaAndAccuracy m acc >>> (target m e - e).toNat,
        target m e) := by
  have hsum : e + ((target m e - e).toNat : Int) = target m e := by omega
  show (_, e + ((target m e - e).toNat : Int)) = _
  rw [hsum]
  rfl

/-- The second shift takes the carry. -/
theorem carry {r : Nat} {t : Int} (hr : r ≤ 2 ^ 53) (ht : -1074 ≤ t) :
    ((shiftToTargetExponent .binary64 r t .exact).1.mantissa,
      (shiftToTargetExponent .binary64 r t .exact).2) =
        if r < 2 ^ 53 then (r, t) else (2 ^ 52, t + 1) := by
  have htarget := target_eq r t
  by_cases hlt : r < 2 ^ 53
  · have hlog : r.log2 ≤ 52 := by
      by_cases hzero : r = 0
      · rw [hzero, Nat.log2_zero]
        omega
      · have hlog := (Nat.log2_lt hzero).2 hlt
        omega
    have hshift : (target r t - t).toNat = 0 := by omega
    show ((ExtendedMantissa.ofMantissaAndAccuracy r .exact >>>
      (target r t - t).toNat).mantissa, t + ((target r t - t).toNat : Int)) = _
    rw [if_pos hlt, hshift, Nat.cast_zero, add_zero]
    rfl
  · obtain rfl : r = 2 ^ 53 := by omega
    have hlog : (2 ^ 53 : Nat).log2 = 53 := Nat.log2_two_pow
    have hone : target (2 ^ 53) t = t + 1 := by omega
    rw [if_neg hlt, shiftToTargetExponent_eq .exact (by omega), hone,
      show (t + 1 - t).toNat = 1 by omega]
    rfl

/-- Rounding shifts the mantissa to its exponent, rounds it there, and
then takes the carry. -/
theorem roundWithAccuracy_eq_normal (s : Sign)
    (hq : Describes q (.ofMantissaAndAccuracy m acc) e) (he : e ≤ target m e) :
    ∃ em' : ExtendedMantissa,
      roundWithAccuracy .binary64 s m e acc = normal s em'.roundedMantissa (target m e) ∧
      Describes q em' (target m e) ∧ em'.mantissa < 2 ^ 53 ∧
      (2 ^ 52 ≤ em'.mantissa ∨ target m e = -1074) := by
  have hleast : -1074 ≤ target m e := by
    rw [target_eq]
    omega
  -- the residual bits take what the shift drops
  have hfirst := hq.shiftRight (target m e - e).toNat
  rw [show e + ((target m e - e).toNat : Int) = target m e by omega] at hfirst
  have hbits :=
    hq.bits (r := ExtendedMantissa.ofMantissaAndAccuracy m acc >>> (target m e - e).toNat)
  rw [mantissa_ofMantissaAndAccuracy] at hbits
  obtain ⟨hlt, hnormal⟩ := hbits he hfirst
  have hshift := shiftToTargetExponent_eq acc he
  generalize ExtendedMantissa.ofMantissaAndAccuracy m acc >>> (target m e - e).toNat =
    em' at *
  generalize target m e = t at *
  have hround := hfirst.roundedMantissa
  have hr : em'.roundedMantissa ≤ 2 ^ 53 := by omega
  refine ⟨em', ?_, hfirst, hlt, hnormal⟩
  have hcarry := carry hr hleast
  rw [roundWithAccuracy, hshift]
  dsimp only
  rw [Prod.ext_iff] at hcarry
  dsimp only at hcarry
  simp only [hcarry.1, hcarry.2, normal]
  by_cases hzero : em'.roundedMantissa = 0
  · simp only [hzero]
    rfl
  · by_cases hsmall : em'.roundedMantissa < 2 ^ 53
    · simp only [hsmall, if_true]
    · simp only [hsmall, hzero, if_false]
      rfl

/-- Rounding takes one of the two neighbours at the exponent that it gives to the mantissa,
and then the carry. -/
theorem roundWithAccuracy_eq (s : Sign) (hq : Describes q (.ofMantissaAndAccuracy m acc) e)
    (he : e ≤ target m e) : ∃ m' r : Nat,
      roundWithAccuracy .binary64 s m e acc = normal s r (target m e) ∧ r ≤ 2 ^ 53 ∧
      (2 ^ 52 ≤ m' ∨ target m e = -1074) ∧ m' * 2 ^ target m e ≤ q ∧
      q < (m' + 1) * 2 ^ target m e ∧ (r = m' ∨ r = m' + 1 ∧ m' * 2 ^ target m e < q) := by
  obtain ⟨em', heq, hdescribes, hlt, hnormal⟩ := roundWithAccuracy_eq_normal s hq he
  have hround := hdescribes.roundedMantissa
  exact ⟨em'.mantissa, em'.roundedMantissa, heq, by omega, hnormal, hdescribes.low,
    hdescribes.high, hround⟩

/-! ### Rounded numbers -/

/-- A number that a double can hold. -/
def Representable (v : ℚ) : Prop :=
  ∃ (m : Nat) (e : Int), m < 2 ^ 53 ∧ -1074 ≤ e ∧ e ≤ 971 ∧ v = m * 2 ^ e

/-- `x` is not negative, and it lies between the neighbours of `q` that a double can hold. -/
structure Rounds (q : ℚ) (x : Float) : Prop where
  plus : Plus (parts x)
  low : ∀ {v : ℚ}, Representable v → v ≤ q → v ≤ amount (parts x)
  high : ∀ {v : ℚ}, Representable v → q ≤ v → amount (parts x) ≤ v

/-- No number that a double can hold lies between a rational and the neighbour that rounding
takes. -/
theorem not_between {m' r : Nat} {t : Int} (hnormal : 2 ^ 52 ≤ m' ∨ t = -1074)
    (hlow : m' * 2 ^ t ≤ q) (hhigh : q < (m' + 1) * 2 ^ t)
    (hr : r = m' ∨ r = m' + 1 ∧ m' * 2 ^ t < q) {v : ℚ} (hv : Representable v) :
    (v ≤ q → v ≤ r * 2 ^ t) ∧ (q ≤ v → r * 2 ^ t ≤ v) := by
  obtain ⟨n, k, hn, hk, _, rfl⟩ := hv
  have hpos := two_zpow_pos t
  have hmr : (m' : ℚ) ≤ r := Nat.cast_le.2 (by omega)
  by_cases htk : t ≤ k
  · -- then `v` is a multiple of the unit
    have hmultiple : (n * 2 ^ k : ℚ) = ((n * 2 ^ (k - t).toNat : Nat) : ℚ) * 2 ^ t := by
      have hk : k = ((k - t).toNat : Int) + t := by omega
      rw [Nat.cast_mul, Nat.cast_pow, mul_assoc, Nat.cast_ofNat, ← zpow_natCast,
        ← zpow_add₀ (by norm_num), ← hk]
    rw [hmultiple]
    generalize n * 2 ^ (k - t).toNat = N
    -- multiples of the unit are compared by their mantissas
    constructor
    · intro hle
      have hlt : ((N : Nat) : ℚ) < ((m' + 1 : Nat) : ℚ) := by
        push_cast
        exact lt_of_mul_lt_mul_right (lt_of_le_of_lt hle hhigh) hpos.le
      have hle : (N : ℚ) ≤ r := Nat.cast_le.2 (by have := Nat.cast_lt.1 hlt; omega)
      exact mul_le_mul_of_nonneg_right hle hpos.le
    · intro hle
      have hN : r ≤ N := by
        rcases hr with rfl | ⟨rfl, hlt⟩
        · exact Nat.cast_le.1 (le_of_mul_le_mul_right (le_trans hlow hle) hpos)
        · have hlt : ((m' : Nat) : ℚ) < N :=
            lt_of_mul_lt_mul_right (lt_of_lt_of_le hlt hle) hpos.le
          exact Nat.cast_lt.1 hlt
      exact mul_le_mul_of_nonneg_right (Nat.cast_le.2 hN) hpos.le
  · -- then `v` is below all mantissas at the unit
    have hlt : (n * 2 ^ k : ℚ) < m' * 2 ^ t := lt_of_exponent_lt hn (by omega) (by omega)
    constructor
    · intro _
      exact le_trans hlt.le (mul_le_mul_of_nonneg_right hmr hpos.le)
    · intro hle
      exact absurd (le_trans hlow hle) (not_le.2 hlt)

theorem plus_normal (r : Nat) (t : Int) : Plus (normal .positive r t) := by
  rw [normal]
  split
  · rfl
  · split <;> rfl

theorem plus_held {u : UnpackedFloat} (hu : Plus u) : Plus (held u) := by
  cases u with
  | finite s m e h =>
    rw [held]
    split
    · exact hu
    · exact hu
  | infinity s => exact hu
  | zero s => exact hu
  | notANumber => exact hu

theorem le_amount_held (u : UnpackedFloat) : amount u ≤ amount (held u) := by
  cases u with
  | finite s m e h =>
    rw [held]
    split
    · exact le_refl _
    · exact le_top
  | infinity s => exact le_refl _
  | zero s => exact le_refl _
  | notANumber => exact le_refl _

/-- What overflows is above all numbers that a double can hold. -/
theorem amount_held_le {u : UnpackedFloat} (hu : Regular u) {v : ℚ} (hv : Representable v)
    (h : amount u ≤ v) : amount (held u) ≤ v := by
  cases u with
  | finite s m e hm =>
    rw [held]
    split
    · exact h
    · obtain ⟨n, k, hn, _, hk, rfl⟩ := hv
      obtain ⟨_, _, hnormal⟩ := hu
      have hlt : (n * 2 ^ k : ℚ) < m * 2 ^ e := lt_of_exponent_lt hn (by omega) (by omega)
      exact absurd (WithTop.coe_le_coe.1 h) (not_le.2 hlt)
  | infinity s => exact h
  | zero s => exact h
  | notANumber => exact h

/-- `x` is what rounding makes of `q`: the mantissa of `q` at the exponent for
doubles, rounded there. -/
def Nearest (q : ℚ) (x : Float) : Prop :=
  ∃ (em : ExtendedMantissa) (t : Int), Describes q em t ∧ em.mantissa < 2 ^ 53 ∧ -1074 ≤ t ∧
    (2 ^ 52 ≤ em.mantissa ∨ t = -1074) ∧ x = ofParts (normal .positive em.roundedMantissa t)

theorem nearest_roundWithAccuracy (hq : Describes q (.ofMantissaAndAccuracy m acc) e)
    (he : e ≤ target m e) :
    Nearest q (ofParts (roundWithAccuracy .binary64 .positive m e acc)) := by
  obtain ⟨em, heq, hdescribes, hlt, hnormal⟩ := roundWithAccuracy_eq_normal .positive hq he
  have hleast : -1074 ≤ target m e := by
    rw [target_eq]
    omega
  exact ⟨em, target m e, hdescribes, hlt, hleast, hnormal, by rw [heq]⟩

/-- **Rounding takes a neighbour.** -/
theorem Nearest.rounds {x : Float} (h : Nearest q x) : Rounds q x := by
  obtain ⟨em, t, hdescribes, hlt, hleast, hnormal, rfl⟩ := h
  have hround := hdescribes.roundedMantissa
  have hbetween {v : ℚ} (hv : Representable v) :=
    not_between hnormal hdescribes.low hdescribes.high hround hv
  have hregular : Regular (normal .positive em.roundedMantissa t) :=
    regular_normal .positive hleast (by omega)
  have hamount := amount_normal .positive (show em.roundedMantissa ≤ 2 ^ 53 by omega) t
  constructor
  · rw [parts_ofParts hregular]
    exact plus_held (plus_normal _ _)
  · intro v hv hle
    rw [parts_ofParts hregular]
    refine le_trans ?_ (le_amount_held _)
    rw [hamount]
    exact WithTop.coe_le_coe.2 ((hbetween hv).1 hle)
  · intro v hv hle
    rw [parts_ofParts hregular]
    refine amount_held_le hregular hv ?_
    rw [hamount]
    exact WithTop.coe_le_coe.2 ((hbetween hv).2 hle)

/-- At one exponent the mantissa that rounding takes grows with the number. -/
theorem Describes.roundedMantissa_le {em' : ExtendedMantissa} {r : ℚ} (h : Describes q em e)
    (h' : Describes r em' e) (hle : q ≤ r) : em.roundedMantissa ≤ em'.roundedMantissa := by
  have hpos := two_zpow_pos e
  have hmantissa : em.mantissa ≤ em'.mantissa := by
    have hlt : ((em.mantissa : Nat) : ℚ) < ((em'.mantissa + 1 : Nat) : ℚ) := by
      push_cast
      exact lt_of_mul_lt_mul_right (lt_of_le_of_lt (h.low.trans hle) h'.high) hpos.le
    exact Nat.le_of_lt_succ (Nat.cast_lt.1 hlt)
  rcases hmantissa.lt_or_eq with hlt | heq
  · have hround := h.roundedMantissa
    have hround' := h'.roundedMantissa
    omega
  -- between the same neighbours the middle decides, and a tie goes the same way for both
  have hround := h.roundedMantissa
  have hround' := h'.roundedMantissa
  obtain ⟨_, _, _, hmiddle, htie⟩ := h
  obtain ⟨_, _, _, hmiddle', htie'⟩ := h'
  obtain ⟨m, round, sticky⟩ := em
  obtain ⟨m', round', sticky'⟩ := em'
  dsimp only at *
  subst heq
  cases round with
  | false =>
    have hdown : (ExtendedMantissa.mk m false sticky).roundedMantissa = m := by
      cases sticky <;> rfl
    omega
  | true =>
    have hq : (2 * m + 1) * 2 ^ e ≤ 2 * q := hmiddle.2 rfl
    obtain rfl : round' = true := hmiddle'.1 (by linarith)
    cases sticky' with
    | true =>
      have hup : (ExtendedMantissa.mk m true true).roundedMantissa = m + 1 := rfl
      omega
    | false =>
      have hr : 2 * r = (2 * m + 1) * 2 ^ e := htie'.2 ⟨rfl, rfl⟩
      obtain ⟨_, rfl⟩ := htie.1 (by linarith)
      exact le_rfl

/-- The rounded mantissas keep the order, also at different exponents. -/
theorem Describes.rounded_le {em' : ExtendedMantissa} {r : ℚ} {t t' : Int}
    (h : Describes q em t) (h' : Describes r em' t') (hlt : em.mantissa < 2 ^ 53)
    (hlt' : em'.mantissa < 2 ^ 53) (hnormal : 2 ^ 52 ≤ em.mantissa ∨ t = -1074)
    (hnormal' : 2 ^ 52 ≤ em'.mantissa ∨ t' = -1074) (hleast : -1074 ≤ t)
    (hleast' : -1074 ≤ t') (hle : q ≤ r) :
    (em.roundedMantissa * 2 ^ t : ℚ) ≤ em'.roundedMantissa * 2 ^ t' := by
  have hround := h.roundedMantissa
  have hround' := h'.roundedMantissa
  rcases lt_trichotomy t t' with ht | rfl | ht
  · exact le_of_exponent_lt (by omega) (by omega) ht
  · exact mul_le_mul_of_nonneg_right (Nat.cast_le.2 (h.roundedMantissa_le h' hle))
      (two_zpow_pos t).le
  · -- the number with the greater exponent would be the greater one
    have hhigh : r < ((em'.mantissa + 1 : Nat) : ℚ) * 2 ^ t' := by
      push_cast
      exact h'.high
    have hbelow := hhigh.trans_le
      ((le_of_exponent_lt (by omega) (by omega) ht).trans h.low)
    exact absurd hle (not_le.2 hbelow)

theorem rounds_roundWithAccuracy (hq : Describes q (.ofMantissaAndAccuracy m acc) e)
    (he : e ≤ target m e) :
    Rounds q (ofParts (roundWithAccuracy .binary64 .positive m e acc)) :=
  (nearest_roundWithAccuracy hq he).rounds

/-! ### What a double can hold -/

theorem representable_of_parts {x : Float} {s : Sign} (h : 0 < m)
    (hx : parts x = .finite s m e h) :
    Representable (m * 2 ^ e) := by
  obtain ⟨hm, hlow, _, hhigh⟩ := bounds_of_parts hx
  exact ⟨m, e, hm, hlow, hhigh, rfl⟩

/-- A whole number of at most 53 bits, shifted, can be held. -/
theorem representable_mul_pow {g k : Nat} (hg : g < 2 ^ 53) (hk : k ≤ 971) :
    Representable ((g * 2 ^ k : Nat) : ℚ) := by
  refine ⟨g, k, hg, by omega, by omega, ?_⟩
  rw [Nat.cast_mul, Nat.cast_pow, Nat.cast_ofNat, zpow_natCast]

theorem representable_natCast {n : Nat} (hn : n ≤ 2 ^ 53) : Representable (n : ℚ) := by
  by_cases hlt : n < 2 ^ 53
  · have h := representable_mul_pow (k := 0) hlt (by omega)
    rwa [pow_zero, mul_one] at h
  · obtain rfl : n = 2 ^ 52 * 2 ^ 1 := by omega
    exact representable_mul_pow (by norm_num) (by omega)

theorem representable_zero : Representable 0 :=
  ⟨0, 0, Nat.two_pow_pos 53, by norm_num, by norm_num, by norm_num⟩

variable {x y : Float} {a b : ℚ}

/-- A number that is not negative is its own rounding. -/
theorem rounds_self (hx : Plus (parts x)) (ha : amount (parts x) = a) : Rounds a x := by
  refine ⟨hx, fun {v} _ hle => ?_, fun {v} _ hle => ?_⟩
  · exact ha ▸ WithTop.coe_le_coe.2 hle
  · exact ha ▸ WithTop.coe_le_coe.2 hle

/-- What a double can hold is kept. -/
theorem Rounds.amount_eq (h : Rounds q x) (hq : Representable q) : amount (parts x) = q :=
  le_antisymm (h.high hq (le_refl q)) (h.low hq (le_refl q))

/-- What is not above a number that a double can hold does not overflow. -/
theorem Rounds.exists_amount (h : Rounds q x) {v : ℚ} (hv : Representable v) (hq : q ≤ v) :
    ∃ a : ℚ, amount (parts x) = a ∧ a ≤ v := by
  have hle := h.high hv hq
  obtain ⟨a, ha⟩ := WithTop.ne_top_iff_exists.1 (ne_top_of_le_ne_top WithTop.coe_ne_top hle)
  rw [← ha] at hle
  exact ⟨a, ha.symm, WithTop.coe_le_coe.1 hle⟩

theorem nearest_zero : Nearest 0 (ofParts (.zero .positive)) := by
  have hdescribes := describes_exact 0 (-1074)
  rw [Nat.cast_zero, zero_mul] at hdescribes
  exact ⟨_, -1074, hdescribes, Nat.two_pow_pos 53, le_rfl, .inr rfl, rfl⟩

theorem rounds_zero : Rounds 0 (ofParts (.zero .positive)) := nearest_zero.rounds

/-- A double that is neither negative nor infinite is zero or has a mantissa. -/
theorem plus_cases (hx : Plus (parts x)) (ha : amount (parts x) = a) :
    parts x = .zero .positive ∧ a = 0 ∨
      ∃ m e h, parts x = .finite .positive m e h ∧ a = m * 2 ^ e := by
  generalize parts x = u at *
  cases u with
  | notANumber => exact hx.elim
  | infinity s => exact absurd ha WithTop.top_ne_coe
  | zero s =>
    obtain rfl : s = .positive := hx
    exact .inl ⟨rfl, (WithTop.coe_injective ha).symm⟩
  | finite s m e h =>
    obtain rfl : s = .positive := hx
    exact .inr ⟨m, e, h, rfl, (WithTop.coe_injective ha).symm⟩

/-- **Rounding keeps the order.** -/
theorem Nearest.mono (h : Nearest a x) (h' : Nearest b y) (hle : a ≤ b) :
    amount (parts x) ≤ amount (parts y) := by
  have hplus := h'.rounds.plus
  obtain ⟨em, t, hq, hlt, hleast, hnormal, rfl⟩ := h
  obtain ⟨em', t', hr, hlt', hleast', hnormal', rfl⟩ := h'
  have hround := hq.roundedMantissa
  have hround' := hr.roundedMantissa
  have hregular : Regular (normal .positive em.roundedMantissa t) :=
    regular_normal .positive hleast (by omega)
  have hregular' : Regular (normal .positive em'.roundedMantissa t') :=
    regular_normal .positive hleast' (by omega)
  have hvalues : amount (normal .positive em.roundedMantissa t) ≤
      amount (normal .positive em'.roundedMantissa t') := by
    rw [amount_normal .positive (by omega), amount_normal .positive (by omega)]
    exact WithTop.coe_le_coe.2 (hq.rounded_le hr hlt hlt' hnormal hnormal' hleast hleast' hle)
  have hheld := hvalues.trans (le_amount_held _)
  rw [← parts_ofParts hregular'] at hheld
  rw [parts_ofParts hregular]
  -- if the greater one does not overflow, the other one does not either
  cases hc : amount (parts (ofParts (normal .positive em'.roundedMantissa t'))) with
  | top => exact le_top
  | coe c =>
    have hrepresentable : Representable c := by
      rcases plus_cases hplus hc with ⟨_, rfl⟩ | ⟨m, e, hm, hparts, rfl⟩
      · exact representable_zero
      · exact representable_of_parts hm hparts
    exact amount_held_le hregular hrepresentable (hc ▸ hheld)

/-! ### Products and quotients -/

theorem le_target_mul {m₁ m₂ : Nat} {e₁ e₂ : Int} (h₁ : 0 < m₁) (h₂ : 0 < m₂)
    (hx : Regular (.finite .positive m₁ e₁ h₁)) (hy : Regular (.finite .positive m₂ e₂ h₂)) :
    e₁ + e₂ ≤ target (m₁ * m₂) (e₁ + e₂) := by
  rw [target_eq]
  by_cases hbits : 2 ^ 52 ≤ m₁ * m₂
  · have hlog : 52 ≤ (m₁ * m₂).log2 := (Nat.le_log2 (by omega)).2 hbits
    omega
  · have hle₁ : m₁ ≤ m₁ * m₂ := Nat.le_mul_of_pos_right m₁ h₂
    have hle₂ : m₂ ≤ m₁ * m₂ := Nat.le_mul_of_pos_left m₂ h₁
    obtain ⟨_, _, hnormal₁⟩ := hx
    obtain ⟨_, _, hnormal₂⟩ := hy
    omega

theorem nearest_mul (hx : Plus (parts x)) (hy : Plus (parts y)) (ha : amount (parts x) = a)
    (hb : amount (parts y) = b) : Nearest (a * b) (x * y) := by
  have hrx := regular_parts x
  have hry := regular_parts y
  rw [mul_eq]
  rcases plus_cases hx ha with ⟨hxu, rfl⟩ | ⟨m₁, e₁, h₁, hxu, rfl⟩
  · rw [zero_mul, hxu]
    rcases plus_cases hy hb with ⟨hyu, rfl⟩ | ⟨m₂, e₂, h₂, hyu, rfl⟩
    · rw [hyu]
      exact nearest_zero
    · rw [hyu]
      exact nearest_zero
  · rcases plus_cases hy hb with ⟨hyu, rfl⟩ | ⟨m₂, e₂, h₂, hyu, rfl⟩
    · rw [mul_zero, hxu, hyu]
      exact nearest_zero
    · rw [hxu] at hrx ⊢
      rw [hyu] at hry ⊢
      have hproduct : (m₁ * 2 ^ e₁ * (m₂ * 2 ^ e₂) : ℚ) =
          ((m₁ * m₂ : Nat) : ℚ) * 2 ^ (e₁ + e₂) := by
        rw [zpow_add₀ (by norm_num), Nat.cast_mul]
        ring
      rw [hproduct]
      exact nearest_roundWithAccuracy (describes_exact _ _) (le_target_mul h₁ h₂ hrx hry)

theorem rounds_mul (hx : Plus (parts x)) (hy : Plus (parts y)) (ha : amount (parts x) = a)
    (hb : amount (parts y) = b) : Rounds (a * b) (x * y) := (nearest_mul hx hy ha hb).rounds

/-- The residual bits are clear exactly if there is no remainder. -/
theorem clear_accuracyOfFraction (m num den : Nat) :
    ((ExtendedMantissa.ofMantissaAndAccuracy m (accuracyOfFraction num den)).roundBit ||
      (ExtendedMantissa.ofMantissaAndAccuracy m (accuracyOfFraction num den)).stickyBit) =
        false ↔ num = 0 := by
  rw [accuracyOfFraction]
  split
  case isTrue h => exact ⟨fun _ => h, fun _ => rfl⟩
  case isFalse h =>
    refine ⟨fun hclear => ?_, fun hzero => absurd hzero h⟩
    have hset : true ≠ false := Bool.false_ne_true.symm
    generalize compare (2 * num) den = o at hclear
    cases o <;> exact absurd hclear hset

/-- The first residual bit is set if the remainder is a half of the divisor at least. -/
theorem roundBit_accuracyOfFraction (m : Nat) {num den : Nat} (hden : 0 < den) :
    (ExtendedMantissa.ofMantissaAndAccuracy m (accuracyOfFraction num den)).roundBit = true ↔
      den ≤ 2 * num := by
  rw [accuracyOfFraction]
  split
  case isTrue h => exact iff_of_false Bool.false_ne_true (by omega)
  case isFalse h =>
    cases hc : compare (2 * num) den with
    | lt => exact iff_of_false Bool.false_ne_true (not_le.2 (Nat.compare_eq_lt.1 hc))
    | eq => exact iff_of_true rfl (Nat.compare_eq_eq.1 hc).ge
    | gt => exact iff_of_true rfl (Nat.compare_eq_gt.1 hc).le

/-- It alone is set if the remainder is a half of the divisor. -/
theorem tie_accuracyOfFraction (m : Nat) {num den : Nat} (hden : 0 < den) :
    (ExtendedMantissa.ofMantissaAndAccuracy m (accuracyOfFraction num den)).roundBit = true ∧
      (ExtendedMantissa.ofMantissaAndAccuracy m (accuracyOfFraction num den)).stickyBit =
        false ↔ 2 * num = den := by
  rw [accuracyOfFraction]
  split
  case isTrue h => exact iff_of_false (fun hset => Bool.false_ne_true hset.1) (by omega)
  case isFalse h =>
    cases hc : compare (2 * num) den with
    | lt =>
      exact iff_of_false (fun hset => Bool.false_ne_true hset.1) (Nat.compare_eq_lt.1 hc).ne
    | eq => exact iff_of_true ⟨rfl, rfl⟩ (Nat.compare_eq_eq.1 hc)
    | gt =>
      exact iff_of_false (fun hset => Bool.false_ne_true hset.2.symm)
        (Nat.compare_eq_gt.1 hc).ne'

theorem describes_quotient (M : Nat) {d : Nat} (hd : 0 < d) (t : Int) :
    Describes (M * 2 ^ t / d)
      (.ofMantissaAndAccuracy (M / d) (accuracyOfFraction (M % d) d)) t := by
  have hpos := two_zpow_pos t
  have hdpos : (0 : ℚ) < d := Nat.cast_pos.2 hd
  have hdiv : (M : ℚ) = d * ((M / d : Nat) : ℚ) + ((M % d : Nat) : ℚ) := by
    exact_mod_cast (Nat.div_add_mod M d).symm
  have hrest : ((M % d : Nat) : ℚ) < d := Nat.cast_lt.2 (Nat.mod_lt M hd)
  have hnonneg : (0 : ℚ) ≤ ((M % d : Nat) : ℚ) := Nat.cast_nonneg _
  constructor
  · rw [mantissa_ofMantissaAndAccuracy, le_div_iff₀ hdpos, hdiv]
    nlinarith
  · rw [mantissa_ofMantissaAndAccuracy, div_lt_iff₀ hdpos, hdiv]
    nlinarith
  · rw [mantissa_ofMantissaAndAccuracy, clear_accuracyOfFraction, div_eq_iff hdpos.ne']
    constructor
    · intro h
      have hzero : ((M % d : Nat) : ℚ) * 2 ^ t = 0 := by
        rw [hdiv] at h
        linarith
      exact_mod_cast (mul_eq_zero.1 hzero).resolve_right hpos.ne'
    · intro h
      rw [h, Nat.cast_zero, add_zero] at hdiv
      rw [hdiv]
      ring
  · rw [mantissa_ofMantissaAndAccuracy, roundBit_accuracyOfFraction _ hd, ← mul_div_assoc,
      le_div_iff₀ hdpos, hdiv]
    constructor
    · intro hle
      have htwice : (d : ℚ) * 2 ^ t ≤ 2 * ((M % d : Nat) : ℚ) * 2 ^ t := by linarith
      exact_mod_cast le_of_mul_le_mul_right htwice hpos
    · intro hle
      have hcast : (d : ℚ) ≤ 2 * ((M % d : Nat) : ℚ) := by exact_mod_cast hle
      nlinarith
  · rw [mantissa_ofMantissaAndAccuracy, tie_accuracyOfFraction _ hd, ← mul_div_assoc,
      div_eq_iff hdpos.ne', hdiv]
    constructor
    · intro heq
      have htwice : (2 * ((M % d : Nat) : ℚ)) * 2 ^ t = d * 2 ^ t := by linarith
      exact_mod_cast mul_right_cancel₀ hpos.ne' htwice
    · intro heq
      have hcast : 2 * ((M % d : Nat) : ℚ) = d := by exact_mod_cast heq
      linear_combination 2 ^ t * hcast

/-- The quotient has enough bits if the dividend was shifted far enough. -/
theorem le_log2_quotient {m d k : Nat} (hm : 0 < m) (hd : 0 < d)
    (hk : d.log2 + 53 ≤ m.log2 + k) : 52 ≤ (m <<< k / d).log2 := by
  have hm' : 2 ^ m.log2 ≤ m := Nat.log2_self_le (by omega)
  have hd' : d < 2 ^ (d.log2 + 1) := Nat.lt_log2_self
  have hle : 2 ^ 52 * d ≤ m * 2 ^ k :=
    calc 2 ^ 52 * d ≤ 2 ^ 52 * 2 ^ (d.log2 + 1) := Nat.mul_le_mul_left _ hd'.le
      _ = 2 ^ (d.log2 + 53) := by
        rw [← pow_add]
        congr 1
        omega
      _ ≤ 2 ^ (m.log2 + k) := Nat.pow_le_pow_right (by norm_num) hk
      _ = 2 ^ m.log2 * 2 ^ k := pow_add ..
      _ ≤ m * 2 ^ k := Nat.mul_le_mul_right _ hm'
  have hquotient : 2 ^ 52 ≤ m <<< k / d := by
    rw [Nat.shiftLeft_eq]
    exact (Nat.le_div_iff_mul_le hd).2 hle
  exact (Nat.le_log2 (by omega)).2 hquotient

theorem describes_divCore {m₁ m₂ : Nat} (e₁ e₂ : Int) (h₁ : 0 < m₁) (h₂ : 0 < m₂) :
    let (m, e, acc) := divCore .binary64 m₁ e₁ m₂ e₂
    Describes (m₁ * 2 ^ e₁ / (m₂ * 2 ^ e₂)) (.ofMantissaAndAccuracy m acc) e ∧
      e ≤ target m e := by
  have htarget : Format.binary64.targetExponent (totalExponent m₁ e₁ - totalExponent m₂ e₂) =
      Max.max ((m₁.log2 : Int) + e₁ - (m₂.log2 + e₂) - 53) (-1074) := by
    show Max.max ((m₁.log2 : Int) + 1 + e₁ - (m₂.log2 + 1 + e₂) - (53 : Nat))
      (3 - 2 ^ 10 - (53 : Nat)) = _
    omega
  simp only [divCore, htarget]
  generalize ht :
    Min.min (e₁ - e₂) (Max.max ((m₁.log2 : Int) + e₁ - (m₂.log2 + e₂) - 53) (-1074)) = t
  generalize hk : (e₁ - e₂ - t).toNat = k
  constructor
  · -- the dividend is shifted by `k` bits, and the exponent of the quotient is `t`
    have hvalue : (m₁ * 2 ^ e₁ / (m₂ * 2 ^ e₂) : ℚ) =
        ((m₁ <<< k : Nat) : ℚ) * 2 ^ t / m₂ := by
      have hsum : e₁ = (k : Int) + t + e₂ := by omega
      have hne : (m₂ : ℚ) ≠ 0 := Nat.cast_ne_zero.2 (by omega)
      rw [Nat.shiftLeft_eq, Nat.cast_mul, Nat.cast_pow, Nat.cast_ofNat, hsum,
        zpow_add₀ (by norm_num), zpow_add₀ (by norm_num), zpow_natCast]
      field_simp
    rw [hvalue]
    exact describes_quotient _ h₂ t
  · rw [target_eq]
    by_cases hleast : t ≤ -1074
    · omega
    · have hlog := le_log2_quotient (k := k) h₁ h₂ (by omega)
      omega

theorem nearest_div (hx : Plus (parts x)) (hy : Plus (parts y)) (ha : amount (parts x) = a)
    (hb : amount (parts y) = b) (hpos : 0 < b) : Nearest (a / b) (x / y) := by
  rw [div_eq]
  rcases plus_cases hy hb with ⟨_, rfl⟩ | ⟨m₂, e₂, h₂, hyu, rfl⟩
  · exact absurd hpos (lt_irrefl 0)
  · rcases plus_cases hx ha with ⟨hxu, rfl⟩ | ⟨m₁, e₁, h₁, hxu, rfl⟩
    · rw [zero_div, hxu, hyu]
      exact nearest_zero
    · obtain ⟨hq, he⟩ := describes_divCore e₁ e₂ h₁ h₂
      rw [hxu, hyu]
      exact nearest_roundWithAccuracy hq he

theorem rounds_div (hx : Plus (parts x)) (hy : Plus (parts y)) (ha : amount (parts x) = a)
    (hb : amount (parts y) = b) (hpos : 0 < b) : Rounds (a / b) (x / y) :=
  (nearest_div hx hy ha hb hpos).rounds

end LineCharts.Double
