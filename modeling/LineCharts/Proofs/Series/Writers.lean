/-
The three writers of series are faithful.

* `faithful_nextTenths`, `faithful_nextUnits`, `faithful_nextOptional` — what each of them
  writes for one sample is read as that sample;
* `decode_encodeReals` — the text of a series of numbers reads back as the
  tenths of the numbers;
* `decode_encodeOptionalInts` — the text of a series of integers, with gaps or without, reads
  back as the integers, and neither side forms an integer beyond a word.

Design notes.  A change of a sample in tenths fits because the samples are half as large as a
word allows.  Samples in units may be as large as a word allows in tenths, and a change of
them may be twice as large; but a change is written only if it is shorter than the sample, and
then it is not greater (`Token.natAbs_le_of_shorter`).
-/
import LineCharts.Proofs.Series.RoundTrip

namespace LineCharts.Series

/-! ### Separate tokens -/

/-- None of the opcodes can be part of a body. -/
structure Opcodes.Apart (ops : Opcodes) : Prop where
  plus : Token.isBody ops.plus = false
  minus : Token.isBody ops.minus = false
  plusTenths : Token.isBody ops.plusTenths = false
  minusTenths : Token.isBody ops.minusTenths = false

theorem absolute_apart : Opcodes.absolute.Apart := ⟨rfl, rfl, rfl, rfl⟩

theorem relative_apart : Opcodes.relative.Apart := ⟨rfl, rfl, rfl, rfl⟩

theorem separate_ofTenths {ops : Opcodes} (hops : ops.Apart) (t : Int) :
    (Token.ofTenths ops t).Separate := by
  rw [Token.ofTenths]
  by_cases hwhole : t.natAbs / 10 = 0
  · simp only [hwhole, if_true]
    refine ⟨?_, all_isBody_toDigits _⟩
    show Token.isBody (if 0 ≤ t then ops.plusTenths else ops.minusTenths) = false
    split
    · exact hops.plusTenths
    · exact hops.minusTenths
  · simp only [hwhole, if_false]
    refine ⟨?_, ?_⟩
    · show Token.isBody (if 0 ≤ t then ops.plus else ops.minus) = false
      split
      · exact hops.plus
      · exact hops.minus
    · dsimp only
      split
      · exact all_isBody_toDigits _
      · rw [List.all_append, List.all_cons, all_isBody_toDigits, all_isBody_toDigits]
        rfl

theorem separate_ofUnits {ops : Opcodes} (hops : ops.Apart) (n : Int) :
    (Token.ofUnits ops n).Separate := by
  refine ⟨?_, all_isBody_toDigits _⟩
  show Token.isBody (if 0 ≤ n then ops.plus else ops.minus) = false
  split
  · exact hops.plus
  · exact hops.minus

/-- What holds of the first token, and of the second if it is shorter,
holds of the chosen one. -/
theorem shorter_cases {P : Token → Prop} {first second : Token} (hfirst : P first)
    (hsecond : second.text.length < first.text.length → P second) :
    P (Token.shorter first second) := by
  rw [Token.shorter]
  split
  case isTrue => exact hfirst
  case isFalse h => exact hsecond (by omega)

/-! ### Values and changes -/

/-- The reader stands behind a sample of so many tenths. -/
def AtTenths (t : Int) (m : Memory) : Prop := m = ⟨t, some t⟩

theorem step_of_value {t : Token} {v : Int} (h : t.action = .value v) (m : Memory) :
    (m.step t.action).1 = (1, some v) ∧ AtTenths v (m.step t.action).2 := by
  rw [h]
  exact ⟨rfl, rfl⟩

theorem step_of_change {t : Token} {d v : Int} {m : Memory} (h : t.action = .change d)
    (hv : m.level + d = v) (hfit : Scalar.fitsInt64 v = true) :
    (m.step t.action).1 = (1, some v) ∧ AtTenths v (m.step t.action).2 := by
  rw [h, Memory.step]
  simp only [hv, hfit, if_true]
  exact ⟨trivial, rfl⟩

theorem fits_of_value {t : Token} {v level : Int} (h : t.action = .value v)
    (hnumber : AllFit (Token.number t.body)) (hv : Scalar.fitsInt64 v = true) :
    AllFit (t.formed level) := by
  simp only [Token.formed, h]
  rw [allFit_append]
  exact ⟨hnumber, by simpa [AllFit] using hv⟩

theorem fits_of_change {t : Token} {d level : Int} (h : t.action = .change d)
    (hnumber : AllFit (Token.number t.body)) (hd : Scalar.fitsInt64 d = true)
    (hsum : Scalar.fitsInt64 (level + d) = true) : AllFit (t.formed level) := by
  simp only [Token.formed, h]
  rw [allFit_append]
  exact ⟨hnumber, by simpa [AllFit] using ⟨hd, hsum⟩⟩

/-- A value fits if its size does. -/
theorem fitsInt64_of_natAbs {k : Int} (h : (k.natAbs : Int) ≤ Scalar.maxInt64) :
    Scalar.fitsInt64 k = true := by
  rw [Scalar.fitsInt64_iff, Scalar.minInt64]
  rw [Scalar.maxInt64] at h ⊢
  omega

/-! ### Numbers, in tenths -/

theorem number_ofTenths (ops : Opcodes) {t : Int} (ht : (t.natAbs : Int) ≤ Scalar.maxInt64) :
    AllFit (Token.number (Token.ofTenths ops t).body) := by
  refine allFit_number (Token.units?_ofTenths ops ht) ?_
  rw [Token.tenth_ofTenths]
  rw [Scalar.maxInt64] at ht ⊢
  split <;> omega

/-- The samples for which every change fits. -/
def HalfWord (t : Int) : Prop := t.natAbs < 2 ^ 62

theorem faithful_nextTenths : Faithful Token.nextTenths HalfWord some AtTenths where
  separate last x := shorter_cases (separate_ofTenths absolute_apart x)
    fun _ => separate_ofTenths relative_apart (x - last)
  sample h := by rw [h]
  step {last x m} hlast hx _ hm := by
    rw [HalfWord] at hlast hx
    have hvalue : (x.natAbs : Int) ≤ Scalar.maxInt64 := by rw [Scalar.maxInt64]; omega
    have hchange : ((x - last).natAbs : Int) ≤ Scalar.maxInt64 := by
      rw [Scalar.maxInt64]; omega
    refine shorter_cases (P := fun t => (m.step t.action).1 = (1, some x) ∧
      AtTenths x (m.step t.action).2) ?_ fun _ => ?_
    · exact step_of_value (Token.action_ofTenths absolute_make hvalue) m
    · -- the level of the reader is the last sample, so the change leads to this one
      refine step_of_change (Token.action_ofTenths relative_make hchange) ?_
        (fitsInt64_of_natAbs hvalue)
      rw [hm]
      show last + (x - last) = x
      omega
  fits {last x m} hlast hx hm := by
    rw [HalfWord] at hlast hx
    have hvalue : (x.natAbs : Int) ≤ Scalar.maxInt64 := by rw [Scalar.maxInt64]; omega
    have hchange : ((x - last).natAbs : Int) ≤ Scalar.maxInt64 := by
      rw [Scalar.maxInt64]; omega
    refine shorter_cases (P := fun t => AllFit (t.formed m.level)) ?_ fun _ => ?_
    · exact fits_of_value (Token.action_ofTenths absolute_make hvalue)
        (number_ofTenths .absolute hvalue) (fitsInt64_of_natAbs hvalue)
    · refine fits_of_change (Token.action_ofTenths relative_make hchange)
        (number_ofTenths .relative hchange) (fitsInt64_of_natAbs hchange) ?_
      rw [hm]
      show Scalar.fitsInt64 (last + (x - last)) = true
      rw [show last + (x - last) = x by omega]
      exact fitsInt64_of_natAbs hvalue

/-- **A series of numbers reads back as its tenths**: sample for sample, up to the
greatest number of samples. -/
theorem decode_encodeReals {α : Type} [Scalar α] {xs : List α}
    (hcount : (xs.length : Int) ≤ Scalar.maxInt64)
    (hxs : ∀ x ∈ xs, (toTenths x).natAbs < 2 ^ 62) :
    (decode (encodeReals xs) : List (Option α)) =
      (xs.map fun x => some (ofTenths (toTenths x))).take maxLength := by
  have hvalid : ∀ t ∈ xs.map toTenths, HalfWord t := by
    intro t ht
    obtain ⟨x, hx, rfl⟩ := List.mem_map.1 ht
    exact hxs x hx
  have hread := (decodeTenths_tokens faithful_nextTenths 0 rfl
    (show (0 : Int).natAbs < 2 ^ 62 by decide) hvalid (by simpa using hcount)).1
  rw [decode, encodeReals, hread, List.map_take, List.map_map, List.map_map]
  rfl

/-- A plateau, and a value below one unit. -/
theorem decode_encodeReals_plateau :
    (decode (encodeReals [0.0, 12.34, 12.34, -0.5]) : List (Option Float)) =
      [some 0.0, some 12.3, some 12.3, some (-0.5)] := by
  have hread : (decode (encodeReals [0.0, 12.34, 12.34, -0.5]) : List (Option Float)) = _ :=
    decode_encodeReals (by decide) (by decide)
  rw [hread]
  decide +kernel

/-! ### Integers, with gaps or without -/

/-- The greatest size of an integer that fits into a word after it is turned into tenths. -/
def maxUnits : Nat := 922337203685477580

/-- The samples that fit in tenths. -/
def TenthOfWord (n : Int) : Prop := n.natAbs ≤ maxUnits

theorem number_ofUnits (ops : Opcodes) {n : Int}
    (hn : (n.natAbs * 10 : Int) ≤ Scalar.maxInt64) :
    AllFit (Token.number (Token.ofUnits ops n).body) := by
  refine allFit_number (Token.units?_ofUnits ops (by omega)) ?_
  rw [Token.tenth_ofUnits]
  omega

theorem ten_mul_fits {n : Int} (hn : n.natAbs ≤ maxUnits) :
    (n.natAbs * 10 : Int) ≤ Scalar.maxInt64 := by
  rw [maxUnits] at hn
  rw [Scalar.maxInt64]
  omega

theorem fits_ten_mul {n : Int} (hn : n.natAbs ≤ maxUnits) :
    Scalar.fitsInt64 (10 * n) = true := by
  refine fitsInt64_of_natAbs ?_
  have h := ten_mul_fits hn
  omega

/-- A change of an integer is written only if it fits in tenths as well. -/
theorem change_le_of_shorter {last next : Int} (hnext : next.natAbs ≤ maxUnits)
    (h : (Token.ofUnits .relative (next - last)).text.length <
      (Token.ofUnits .absolute next).text.length) : (next - last).natAbs ≤ maxUnits :=
  Nat.le_trans (Token.natAbs_le_of_shorter h) hnext

theorem separate_nextUnits (last next : Int) : (Token.nextUnits last next).Separate :=
  shorter_cases (separate_ofUnits absolute_apart next)
    fun _ => separate_ofUnits relative_apart (next - last)

theorem step_nextUnits {last next : Int} {m : Memory} (hnext : next.natAbs ≤ maxUnits)
    (hm : AtTenths (10 * last) m) :
    (m.step (Token.nextUnits last next).action).1 = (1, some (10 * next)) ∧
      AtTenths (10 * next) (m.step (Token.nextUnits last next).action).2 := by
  refine shorter_cases (P := fun t => (m.step t.action).1 = (1, some (10 * next)) ∧
    AtTenths (10 * next) (m.step t.action).2) ?_ fun hshort => ?_
  · exact step_of_value (Token.action_ofUnits absolute_make (ten_mul_fits hnext)) m
  · -- a change may be twice as large as a sample, but not if it is the shorter token
    have hchange := ten_mul_fits (change_le_of_shorter hnext hshort)
    refine step_of_change (Token.action_ofUnits relative_make hchange) ?_ (fits_ten_mul hnext)
    rw [hm]
    show 10 * last + 10 * (next - last) = 10 * next
    omega

theorem fits_nextUnits {last next : Int} {m : Memory} (hnext : next.natAbs ≤ maxUnits)
    (hm : AtTenths (10 * last) m) : AllFit ((Token.nextUnits last next).formed m.level) := by
  refine shorter_cases (P := fun t => AllFit (t.formed m.level)) ?_ fun hshort => ?_
  · have hvalue := ten_mul_fits hnext
    exact fits_of_value (Token.action_ofUnits absolute_make hvalue)
      (number_ofUnits .absolute hvalue) (fits_ten_mul hnext)
  · have hle := change_le_of_shorter hnext hshort
    have hchange := ten_mul_fits hle
    refine fits_of_change (Token.action_ofUnits relative_make hchange)
      (number_ofUnits .relative hchange) (fits_ten_mul hle) ?_
    rw [hm]
    show Scalar.fitsInt64 (10 * last + 10 * (next - last)) = true
    rw [show 10 * last + 10 * (next - last) = 10 * next by omega]
    exact fits_ten_mul hnext

theorem faithful_nextUnits :
    Faithful Token.nextUnits TenthOfWord (fun n => some (10 * n))
      (fun n => AtTenths (10 * n)) where
  separate := separate_nextUnits
  sample h := by rw [h]
  step _ hx _ hm := step_nextUnits hx hm
  fits _ hx hm := fits_nextUnits hx hm

/-- Where the reader stands behind a sample or a gap.  Behind a gap the value that changes
refer to may be any: the writer writes no change there. -/
def AtOptional : Option Int → Memory → Prop
  | some n, m => AtTenths (10 * n) m
  | none, m => m.sample = none

theorem faithful_nextOptional :
    Faithful Token.nextOptional (fun x => ∀ n ∈ x, TenthOfWord n)
      (fun x => x.map fun n => 10 * n) AtOptional where
  separate last x := by
    cases last with
    | none =>
      cases x with
      | none => exact ⟨rfl, rfl⟩
      | some n => exact separate_ofUnits absolute_apart n
    | some l =>
      cases x with
      | none => exact ⟨rfl, rfl⟩
      | some n => exact separate_nextUnits l n
  sample {last m} hm := by
    cases last with
    | none => exact hm
    | some l =>
      rw [AtOptional] at hm
      rw [hm]
      rfl
  step {last x m} _ hx _ hm := by
    cases x with
    | none =>
      cases last with
      | none => exact ⟨rfl, rfl⟩
      | some l => exact ⟨rfl, rfl⟩
    | some n =>
      have hn : n.natAbs ≤ maxUnits := hx n rfl
      -- behind a gap the sample is written as a value, so the level does not matter
      cases last with
      | none => exact step_of_value (Token.action_ofUnits absolute_make (ten_mul_fits hn)) m
      | some l => exact step_nextUnits hn hm
  fits {last x m} _ hx hm := by
    cases x with
    | none =>
      have hgap : AllFit (Token.gap.formed m.level) := fun k hk => absurd hk List.not_mem_nil
      cases last with
      | none => exact hgap
      | some l => exact hgap
    | some n =>
      have hn : n.natAbs ≤ maxUnits := hx n rfl
      cases last with
      | none =>
        have hvalue := ten_mul_fits hn
        exact fits_of_value (Token.action_ofUnits absolute_make hvalue)
          (number_ofUnits .absolute hvalue) (fits_ten_mul hn)
      | some l => exact fits_nextUnits hn hm

/-- The differences that writing a series forms: each integer less the one before, unless one
of the two is a gap. -/
def differences : Option Int → List (Option Int) → List Int
  | _, [] => []
  | some last, some next :: xs => (next - last) :: differences (some next) xs
  | none, some next :: xs => differences (some next) xs
  | _, none :: xs => differences none xs

theorem allFit_differences {last : Option Int} {xs : List (Option Int)}
    (hlast : ∀ n ∈ last, n.natAbs ≤ maxUnits) (hxs : ∀ x ∈ xs, ∀ n ∈ x, n.natAbs ≤ maxUnits) :
    AllFit (differences last xs) := by
  induction xs generalizing last with
  | nil =>
    rw [differences]
    exact fun k hk => absurd hk List.not_mem_nil
  | cons x xs ih =>
    obtain ⟨hx, hrest⟩ := List.forall_mem_cons.1 hxs
    have htail : AllFit (differences x xs) := ih hx hrest
    cases last with
    | none =>
      cases x with
      | none => exact htail
      | some next => exact htail
    | some l =>
      cases x with
      | none => exact htail
      | some next =>
        have hl := hlast l rfl
        have hnext := hx next rfl
        -- only neighbours that are both samples have a difference
        rw [maxUnits] at hl hnext
        rw [differences]
        intro k hk
        rcases List.mem_cons.1 hk with rfl | hk
        · refine fitsInt64_of_natAbs ?_
          rw [Scalar.maxInt64]
          omega
        · exact htail k hk

/-- **A series of integers reads back**, gap for gap and integer for integer, up to
the greatest number of samples, and so does one that is written without gaps.  Neither
the differences that writing forms nor the integers that reading forms leave the
signed range of 64 bits. -/
theorem decode_encodeOptionalInts {α : Type} [Scalar α] {xs : List (Option Int)}
    (hcount : (xs.length : Int) ≤ Scalar.maxInt64)
    (hxs : ∀ x ∈ xs, ∀ n ∈ x, n.natAbs ≤ maxUnits) :
    ((decode (encodeOptionalInts xs) : List (Option α)) =
        (xs.map fun x => x.map fun n => ofTenths (10 * n)).take maxLength ∧
      AllFit (formed (encodeOptionalInts xs)) ∧ AllFit (differences (some 0) xs)) ∧
    ∀ ns : List Int, ns.map some = xs →
      (decode (encodeInts ns) : List (Option α)) =
          (ns.map fun n => some (ofTenths (10 * n))).take maxLength ∧
        AllFit (formed (encodeInts ns)) := by
  have hzero : ∀ n ∈ some (0 : Int), n.natAbs ≤ maxUnits := by
    intro n hn
    rw [← Option.mem_some.1 hn]
    decide
  obtain ⟨hread, hfit⟩ := decodeTenths_tokens faithful_nextOptional (some 0) rfl hzero hxs
    hcount
  refine ⟨⟨?_, hfit, allFit_differences hzero hxs⟩, ?_⟩
  · rw [decode, encodeOptionalInts, hread, List.map_take, List.map_map]
    congr 2
    funext x
    cases x with
    | none => rfl
    | some n => rfl
  · rintro ns rfl
    have hvalid : ∀ n ∈ ns, TenthOfWord n := fun n hn =>
      hxs (some n) (List.mem_map_of_mem hn) n rfl
    rw [List.length_map] at hcount
    obtain ⟨hread, hfit⟩ := decodeTenths_tokens faithful_nextUnits 0 rfl
      (show (0 : Int).natAbs ≤ maxUnits by decide) hvalid hcount
    refine ⟨?_, hfit⟩
    rw [decode, encodeInts, hread, List.map_take, List.map_map]
    rfl

/-- A plateau and a change of sign; with a gap in the plateau, and without one. -/
theorem decode_encodeInts_plateau :
    (decode (encodeInts [3, 3, -7]) : List (Option Float)) =
      [some 3.0, some 3.0, some (-7.0)] ∧
      AllFit (formed (encodeOptionalInts [some 3, some 3, some (-7)])) ∧
      (decode (encodeOptionalInts [some 3, none, some 3, some (-7)]) : List (Option Float)) =
        [some 3.0, none, some 3.0, some (-7.0)] := by
  have hplateau : (([some 3, some 3, some (-7)] : List (Option Int)).length : Int) ≤
    Scalar.maxInt64 := by decide
  have hgap : (([some 3, none, some 3, some (-7)] : List (Option Int)).length : Int) ≤
    Scalar.maxInt64 := by decide
  have h := decode_encodeOptionalInts (α := Float) hplateau (by decide)
  obtain ⟨hread, _⟩ := h.2 [3, 3, -7] rfl
  refine ⟨?_, h.1.2.1, ?_⟩
  · rw [hread]
    decide
  · rw [(decode_encodeOptionalInts hgap (by decide)).1.1]
    decide

end LineCharts.Series
