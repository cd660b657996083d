/-
What reading makes of a number that was written.

* `units?_toDigits` — the digits of a number are read as this number, whatever
  follows them but a digit;
* `tenth_toDigits`, `tenth_toDigits_point` — the tenth is the digit behind the
  point, if there is a point;
* `action_ofTenths`, `action_ofUnits` — a value that was written in tenths or in units has the
  action it was written for, if it fits into a word after it is turned into tenths;
* `natAbs_le_of_shorter` — a number with fewer digits than another one is not greater.

Design notes. `Opcodes.Make` ties the four opcodes of one kind to the action they stand for,
so values and changes are one statement.
-/
import Mathlib.Tactic.Ring
import LineCharts.Series.Decode
import LineCharts.Series.Encode

namespace LineCharts.Series

/-! ### Digits -/

theorem all_isBody_toDigits (n : Nat) : (Nat.toDigits 10 n).all Token.isBody = true := by
  rw [List.all_eq_true]
  intro c hc
  rw [Token.isBody, Nat.isDigit_of_mem_toDigits (by decide) (by decide) hc, Bool.true_or]

/-- The digits of a number end where no digit follows. -/
theorem takeWhile_toDigits_append (n : Nat) {rest : List Char}
    (hrest : rest.takeWhile Char.isDigit = []) :
    (Nat.toDigits 10 n ++ rest).takeWhile Char.isDigit = Nat.toDigits 10 n := by
  have hd : ∀ c ∈ Nat.toDigits 10 n, c.isDigit = true := fun _ hc =>
    Nat.isDigit_of_mem_toDigits (by decide) (by decide) hc
  rw [List.takeWhile_append_of_pos hd, hrest, List.append_nil]

theorem digitChar_of_lt_ten {d : Nat} (hd : d < 10) :
    d.digitChar.isDigit = true ∧ d.digitChar.toNat - '0'.toNat = d := by
  decide +revert

/-- A number with fewer digits than another one is not greater. -/
theorem le_of_length_toDigits_lt {m n : Nat}
    (h : (Nat.toDigits 10 m).length < (Nat.toDigits 10 n).length) : m ≤ n := by
  have hpos : 0 < (Nat.toDigits 10 m).length := Nat.length_toDigits_pos
  have hm : m < 10 ^ (Nat.toDigits 10 m).length :=
    (Nat.length_toDigits_le_iff (by decide) hpos).1 (Nat.le_refl _)
  have hn : ¬ n < 10 ^ (Nat.toDigits 10 m).length := by
    intro hn
    have hle := (Nat.length_toDigits_le_iff (by decide) hpos).2 hn
    omega
  omega

namespace Token

/-! ### Reading a number -/

theorem units?_toDigits {n : Nat} (hn : (n : Int) ≤ Scalar.maxInt64) {rest : List Char}
    (hrest : rest.takeWhile Char.isDigit = []) :
    units? (Nat.toDigits 10 n ++ rest) = some n := by
  have hne : (Nat.toDigits 10 n).isEmpty = false := by
    rw [List.isEmpty_eq_false_iff]
    exact Nat.toDigits_ne_nil
  have hfit : decide (Scalar.maxInt64 < (n : Int)) = false := decide_eq_false (by omega)
  simp only [units?, takeWhile_toDigits_append n hrest, Nat.ofDigitChars_ten_toDigits, hne,
    hfit, Bool.or_false, Bool.false_eq_true, if_false]

theorem units?_allDigits {n : Nat} (hn : (n : Int) ≤ Scalar.maxInt64) :
    units? (Nat.toDigits 10 n) = some n := by
  have h := units?_toDigits hn (show ([] : List Char).takeWhile Char.isDigit = [] from rfl)
  rwa [List.append_nil] at h

/-- Without a point there is no tenth. -/
theorem tenth_toDigits (n : Nat) : tenth (Nat.toDigits 10 n) = 0 := by
  rw [tenth]
  split
  case h_1 d a rest hrev =>
    -- a point would be one of the digits
    have hmem : '.' ∈ Nat.toDigits 10 n := by
      rw [← List.mem_reverse, hrev]
      simp
    have hd : '.'.isDigit = true := Nat.isDigit_of_mem_toDigits (by decide) (by decide) hmem
    exact absurd hd (by decide)
  case h_2 => rfl

/-- The digit behind the point is the tenth. -/
theorem tenth_toDigits_point (n : Nat) {d : Nat} (hd : d < 10) :
    tenth (Nat.toDigits 10 n ++ '.' :: Nat.toDigits 10 d) = d := by
  obtain ⟨hdigit, hval⟩ := digitChar_of_lt_ten hd
  obtain ⟨c, cs, hcs⟩ : ∃ c cs, (Nat.toDigits 10 n).reverse = c :: cs := by
    have hne : (Nat.toDigits 10 n).reverse ≠ [] := by simp [Nat.toDigits_ne_nil]
    exact List.exists_cons_of_ne_nil hne
  rw [Nat.toDigits_of_lt_base hd, tenth]
  simp only [List.reverse_append, List.reverse_cons, List.reverse_nil, List.nil_append,
    List.cons_append, hcs, hdigit, if_true]
  exact hval

/-- A number that fits after it is turned into tenths is taken as it is. -/
theorem valueAction_eq (make : Int → Action) (inTenths negative : Bool) {body : List Char}
    {n : Nat} (hn : units? body = some n)
    (hfit : ((n * 10 + tenth body : Nat) : Int) ≤ Scalar.maxInt64) :
    valueAction make inTenths negative body =
      make (if negative then -(if inTenths then (n : Int) else (n * 10 + tenth body : Nat))
        else if inTenths then (n : Int) else (n * 10 + tenth body : Nat)) := by
  simp only [valueAction, hn]
  rw [if_neg (by omega)]

end Token

/-! ### Values and changes -/

/-- The opcodes stand for an action: one that `make` makes of the tenths. -/
structure Opcodes.Make (ops : Opcodes) (make : Int → Action) : Prop where
  plus : ∀ body, Token.action ⟨ops.plus, body⟩ = Token.valueAction make false false body
  minus : ∀ body, Token.action ⟨ops.minus, body⟩ = Token.valueAction make false true body
  plusTenths : ∀ body, Token.action ⟨ops.plusTenths, body⟩ =
    Token.valueAction make true false body
  minusTenths : ∀ body, Token.action ⟨ops.minusTenths, body⟩ =
    Token.valueAction make true true body

theorem absolute_make : Opcodes.absolute.Make .value :=
  ⟨fun _ => rfl, fun _ => rfl, fun _ => rfl, fun _ => rfl⟩

theorem relative_make : Opcodes.relative.Make .change :=
  ⟨fun _ => rfl, fun _ => rfl, fun _ => rfl, fun _ => rfl⟩

namespace Token

variable {ops : Opcodes} {make : Int → Action}

/-- Below one unit the number of a written value is its tenths, else its units. -/
theorem units?_ofTenths (ops : Opcodes) {t : Int} (ht : (t.natAbs : Int) ≤ Scalar.maxInt64) :
    units? (ofTenths ops t).body =
      some (if t.natAbs / 10 = 0 then t.natAbs % 10 else t.natAbs / 10) := by
  simp only [ofTenths]
  by_cases hwhole : t.natAbs / 10 = 0
  · rw [if_pos hwhole, if_pos hwhole]
    exact units?_allDigits (by omega)
  · rw [if_neg hwhole, if_neg hwhole]
    dsimp only
    by_cases hrest : t.natAbs % 10 = 0
    · rw [if_pos hrest]
      exact units?_allDigits (by omega)
    · rw [if_neg hrest]
      exact units?_toDigits (by omega) rfl

/-- Below one unit a written value has no tenth. -/
theorem tenth_ofTenths (ops : Opcodes) (t : Int) :
    tenth (ofTenths ops t).body = if t.natAbs / 10 = 0 then 0 else t.natAbs % 10 := by
  simp only [ofTenths]
  by_cases hwhole : t.natAbs / 10 = 0
  · rw [if_pos hwhole, if_pos hwhole]
    exact tenth_toDigits _
  · rw [if_neg hwhole, if_neg hwhole]
    dsimp only
    by_cases hrest : t.natAbs % 10 = 0
    · rw [if_pos hrest, hrest]
      exact tenth_toDigits _
    · rw [if_neg hrest]
      exact tenth_toDigits_point _ (Nat.mod_lt _ (by decide))

/-- A value that is written in tenths is read as these tenths. -/
theorem action_ofTenths (hops : ops.Make make) {t : Int}
    (ht : (t.natAbs : Int) ≤ Scalar.maxInt64) : action (ofTenths ops t) = make t := by
  have hn := units?_ofTenths ops ht
  have htenth := tenth_ofTenths ops t
  by_cases hwhole : t.natAbs / 10 = 0
  · -- below one unit the number itself is in tenths
    simp only [ofTenths, if_pos hwhole] at hn htenth ⊢
    have hfit : ((t.natAbs % 10 * 10 + tenth (Nat.toDigits 10 (t.natAbs % 10)) : Nat) : Int)
        ≤ Scalar.maxInt64 := by
      rw [htenth, Scalar.maxInt64]
      omega
    by_cases hsign : 0 ≤ t
    · rw [if_pos hsign, hops.plusTenths, valueAction_eq make true false hn hfit]
      simp only [Bool.false_eq_true, if_false, if_true]
      congr 1
      omega
    · rw [if_neg hsign, hops.minusTenths, valueAction_eq make true true hn hfit]
      simp only [if_true]
      congr 1
      omega
  · -- ten times the units and the tenth are the size again
    simp only [ofTenths, if_neg hwhole] at hn htenth ⊢
    have hfit : ((t.natAbs / 10 * 10 + tenth (if t.natAbs % 10 = 0 then
        Nat.toDigits 10 (t.natAbs / 10) else Nat.toDigits 10 (t.natAbs / 10) ++ '.' ::
        Nat.toDigits 10 (t.natAbs % 10)) : Nat) : Int) ≤ Scalar.maxInt64 := by
      rw [htenth]
      omega
    by_cases hsign : 0 ≤ t
    · rw [if_pos hsign, hops.plus, valueAction_eq make false false hn hfit, htenth]
      simp only [Bool.false_eq_true, if_false]
      congr 1
      omega
    · rw [if_neg hsign, hops.minus, valueAction_eq make false true hn hfit, htenth]
      simp only [Bool.false_eq_true, if_false, if_true]
      congr 1
      omega

theorem units?_ofUnits (ops : Opcodes) {n : Int} (hn : (n.natAbs : Int) ≤ Scalar.maxInt64) :
    units? (ofUnits ops n).body = some n.natAbs :=
  units?_allDigits hn

theorem tenth_ofUnits (ops : Opcodes) (n : Int) : tenth (ofUnits ops n).body = 0 :=
  tenth_toDigits _

/-- A value that is written in units is read as ten times as many tenths. -/
theorem action_ofUnits (hops : ops.Make make) {n : Int}
    (hn : (n.natAbs * 10 : Int) ≤ Scalar.maxInt64) :
    action (ofUnits ops n) = make (10 * n) := by
  have hunits := units?_ofUnits ops (n := n) (by omega)
  have htenth := tenth_ofUnits ops n
  simp only [ofUnits] at hunits htenth ⊢
  have hfit : ((n.natAbs * 10 + tenth (Nat.toDigits 10 n.natAbs) : Nat) : Int)
      ≤ Scalar.maxInt64 := by
    rw [htenth]
    omega
  by_cases hsign : 0 ≤ n
  · rw [if_pos hsign, hops.plus, valueAction_eq make false false hunits hfit, htenth]
    simp only [Bool.false_eq_true, if_false]
    congr 1
    omega
  · rw [if_neg hsign, hops.minus, valueAction_eq make false true hunits hfit, htenth]
    simp only [Bool.false_eq_true, if_false, if_true]
    congr 1
    omega

/-- The shorter of two tokens in units does not have the greater number. -/
theorem natAbs_le_of_shorter {ops ops' : Opcodes} {m n : Int}
    (h : (ofUnits ops m).text.length < (ofUnits ops' n).text.length) :
    m.natAbs ≤ n.natAbs := by
  simp only [text, ofUnits, List.length_cons] at h
  exact le_of_length_toDigits_lt (by omega)

end Token

end LineCharts.Series
