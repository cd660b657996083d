/-
Tokens that cannot be read are passed over.

* `Token.Malformed` — an opcode that there is not, or one without a number that it needs;
* `Token.action_of_malformed` — such a token does nothing;
* `Token.scan_between` — between two parts of a text that are cut from it, it
  is a token of its own;
* `spell_of_nothing` — a token that does nothing can be taken out of a chain, and
  leaves nothing behind;
* `decode_malformed` — so a text reads the same without a token that cannot be read.
-/
import LineCharts.Proofs.Series.Incremental

namespace LineCharts.Series

namespace Token

/-! ### Tokens that cannot be read -/

/-- The opcodes that need a number. -/
def numbered : List Char := ['P', 'Q', 'N', 'O', 'p', 'q', 'n', 'o', 'r']

/-- A token that cannot be read: its opcode is neither that of a gap nor one that needs a
number, or it needs a number and starts without a digit or with digits that are no word. -/
def Malformed (t : Token) : Prop :=
  let digits := t.body.takeWhile Char.isDigit
  t.opcode ∉ 'e' :: numbered ∨
    t.opcode ∈ numbered ∧
      (digits = [] ∨ Scalar.maxInt64 < (Nat.ofDigitChars 10 digits 0 : Nat))

instance (t : Token) : Decidable t.Malformed := inferInstanceAs (Decidable (_ ∨ _))

/-- A number is refused without a digit, and where its digits are no word. -/
theorem units?_eq_none {body : List Char}
    (h : body.takeWhile Char.isDigit = [] ∨
      Scalar.maxInt64 < (Nat.ofDigitChars 10 (body.takeWhile Char.isDigit) 0 : Nat)) :
    units? body = none := by
  rw [units?]
  refine if_pos ?_
  rcases h with h | h
  · simp [h]
  · simp [h]

/-- Without a number a value token does nothing. -/
theorem valueAction_of_units? (make : Int → Action) (inTenths negative : Bool)
    {body : List Char} (h : units? body = none) :
    valueAction make inTenths negative body = .nothing := by
  rw [valueAction, h]

/-- **A token that cannot be read does nothing.** -/
theorem action_of_malformed {t : Token} (h : t.Malformed) : t.action = .nothing := by
  obtain ⟨opcode, body⟩ := t
  rcases h with hopcode | ⟨hopcode, hnumber⟩
  · -- of the cases of an action only the last is left
    have hother : ∀ c ∈ 'e' :: numbered, opcode ≠ c := by
      rintro c hc rfl
      exact hopcode hc
    rw [action]
    split
    case h_11 => rfl
    all_goals exact absurd ‹_› (hother _ (by decide))
  · have hnone := units?_eq_none hnumber
    have hvalue (make : Int → Action) (inTenths negative : Bool) :
        valueAction make inTenths negative body = .nothing :=
      valueAction_of_units? make inTenths negative hnone
    simp only [numbered, List.mem_cons, List.not_mem_nil, or_false] at hopcode
    rcases hopcode with rfl | rfl | rfl | rfl | rfl | rfl | rfl | rfl | rfl
    all_goals simp [action, hvalue, hnone]

/-! ### Taking a token out of a text -/

/-- A token starts anew. -/
theorem Separate.startsAnew {t : Token} (h : t.Separate) (cs : List Char) :
    StartsAnew (t.text ++ cs) := by
  rintro c ⟨rfl⟩
  exact h.opcode

/-- **Between two parts that are cut from it a token stands alone.** -/
theorem scan_between {t : Token} (h : t.Separate) {ds : List Char} (hds : StartsAnew ds)
    (cs : List Char) :
    scan (cs ++ t.text ++ ds) = scan cs ++ t :: scan ds := by
  have hself : scan t.text = [t] := by
    have hscan :=
      scan_flatMap_text (List.forall_mem_singleton.mpr h.opcode)
        (List.forall_mem_singleton.mpr h.body)
    rwa [List.flatMap_singleton] at hscan
  rw [List.append_assoc, scan_append (h.startsAnew ds), scan_append hds, hself,
    List.singleton_append]

end Token

section

variable {t : Token} (h : t.action = .nothing)
include h

/-- A token that does nothing leaves nothing behind. -/
theorem Memory.after_of_nothing (m : Memory) (ts : List Token) :
    m.after (t :: ts) = m.after ts := by
  have hcons : m.after (t :: ts) = (m.step t.action).2.after ts := rfl
  rw [hcons, h]
  rfl

/-- A chain has the same samples without a token that does nothing. -/
theorem spell_of_nothing (m : Memory) (ts us : List Token) :
    spell m (ts ++ t :: us) = spell m (ts ++ us) := by
  rw [spell_append, spell_append, spell_cons, h]
  rfl

end

/-- What a text leaves behind: the value that changes refer to, and the sample
that repetitions give. -/
def remembered (text : String) : Memory := Memory.after {} (Token.scan text.toList)

/-- **A token that cannot be read is passed over**, wherever it stands: the text reads as it
does without the token, and the token touches neither the value that changes refer to nor the
sample that repetitions give. -/
theorem decode_malformed {α : Type} [Scalar α] {t : Token} (ht : t.Separate)
    (hbad : t.Malformed) (a b : String) (hb : Token.StartsAnew b.toList) :
    (decode (a ++ String.ofList t.text ++ b) : List (Option α)) = decode (a ++ b) ∧
      remembered (a ++ String.ofList t.text) = remembered a := by
  have hnothing := Token.action_of_malformed hbad
  constructor
  · rw [decode, decode, decodeTenths_eq_spell, decodeTenths_eq_spell, String.toList_append,
      String.toList_append, String.toList_append, String.toList_ofList,
      Token.scan_between ht hb, Token.scan_append hb,
      spell_of_nothing hnothing]
  · have hend : Token.StartsAnew [] := by decide
    have hscan := Token.scan_between ht hend a.toList
    rw [List.append_nil, Token.scan] at hscan
    rw [remembered, remembered, String.toList_append, String.toList_ofList, hscan,
      Memory.after, List.foldl_append]
    exact Memory.after_of_nothing hnothing _ []

/-- A number that starts with its point, between a value and repetitions of it. -/
theorem decode_malformed_point :
    let t : Token := ⟨'P', ".5.7".toList⟩
    t.Separate ∧ t.Malformed ∧ Token.StartsAnew "r2".toList ∧
      (decode ("P4" ++ String.ofList t.text ++ "r2") : List (Option Float)) =
        [some 4.0, some 4.0, some 4.0] := by
  intro t
  have ht : t.Separate := ⟨by decide, by decide⟩
  have hbad : t.Malformed := by decide
  have hanew : Token.StartsAnew "r2".toList := by decide
  refine ⟨ht, hbad, hanew, ?_⟩
  rw [(decode_malformed ht hbad "P4" "r2" hanew).1]
  decide +kernel

end LineCharts.Series
