/-
Reading undoes writing.

The three writers share `tokens`, and so do their proofs: `Faithful` says what the writer of
one sample has to keep, with `At` for where the reader stands behind the last sample.

* `spell_tokens` — then the reader gives back the pending repetitions and all samples, and no
  integer that it forms on the way leaves the signed range of 64 bits;
* `decodeTenths_tokens` — so the text of a series reads back, up to the
  greatest number of samples.

Design notes.  A repetition is read only if its count fits into a signed word, so a series has
to be no longer than that; a list in the memory of a machine never is.
-/
import LineCharts.Proofs.Series.Numbers

namespace LineCharts.Series

/-! ### What reading forms -/

/-- The samples of a chain of tokens, without any limit. -/
def spell (m : Memory) (ts : List Token) : List (Option Int) :=
  (runs m (ts.map Token.action)).flatMap fun (n, x) => List.replicate n x

/-- The integers that reading the number of a value forms: the number, ten times it, and
that with the tenth. -/
def Token.number (body : List Char) : List Int :=
  let n : Int := Nat.ofDigitChars 10 (body.takeWhile Char.isDigit) 0
  [n, n * 10, n * 10 + Token.tenth body]

/-- The integers that reading a token forms, where `level` is the value
that changes refer to. -/
def Token.formed (level : Int) (t : Token) : List Int :=
  match t.action with
  | .value v => Token.number t.body ++ [v]
  | .change d => Token.number t.body ++ [d, level + d]
  | .again n => [(n : Int)]
  | .gap => []
  | .nothing => Token.number t.body

/-- The integers that reading a chain of tokens forms. -/
def formedBy (m : Memory) : List Token → List Int
  | [] => []
  | t :: ts => t.formed m.level ++ formedBy (m.step t.action).2 ts

/-- The integers that reading a text forms. -/
def formed (text : String) : List Int := formedBy {} (Token.scan text.toList)

/-- All of some integers fit into a signed word of 64 bits. -/
def AllFit (ks : List Int) : Prop := ∀ k ∈ ks, Scalar.fitsInt64 k = true

theorem allFit_append {ks ls : List Int} : AllFit (ks ++ ls) ↔ AllFit ks ∧ AllFit ls :=
  List.forall_mem_append

theorem spell_cons (m : Memory) (t : Token) (ts : List Token) :
    spell m (t :: ts) = List.replicate (m.step t.action).1.1 (m.step t.action).1.2
      ++ spell (m.step t.action).2 ts := rfl

/-- A text has the samples of its tokens, up to the greatest number. -/
theorem decodeTenths_join {ts : List Token} (hop : ∀ t ∈ ts, Token.isBody t.opcode = false)
    (hbody : ∀ t ∈ ts, t.body.all Token.isBody = true) :
    decodeTenths (Token.join ts) = (spell {} ts).take maxLength := by
  rw [decodeTenths, Token.join, String.toList_ofList, Token.scan_flatMap_text hop hbody,
    expand_eq_take, spell]

/-- Everything that a number forms fits if the number is read and fits in tenths. -/
theorem allFit_number {body : List Char} {n : Nat} (hn : Token.units? body = some n)
    (hfit : ((n * 10 + Token.tenth body : Nat) : Int) ≤ Scalar.maxInt64) :
    AllFit (Token.number body) := by
  have hval : Nat.ofDigitChars 10 (body.takeWhile Char.isDigit) 0 = n := by
    rw [Token.units?] at hn
    split at hn
    · exact absurd hn (by simp)
    · exact Option.some.inj hn
  intro k hk
  rw [Token.number, hval] at hk
  rw [Scalar.fitsInt64_iff, Scalar.minInt64]
  simp only [List.mem_cons, List.not_mem_nil, or_false] at hk
  rcases hk with rfl | rfl | rfl
  · omega
  · omega
  · omega

/-! ### Repetitions -/

theorem action_repetition {n : Nat} (hn : (n : Int) ≤ Scalar.maxInt64) :
    Token.action ⟨'r', Nat.toDigits 10 n⟩ = .again n := by
  have hunits := Token.units?_allDigits hn
  simp only [Token.action, hunits]

/-- Pending repetitions are read as the last sample so many times, and
leave nothing behind. -/
theorem read_repetition_append {n : Nat} (hn : (n : Int) ≤ Scalar.maxInt64) (m : Memory)
    (ts : List Token) :
    spell m (Token.repetition n ++ ts) = List.replicate n m.sample ++ spell m ts ∧
      (AllFit (formedBy m ts) → AllFit (formedBy m (Token.repetition n ++ ts))) := by
  rw [Token.repetition]
  by_cases hzero : n = 0
  · rw [if_pos hzero, hzero]
    exact ⟨rfl, id⟩
  · have haction := action_repetition hn
    rw [if_neg hzero, List.singleton_append]
    constructor
    · rw [spell_cons, haction]
      rfl
    · intro h
      rw [formedBy, allFit_append, haction, Token.formed, haction]
      refine ⟨?_, h⟩
      intro k hk
      rw [List.mem_singleton] at hk
      rw [Scalar.fitsInt64_iff, Scalar.minInt64, hk]
      omega

/-! ### Chains of tokens -/

/-- A text is cut in front of the token: its opcode cannot be part of a body, and its body is
one. -/
structure Token.Separate (t : Token) : Prop where
  opcode : Token.isBody t.opcode = false
  body : t.body.all Token.isBody = true

/-- `write` writes a sample behind the last one so that the reader makes `view` of it. `At`
ties what the reader remembers to the last sample. -/
structure Faithful {σ : Type} (write : σ → σ → Token) (valid : σ → Prop)
    (view : σ → Option Int) (At : σ → Memory → Prop) : Prop where
  separate : ∀ last x, (write last x).Separate
  sample : ∀ {last m}, At last m → m.sample = view last
  step : ∀ {last x m}, valid last → valid x → x ≠ last → At last m →
    (m.step (write last x).action).1 = (1, view x) ∧ At x (m.step (write last x).action).2
  fits : ∀ {last x m}, valid last → valid x → At last m →
    AllFit ((write last x).formed m.level)

section

variable {σ : Type} [DecidableEq σ] {write : σ → σ → Token} {valid : σ → Prop}
  {view : σ → Option Int} {At : σ → Memory → Prop}

/-- The reader gives back what is pending and all samples. -/
theorem spell_tokens (hw : Faithful write valid view At) {last : σ} {pending : Nat}
    {xs : List σ} {m : Memory} (hm : At last m) (hlast : valid last) (hxs : ∀ x ∈ xs, valid x)
    (hcount : ((pending + xs.length : Nat) : Int) ≤ Scalar.maxInt64) :
    spell m (tokens write last pending xs) = List.replicate pending (view last) ++
      xs.map view ∧ AllFit (formedBy m (tokens write last pending xs)) := by
  -- the reader stands behind `last` and has not read the `pending` repetitions of it yet
  induction xs generalizing last pending m with
  | nil =>
    have hrep := read_repetition_append (n := pending) (by simpa using hcount) m []
    rw [List.append_nil] at hrep
    rw [tokens, hrep.1, hw.sample hm]
    exact ⟨rfl, hrep.2 (fun k hk => absurd hk List.not_mem_nil)⟩
  | cons x xs ih =>
    rw [List.length_cons] at hcount
    have hx : valid x := hxs x List.mem_cons_self
    have hrest : ∀ y ∈ xs, valid y := fun y hy => hxs y (List.mem_cons_of_mem x hy)
    rw [tokens]
    by_cases heq : x = last
    · -- one more of the last sample is pending
      have hmore : ((pending + 1 + xs.length : Nat) : Int) ≤ Scalar.maxInt64 := by omega
      obtain ⟨hspell, hfit⟩ := ih hm hlast hrest hmore
      rw [if_pos heq, hspell]
      refine ⟨?_, hfit⟩
      rw [List.replicate_succ', List.append_assoc, heq, List.map_cons, List.singleton_append]
    · -- what is pending is written first, and the reader stands behind the same sample after
      -- it
      obtain ⟨hone, hat⟩ := hw.step hlast hx heq hm
      have hnone : ((0 + xs.length : Nat) : Int) ≤ Scalar.maxInt64 := by omega
      obtain ⟨hspell, hfit⟩ := ih hat hx hrest hnone
      obtain ⟨hrep, hrepfit⟩ := read_repetition_append (n := pending) (by omega) m
        (write last x :: tokens write x 0 xs)
      rw [if_neg heq, hrep, hw.sample hm, spell_cons, hone, hspell]
      refine ⟨rfl, hrepfit ?_⟩
      rw [formedBy, allFit_append]
      exact ⟨hw.fits hlast hx hm, hfit⟩

/-- All tokens of a written series are separate. -/
theorem separate_of_mem_tokens (hw : Faithful write valid view At) {last : σ} {pending : Nat}
    {xs : List σ} {t : Token} (ht : t ∈ tokens write last pending xs) : t.Separate := by
  have hrep : ∀ n, ∀ t ∈ Token.repetition n, t.Separate := by
    intro n t ht
    rw [Token.repetition] at ht
    split at ht
    · exact absurd ht List.not_mem_nil
    · rw [List.mem_singleton.1 ht]
      exact ⟨rfl, all_isBody_toDigits n⟩
  induction xs generalizing last pending with
  | nil => exact hrep pending t ht
  | cons x xs ih =>
    rw [tokens] at ht
    split at ht
    · exact ih ht
    · rw [List.mem_append, List.mem_cons] at ht
      rcases ht with ht | rfl | ht
      · exact hrep pending t ht
      · exact hw.separate last x
      · exact ih ht

/-- **The text of a series reads back**, and everything that reading forms fits. -/
theorem decodeTenths_tokens (hw : Faithful write valid view At) (zero : σ)
    (hzero : At zero {}) (hvalid : valid zero) {xs : List σ} (hxs : ∀ x ∈ xs, valid x)
    (hcount : (xs.length : Int) ≤ Scalar.maxInt64) :
    decodeTenths (Token.join (tokens write zero 0 xs)) = (xs.map view).take maxLength ∧
      AllFit (formed (Token.join (tokens write zero 0 xs))) := by
  have hsep := fun t (ht : t ∈ tokens write zero 0 xs) => separate_of_mem_tokens hw ht
  have hop := fun t ht => (hsep t ht).opcode
  have hbody := fun t ht => (hsep t ht).body
  have hnone : ((0 + xs.length : Nat) : Int) ≤ Scalar.maxInt64 := by rwa [Nat.zero_add]
  obtain ⟨hspell, hfit⟩ := spell_tokens hw hzero hvalid hxs hnone
  constructor
  · rw [decodeTenths_join hop hbody, hspell, List.replicate_zero, List.nil_append]
  · rw [formed, Token.join, String.toList_ofList, Token.scan_flatMap_text hop hbody]
    exact hfit

end

end LineCharts.Series
