/-
Texts are read token by token, and the limit only cuts what comes.

* `Token.scan_append` — a text that is cut in front of an opcode has the tokens of both parts;
* `spell_append` — so its samples are those of the first part, and those of the second one as
  they are read with what the first one leaves behind (`Memory.after`);
* `Reading.next` — a reader that takes one token after the other, with a limit on
  its samples or without;
* `Reading.foldl_unlimited` — without a limit it gives all samples of the tokens;
* `Reading.foldl_limited` — with a limit it gives the first of these, as
  many as the limit says;
* `fits_of_mem_spell` — every sample that is none of the gaps is a word;
* `decode_limited` — what reading a text gives, by all of this.

Design notes.  The limit is looked at in front of every token and once more in a repetition,
which is cut to the room that is left.  A reader that is full no longer remembers anything, so
only its samples are compared with those of a reader without a limit.
-/
import LineCharts.Proofs.Series.RoundTrip
import Mathlib.Data.List.Infix

namespace LineCharts.Series

/-! ### Cuts between tokens -/

namespace Token

/-- Another text can be cut off in front of this one: it is empty, or it
starts with an opcode. -/
def StartsAnew (cs : List Char) : Prop := ∀ c ∈ cs.head?, isBody c = false

instance (cs : List Char) : Decidable (StartsAnew cs) := Option.decidableForallMem cs.head?

section

variable {ds : List Char} (h : StartsAnew ds) (cs : List Char)
include h

/-- No body goes on behind a cut. -/
theorem takeWhile_append_anew : (cs ++ ds).takeWhile isBody = cs.takeWhile isBody := by
  induction cs with
  | nil =>
    cases ds with
    | nil => rfl
    | cons d ds =>
      have hd : isBody d = false := h d rfl
      simp [hd]
  | cons c cs ih =>
    by_cases hc : isBody c
    · simp [hc, ih]
    · simp [hc]

theorem dropWhile_append_anew : (cs ++ ds).dropWhile isBody = cs.dropWhile isBody ++ ds := by
  induction cs with
  | nil =>
    cases ds with
    | nil => rfl
    | cons d ds =>
      have hd : isBody d = false := h d rfl
      simp [hd]
  | cons c cs ih =>
    by_cases hc : isBody c
    · simp [hc, ih]
    · simp [hc]

/-- **A text that is cut between tokens has the tokens of its parts.** -/
theorem scan_append : scan (cs ++ ds) = scan cs ++ scan ds := by
  fun_induction scan cs with
  | case1 => rfl
  | case2 c rest ih =>
    rw [List.cons_append, scan, takeWhile_append_anew h, dropWhile_append_anew h, ih,
      List.cons_append]

end

end Token

/-- What a chain of tokens leaves behind. -/
def Memory.after (m : Memory) (ts : List Token) : Memory :=
  ts.foldl (fun m t => (m.step t.action).2) m

/-- **The samples of a chain are those of its parts.** -/
theorem spell_append (m : Memory) (ts us : List Token) :
    spell m (ts ++ us) = spell m ts ++ spell (m.after ts) us := by
  induction ts generalizing m with
  | nil => rfl
  | cons t ts ih =>
    have hafter : m.after (t :: ts) = (m.step t.action).2.after ts := rfl
    rw [List.cons_append, spell_cons, spell_cons, ih, hafter, List.append_assoc]

/-- A text has the samples of its tokens, up to the greatest number. -/
theorem decodeTenths_eq_spell (text : String) :
    decodeTenths text = (spell {} (Token.scan text.toList)).take maxLength :=
  expand_eq_take maxLength _

/-! ### Readers -/

/-- A reader between two tokens: the samples so far, in tenths, and what is remembered. -/
structure Reading where
  samples : List (Option Int) := []
  memory : Memory := {}

namespace Reading

/-- A sample with a value. -/
def push (r : Reading) (tenths : Int) : Reading :=
  ⟨r.samples ++ [some tenths], ⟨tenths, some tenths⟩⟩

/-- One token.  With a limit a reader takes no more tokens once it has as many samples, and a
repetition is cut to the room that is left. -/
def next (limit : Option Nat) (r : Reading) (t : Token) : Reading :=
  if limit.any (· ≤ r.samples.length) then r
  else match t.action with
    | .value v => r.push v
    | .change d =>
      let v := r.memory.level + d
      if Scalar.fitsInt64 v then r.push v else r
    | .again n =>
      let count := match limit with
        | some limit => min n (limit - r.samples.length)
        | none => n
      { r with samples := r.samples ++ List.replicate count r.memory.sample }
    | .gap => ⟨r.samples ++ [none], { r.memory with sample := none }⟩
    | .nothing => r

variable (xs : List (Option Int)) (m : Memory) (t : Token) (ts : List Token) {limit : Nat}

/-- A token adds its run. -/
theorem next_unlimited : next none ⟨xs, m⟩ t =
    ⟨xs ++ List.replicate (m.step t.action).1.1 (m.step t.action).1.2,
      (m.step t.action).2⟩ := by
  have hroom : ¬ (none : Option Nat).any (· ≤ xs.length) = true := by simp
  rw [next, if_neg hroom]
  cases t.action with
  | value v => rfl
  | change d =>
    rw [Memory.step]
    by_cases hfits : Scalar.fitsInt64 (m.level + d)
    · simp [hfits, push]
    · simp [hfits]
  | again n => rfl
  | gap => rfl
  | nothing => simp [Memory.step]

/-- **Without a limit a reader gives all samples of the tokens.** -/
theorem foldl_unlimited : ts.foldl (next none) ⟨xs, m⟩ = ⟨xs ++ spell m ts, m.after ts⟩ := by
  induction ts generalizing xs m with
  | nil => simp [spell, runs, Memory.after]
  | cons t ts ih =>
    rw [List.foldl_cons, next_unlimited, ih, spell_cons, List.append_assoc]
    rfl

/-- With room for one sample a token adds its run, as far as there is room. -/
theorem next_limited (h : xs.length < limit) : next (some limit) ⟨xs, m⟩ t =
    ⟨(next none ⟨xs, m⟩ t).samples.take limit, (next none ⟨xs, m⟩ t).memory⟩ := by
  have hroom : ¬ (some limit).any (· ≤ xs.length) = true := by simp [h]
  have hstay : xs.take limit = xs := List.take_of_length_le h.le
  have hone (x : Option Int) : (xs ++ [x]).take limit = xs ++ [x] :=
    List.take_of_length_le (by simp only [List.length_append, List.length_singleton]; omega)
  rw [next, if_neg hroom, next]
  cases t.action with
  | value v => simp [push, hone]
  | change d =>
    by_cases hfits : Scalar.fitsInt64 (m.level + d)
    · simp [hfits, push, hone]
    · simp [hfits, hstay]
  | again n => simp [List.take_append, List.take_replicate, hstay, Nat.min_comm]
  | gap => simp [hone]
  | nothing => simp [hstay]

/-- A reader that is full takes no more tokens. -/
theorem foldl_full {r : Reading} (h : limit ≤ r.samples.length) :
    ts.foldl (next (some limit)) r = r := by
  induction ts with
  | nil => rfl
  | cons t ts ih =>
    have hfull : (some limit).any (· ≤ r.samples.length) = true := by simp [h]
    rw [List.foldl_cons, next, if_pos hfull, ih]

/-- **With a limit a reader gives the first of the samples**, whatever it has cut before. -/
theorem foldl_limited : (ts.foldl (next (some limit)) ⟨xs.take limit, m⟩).samples =
    (ts.foldl (next none) ⟨xs, m⟩).samples.take limit := by
  induction ts generalizing xs m with
  | nil => rfl
  | cons t ts ih =>
    rcases Nat.lt_or_ge xs.length limit with hlt | hge
    · rw [List.take_of_length_le hlt.le, List.foldl_cons, next_limited xs m t hlt, ih,
        List.foldl_cons]
    · -- the reader is full, and what comes without a limit stands behind what it has
      have hfull : limit ≤ (xs.take limit).length := by simp [hge]
      rw [foldl_full _ hfull, foldl_unlimited, List.take_append_of_le_length hge]

end Reading

/-- The samples of a text in tenths, as a reader with this limit gives them. -/
def readTenths (limit : Option Nat) (text : String) : List (Option Int) :=
  ((Token.scan text.toList).foldl (Reading.next limit) {}).samples

theorem readTenths_none (text : String) :
    readTenths none text = spell {} (Token.scan text.toList) := by
  rw [readTenths, Reading.foldl_unlimited, List.nil_append]

theorem readTenths_some (limit : Nat) (text : String) :
    readTenths (some limit) text = (readTenths none text).take limit := by
  have hread := @Reading.foldl_limited [] {} (Token.scan text.toList) limit
  rwa [List.take_nil] at hread

/-! ### Values -/

/-- A value token has a number that is a word, or does nothing. -/
theorem Token.valueAction_cases (make : Int → Action) (inTenths negative : Bool)
    (body : List Char) :
    valueAction make inTenths negative body = .nothing ∨
      ∃ v, Scalar.fitsInt64 v = true ∧ valueAction make inTenths negative body = make v := by
  rw [valueAction]
  cases units? body with
  | none => exact .inl rfl
  | some n =>
    dsimp only
    split
    case isTrue => exact .inl rfl
    case isFalse hfits =>
      refine .inr ⟨_, ?_, rfl⟩
      rw [Scalar.maxInt64] at hfits
      rw [Scalar.fitsInt64_iff, Scalar.minInt64, Scalar.maxInt64]
      cases inTenths <;> cases negative <;> simp <;> omega

/-- The value of a token is a word. -/
theorem Token.fits_of_action {t : Token} {v : Int} (h : t.action = .value v) :
    Scalar.fitsInt64 v = true := by
  rw [action] at h
  have hvalue {inTenths negative : Bool} (h : valueAction .value inTenths negative t.body =
      .value v) : Scalar.fitsInt64 v = true := by
    rcases valueAction_cases .value inTenths negative t.body with hnone | ⟨w, hw, hsome⟩
    · rw [hnone] at h
      cases h
    · rw [hsome] at h
      cases h
      exact hw
  have hchange {inTenths negative : Bool} :
      valueAction .change inTenths negative t.body ≠ .value v := by
    rcases valueAction_cases .change inTenths negative t.body with hnone | ⟨w, _, hsome⟩
    · rw [hnone]
      exact Action.noConfusion
    · rw [hsome]
      exact Action.noConfusion
  split at h
  case h_1 => exact hvalue h
  case h_2 => exact hvalue h
  case h_3 => exact hvalue h
  case h_4 => exact hvalue h
  case h_5 => exact absurd h hchange
  case h_6 => exact absurd h hchange
  case h_7 => exact absurd h hchange
  case h_8 => exact absurd h hchange
  case h_9 =>
    split at h <;> cases h
  case h_10 => cases h
  case h_11 => cases h

/-- The sample that repetitions give is a gap or a word. -/
def Memory.Fits (m : Memory) : Prop := ∀ v ∈ m.sample, Scalar.fitsInt64 v = true

/-- **What a token adds is a gap or a word**, and so is what it leaves for repetitions. -/
theorem Memory.Fits.step {m : Memory} (h : m.Fits) (t : Token) :
    (∀ v ∈ (m.step t.action).1.2, Scalar.fitsInt64 v = true) ∧ (m.step t.action).2.Fits := by
  have hone {v : Int} (hv : Scalar.fitsInt64 v = true) :
      ∀ w ∈ some v, Scalar.fitsInt64 w = true := by
    rintro w ⟨rfl⟩
    exact hv
  cases haction : t.action with
  | value v =>
    have hv := Token.fits_of_action haction
    exact ⟨hone hv, hone hv⟩
  | change d =>
    rw [Memory.step]
    split
    case isTrue hfits => exact ⟨hone hfits, hone hfits⟩
    case isFalse => exact ⟨h, h⟩
  | again n => exact ⟨h, h⟩
  | gap => exact ⟨nofun, nofun⟩
  | nothing => exact ⟨h, h⟩

/-- All values of a chain of tokens are words. -/
theorem fits_of_mem_spell {m : Memory} (h : m.Fits) {ts : List Token} {v : Int}
    (hv : some v ∈ spell m ts) : Scalar.fitsInt64 v = true := by
  induction ts generalizing m with
  | nil => cases hv
  | cons t ts ih =>
    obtain ⟨hsample, hafter⟩ := h.step t
    rw [spell_cons, List.mem_append] at hv
    rcases hv with hv | hv
    · exact hsample v (List.eq_of_mem_replicate hv).symm
    · exact ih hafter hv

/-! ### Texts -/

/-- **The limit only cuts, and reading is incremental.**  What a text gives is what a reader
gives that stops at the greatest number of samples, and that is the first so many samples of a
reader without a limit.  Each sample is a gap or a number of tenths that is a word.  A text
that is cut in front of an opcode, or at its end, gives a start of the same series. -/
theorem decode_limited {α : Type} [Scalar α] (text : String) :
    let unlimited : List (Option α) := (readTenths none text).map (·.map ofTenths)
    (decode text : List (Option α)) = unlimited.take maxLength ∧
    decode text = (readTenths (some maxLength) text).map (·.map (ofTenths (α := α))) ∧
    (decode text : List (Option α)).length ≤ maxLength ∧
    (∀ x : α, some x ∈ decode text → ∃ t, Scalar.fitsInt64 t = true ∧ x = ofTenths t) ∧
    ∀ a b : String, text = a ++ b → Token.StartsAnew b.toList →
      (decode a : List (Option α)) <+: decode text := by
  intro unlimited
  have hread (text : String) : decodeTenths text = (readTenths none text).take maxLength := by
    rw [decodeTenths_eq_spell, readTenths_none]
  refine ⟨?_, ?_, ?_, ?_, ?_⟩
  · rw [decode, hread, List.map_take]
  · rw [decode, hread, ← readTenths_some]
  · rw [decode, List.length_map]
    exact length_decodeTenths_le text
  · intro x hx
    obtain ⟨sample, hsample, hmap⟩ := List.mem_map.mp hx
    obtain ⟨t, rfl, rfl⟩ := Option.map_eq_some_iff.mp hmap
    rw [decodeTenths_eq_spell] at hsample
    have hzero : Memory.Fits {} := by
      rintro v ⟨rfl⟩
      decide
    exact ⟨t, fits_of_mem_spell hzero (List.mem_of_mem_take hsample), rfl⟩
  · rintro a b rfl hb
    have hparts : readTenths none a <+: readTenths none (a ++ b) := by
      rw [readTenths_none, readTenths_none, String.toList_append,
        Token.scan_append hb, spell_append]
      exact List.prefix_append _ _
    rw [decode, decode, hread, hread]
    exact (hparts.take maxLength).map _

/-- A repetition behind a number of units and a tenth: the text is cut in
front of the repetition. -/
theorem decode_limited_repetition :
    Token.StartsAnew "r3".toList ∧
      (decode "P1.5" : List (Option Float)) <+: decode "P1.5r3" ∧
      (decode "P1.5r3" : List (Option Float)) = [some 1.5, some 1.5, some 1.5, some 1.5] := by
  have hanew : Token.StartsAnew "r3".toList := by decide
  exact ⟨hanew, (decode_limited "P1.5r3").2.2.2.2 "P1.5" "r3" rfl hanew, by decide +kernel⟩

end LineCharts.Series
