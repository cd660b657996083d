/-
Writing a series in its text form.

* `Token.ofTenths` and `Token.ofUnits` write one value.
* `Token.shorter` chooses between the value itself and its change.
* `tokens` chains the samples: a sample equal to the one before is only counted, and the count
  becomes one repetition token in front of the next different sample.
* `encodeReals`, `encodeInts` and `encodeOptionalInts` give the text of a series.

Design notes. The three forms share `tokens` and differ in how one sample is written after
another. The sample before the first is zero, as it is for the reader.
-/
import LineCharts.Series.Token

namespace LineCharts.Series

/-- The opcodes of one kind of value token. -/
structure Opcodes where
  plus : Char
  minus : Char
  plusTenths : Char
  minusTenths : Char
deriving DecidableEq

/-- Opcodes that set the value. -/
def Opcodes.absolute : Opcodes := ⟨'P', 'N', 'Q', 'O'⟩

/-- Opcodes that change the value. -/
def Opcodes.relative : Opcodes := ⟨'p', 'n', 'q', 'o'⟩

namespace Token

/-- A value given in tenths. Below one unit it is written in tenths; a
zero tenth is left out. -/
def ofTenths (ops : Opcodes) (t : Int) : Token :=
  let whole := t.natAbs / 10
  let rest := t.natAbs % 10
  if whole = 0 then
    ⟨if 0 ≤ t then ops.plusTenths else ops.minusTenths, Nat.toDigits 10 rest⟩
  else
    ⟨if 0 ≤ t then ops.plus else ops.minus,
      if rest = 0 then Nat.toDigits 10 whole
      else Nat.toDigits 10 whole ++ '.' :: Nat.toDigits 10 rest⟩

/-- A value given in units. -/
def ofUnits (ops : Opcodes) (n : Int) : Token :=
  ⟨if 0 ≤ n then ops.plus else ops.minus, Nat.toDigits 10 n.natAbs⟩

/-- The token of a gap. -/
def gap : Token := ⟨'e', []⟩

/-- The tokens of a pending repetition: none for a count of zero. -/
def repetition (count : Nat) : List Token :=
  if count = 0 then [] else [⟨'r', Nat.toDigits 10 count⟩]

/-- The shorter of two tokens; the first if they are equally long. -/
def shorter (first second : Token) : Token :=
  if first.text.length ≤ second.text.length then first else second

/-- `next` after `last`, both in tenths. -/
def nextTenths (last next : Int) : Token :=
  shorter (ofTenths .absolute next) (ofTenths .relative (next - last))

/-- `next` after `last`, both in units. -/
def nextUnits (last next : Int) : Token :=
  shorter (ofUnits .absolute next) (ofUnits .relative (next - last))

/-- `next` after `last`, both in units or absent. After a gap only the value itself is
written. -/
def nextOptional : Option Int → Option Int → Token
  | _, none => gap
  | some last, some next => nextUnits last next
  | none, some next => ofUnits .absolute next

end Token

/-- The tokens of `samples` after the sample `last`, which is still to be repeated `pending`
times. -/
def tokens {σ : Type} [DecidableEq σ] (write : σ → σ → Token) (last : σ) (pending : Nat) :
    List σ → List Token
  | [] => Token.repetition pending
  | x :: xs =>
    if x = last then tokens write last (pending + 1) xs
    else Token.repetition pending ++ write last x :: tokens write x 0 xs

/-- A number in tenths, the nearest there are. -/
@[specialize] def toTenths {α : Type} [Scalar α] (x : α) : Int :=
  Scalar.toInt (Scalar.round (x * 10.0))

/-- The text of a series of numbers, to one decimal place. -/
@[specialize] def encodeReals {α : Type} [Scalar α] (xs : List α) : String :=
  Token.join (tokens Token.nextTenths 0 0 (xs.map toTenths))

/-- The text of a series of integers. -/
def encodeInts (xs : List Int) : String := Token.join (tokens Token.nextUnits 0 0 xs)

/-- The text of a series of integers with gaps. -/
def encodeOptionalInts (xs : List (Option Int)) : String :=
  Token.join (tokens Token.nextOptional (some 0) 0 xs)

end LineCharts.Series
