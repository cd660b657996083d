/-
Reading a series from its text form.

* `Memory` is what earlier tokens leave behind: the value that changes refer to and the sample
  that repetitions give.
* `runs` turns actions into runs of equal samples, without any limit.
* `expand` writes runs out up to a limit.
* `decode` and `decodeCounters` read a text; they stop at `maxLength` samples.

Design notes. A run is a count and a sample, so a repetition of any length is one entry until
`expand` cuts it to the room that is left. Samples stay in tenths until the end.
-/
import LineCharts.Series.Token
import LineCharts.Scalar.Double

namespace LineCharts.Series

/-- The greatest number of samples that reading a text gives. -/
def maxLength : Nat := 1048576

/-- What the tokens so far leave behind. Before the first there is the value zero, also for
repetitions. -/
structure Memory where
  /-- The last value, in tenths; a gap does not touch it. -/
  level : Int := 0
  /-- The last sample. -/
  sample : Option Int := some 0
deriving DecidableEq

/-- The run that an action adds and what is remembered after it. A change that leaves the
signed range of 64 bits does nothing. -/
def Memory.step (m : Memory) : Action → (Nat × Option Int) × Memory
  | .value v => ((1, some v), ⟨v, some v⟩)
  | .change d =>
    let v := m.level + d
    if Scalar.fitsInt64 v then ((1, some v), ⟨v, some v⟩) else ((0, m.sample), m)
  | .again n => ((n, m.sample), m)
  | .gap => ((1, none), { m with sample := none })
  | .nothing => ((0, m.sample), m)

/-- The runs of a chain of actions. -/
def runs : Memory → List Action → List (Nat × Option Int)
  | _, [] => []
  | m, a :: as => (m.step a).1 :: runs (m.step a).2 as

/-- Runs written out, `room` samples at most. -/
def expand {σ : Type} : Nat → List (Nat × σ) → List σ
  | _, [] => []
  | room, (n, x) :: rest =>
    List.replicate (min n room) x ++ expand (room - min n room) rest

/-- Writing runs out up to a limit is writing all of them out and taking as many samples. -/
theorem expand_eq_take {σ : Type} (room : Nat) (rs : List (Nat × σ)) :
    expand room rs = (rs.flatMap fun (n, x) => List.replicate n x).take room := by
  induction rs generalizing room with
  | nil => simp [expand]
  | cons r rs ih =>
    rw [expand, ih, List.flatMap_cons, List.take_append, List.take_replicate,
      List.length_replicate, Nat.min_comm]
    congr 2
    omega

/-- The samples of a text in tenths. -/
def decodeTenths (text : String) : List (Option Int) :=
  expand maxLength (runs {} ((Token.scan text.toList).map Token.action))

/-- No text has more samples than the greatest number. -/
theorem length_decodeTenths_le (text : String) : (decodeTenths text).length ≤ maxLength := by
  rw [decodeTenths, expand_eq_take, List.length_take]
  exact Nat.min_le_left ..

/-- So many tenths as a number. -/
@[specialize] def ofTenths {α : Type} [Scalar α] (t : Int) : α := Scalar.ofInt t / 10.0

/-- The samples of a text. -/
@[specialize] def decode {α : Type} [Scalar α] (text : String) : List (Option α) :=
  (decodeTenths text).map (·.map ofTenths)

/-- A sample as a counter: rounded to the nearest whole number, and a gap
if that is negative. -/
def counter? (t : Int) : Option Nat :=
  let whole : Float := Scalar.round (ofTenths t)
  if 0.0 ≤ whole then some (Scalar.toInt whole).toNat else none

/-- The samples of a text as counters. -/
def decodeCounters (text : String) : List (Option Nat) :=
  (decodeTenths text).map (·.bind counter?)

end LineCharts.Series
