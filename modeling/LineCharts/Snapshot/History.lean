/-
The least and greatest signal-to-noise ratio of each carrier over time.

* `Extremes` holds both for one direction; the two lists need not be equally long.
* `History` is the snapshot, `History.read` reads it from JSON.
-/
import LineCharts.ChartError
import LineCharts.Json.Reader
import LineCharts.Series.Decode
import LineCharts.Snapshot.Direction

namespace LineCharts

/-- The least and the greatest sample of each group of carriers. -/
structure Extremes (α : Type) where
  groupSize : Nat
  least : List (Option α)
  greatest : List (Option α)
deriving BEq

/-- No samples. -/
def Extremes.empty {α : Type} : Extremes α := ⟨1, [], []⟩

/-- Neither least nor greatest samples. -/
def Extremes.isEmpty {α : Type} (e : Extremes α) : Bool :=
  e.least.isEmpty && e.greatest.isEmpty

/-- The extremes of the signal-to-noise ratio. -/
structure History (α : Type) where
  snr : PerDirection (Extremes α)
deriving BEq

namespace History

variable {α : Type}

/-- A history without samples. -/
def empty : History α := ⟨.both .empty⟩

/-- Neither direction has a sample. -/
def isEmpty (h : History α) : Bool := h.snr.down.isEmpty && h.snr.up.isEmpty

end History

/-! ### Reading -/

/-- A group size and two encoded texts. -/
def Extremes.ofJson? (v : Json) : Option (Extremes Float) := do
  let [groupSize, least, greatest] ← v.record? ["GroupSize", "Min", "Max"] | none
  let groupSize ← Json.optional 0 Json.word? groupSize
  let least ← Json.optional "" Json.text? least
  let greatest ← Json.optional "" Json.text? greatest
  return ⟨max groupSize 1, Series.decode least, Series.decode greatest⟩

namespace History

/-- The history in a JSON value. -/
def ofJson? (v : Json) : Option (History Float) := do
  let [snr] ← v.record? ["SNR"] | none
  return ⟨← Json.optional (.both .empty) (PerDirection.ofJson? .empty Extremes.ofJson?) snr⟩

/-- Reads a history. -/
def read (text : String) : Except ChartError (History Float) :=
  match (Json.read? text).bind ofJson? with
  | some history => .ok history
  | none => .error .malformedJson

end History

end LineCharts
