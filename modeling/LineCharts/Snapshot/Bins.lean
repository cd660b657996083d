/-
Snapshots of a line, carrier by carrier.

A carrier is also called a bin. One snapshot holds the carriers' bit loading,
signal-to-noise ratio (SNR), quiet line noise (QLN) and channel characteristic (Hlog),
each for both directions of transmission, the bands of carriers that each direction
has, and the pilot tones.

* `Bins` is the snapshot, `Bins.read` reads it from JSON.
-/
import LineCharts.Snapshot.Band
import LineCharts.Snapshot.CarrierSeries

namespace LineCharts

/-- A snapshot of all carriers of a line. -/
structure Bins (α : Type) where
  binCount : Nat
  /-- From one carrier to the next, in kHz. -/
  carrierSpacing : α
  pilotTones : List Nat
  /-- Bands in the order of their start. -/
  bands : List Band
  bits : PerDirection (CarrierSeries α)
  snr : PerDirection (CarrierSeries α)
  qln : PerDirection (CarrierSeries α)
  hlog : PerDirection (CarrierSeries α)
deriving BEq

namespace Bins

/-- The number of carriers where no snapshot tells it. -/
def defaultBinCount : Nat := 8192

/-- The carrier spacing where no snapshot tells it. -/
def defaultCarrierSpacing {α : Type} [Scalar α] : α := 4.3125

/-- A snapshot without bands, pilot tones and samples. -/
def empty {α : Type} [Scalar α] : Bins α :=
  let none : PerDirection (CarrierSeries α) := .both .empty
  { binCount := defaultBinCount
    carrierSpacing := defaultCarrierSpacing
    pilotTones := []
    bands := []
    bits := none
    snr := none
    qln := none
    hlog := none }

/-! ### Reading -/

/-- A snapshot of the right shape, whatever its numbers. -/
def ofJson? (v : Json) : Option (Bins Float) := do
  let [binCount, carrierSpacing, pilotTones, bands, bits, snr, qln, hlog] ← v.record?
    ["BinCount", "CarrierSpacing", "PilotTones", "Bands", "Bits", "SNR", "QLN", "Hlog"] | none
  let series :=
    Json.optional (.both .empty) (PerDirection.ofJson? .empty CarrierSeries.ofJson?)
  let binCount ← Json.required Json.word? binCount
  let carrierSpacing ← Json.required Json.float? carrierSpacing
  let pilotTones ← Json.optional [] (Json.list? Json.word?) pilotTones
  let bands ← Json.optional (.both [])
    (PerDirection.ofJson? [] (Json.list? Band.edges?)) bands
  return {
    binCount, carrierSpacing, pilotTones
    bands := Band.merge bands
    bits := ← series bits
    snr := ← series snr
    qln := ← series qln
    hlog := ← series hlog }

/-- A snapshot has at least one carrier, and a finite positive distance between two. -/
def check (bins : Bins Float) : Except ChartError (Bins Float) :=
  if bins.binCount = 0 then .error (.invalid .noBins)
  else if !bins.carrierSpacing.isFinite || bins.carrierSpacing ≤ 0.0 then
    .error (.invalid .carrierSpacing)
  else .ok bins

/-- The snapshot in a JSON value. -/
def ofJson (v : Json) : Except ChartError (Bins Float) :=
  match ofJson? v with
  | some bins => bins.check
  | none => .error .malformedJson

/-- Reads a snapshot. -/
def read (text : String) : Except ChartError (Bins Float) :=
  match Json.read? text with
  | some v => ofJson v
  | none => .error .malformedJson

end Bins

end LineCharts
