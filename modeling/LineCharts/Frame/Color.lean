/-
Colours.

* `Color` has four channels from 0 to 1.
* `Color.byte` is a channel as a number from 0 to 255, `Color.brightness` how bright it looks.
* `Color.css` is the text form, `Color.check` refuses channels that are out of range.
-/
import LineCharts.ChartError
import LineCharts.Scalar

namespace LineCharts

/-- A colour with its opacity. -/
structure Color (α : Type) where
  red : α
  green : α
  blue : α
  alpha : α
deriving BEq

namespace Color

variable {α : Type} [Scalar α]

/-- A colour that hides what is behind it. -/
def solid (red green blue : α) : Color α := ⟨red, green, blue, 1.0⟩

/-- A colour from channels of 0 to 255 and an opacity of 0 to 1. -/
def ofBytes (red green blue : Nat) (alpha : α) : Color α :=
  ⟨Scalar.ofNat red / 255.0, Scalar.ofNat green / 255.0, Scalar.ofNat blue / 255.0, alpha⟩

/-- The colour with another opacity. -/
def withAlpha (c : Color α) (alpha : α) : Color α := { c with alpha }

/-- A channel as a number from 0 to 255. -/
def byte (channel : α) : Int :=
  Scalar.toInt (Scalar.round (Scalar.clamp 0.0 1.0 channel * 255.0))

/-- The channels from 0 to 255, without the opacity. -/
def bytes (c : Color α) : List Int := [byte c.red, byte c.green, byte c.blue]

/-- How bright a colour looks, from 0 to 255. -/
def brightness (c : Color α) : α :=
  0.299 * Scalar.ofInt (byte c.red) + 0.587 * Scalar.ofInt (byte c.green)
    + 0.114 * Scalar.ofInt (byte c.blue)

/-- The opacity to three places, as a number. -/
def writtenAlpha (c : Color α) : α := Scalar.round (c.alpha * 1000.0) / 1000.0

/-- The text form: `rgba(255,0,0,0.5)`. -/
def css (c : Color α) : String :=
  "rgba(" ++ ",".intercalate (c.bytes.map toString ++ [Scalar.text c.writtenAlpha]) ++ ")"

/-- The value of a channel is a number from 0 to 1. -/
def isChannel (v : α) : Bool := Scalar.isFinite v && Scalar.within 0.0 1.0 v

/-- The channels with their names. -/
def channels (c : Color α) : List (String × α) :=
  [("red", c.red), ("green", c.green), ("blue", c.blue), ("alpha", c.alpha)]

/-- Refuses the first channel that is out of range. -/
def check (c : Color α) : Except ChartError Unit :=
  match c.channels.find? fun (_, v) => !isChannel v with
  | some (name, _) => .error (.invalid (.colorChannel name))
  | none => .ok ()

end Color

end LineCharts
