/-
JSON values as they are written.

* `Numeral` is the text of a number taken apart; `Numeral.value?` says
  which number it denotes.
* `Json` is a value with the fields of objects in the order they stand in, doubles included.
* `Json.keepable` says whether a value can be kept for later use.

Design notes. What a document may contain and what can be made of it are two questions. A
text with half of a surrogate pair, a number beyond the doubles or a value nested too deeply
may stand in a place that nobody reads, so such parts have a form here (`none`) and are
refused by those who read them.
-/
import LineCharts.Scalar.Double

namespace LineCharts

/-- The parts of a written number. -/
structure Numeral where
  negative : Bool
  whole : List Char
  /-- The digits behind the point; empty without a point. -/
  fraction : List Char
  exponent : Option Int
deriving DecidableEq

/-- What a number denotes. -/
inductive Number where
  /-- A whole number that fits into an unsigned word of 64 bits. -/
  | natural (n : Nat)
  /-- A whole number below zero that fits into a signed word of 64 bits. -/
  | negative (n : Int)
  | real (x : Float)

namespace Numeral

/-- Greatest number of an unsigned word of 64 bits. -/
def maxUInt64 : Nat := 18446744073709551615

/-- Appends digits to `n` as long as it fits into an unsigned word of 64 bits, and counts the
digits that it took. -/
def absorb (n : Nat) : List Char → Nat × Nat
  | [] => (n, 0)
  | c :: rest =>
    let next := n * 10 + (c.toNat - '0'.toNat)
    if maxUInt64 < next then (n, 0)
    else
      let (m, taken) := absorb next rest
      (m, taken + 1)

/-- `x · 10 ^ power`, one multiplication or division where the power of ten is a double, and
`none` if the result is not finite. Steps of `10 ^ 308` lead to a smaller power; three of them
take every number to zero. -/
def scale (x : Float) (power : Int) : Nat → Option Float
  | 0 => some x
  | fuel + 1 =>
    if power.natAbs ≤ 308 then
      let unit := Float.ofScientific 1 false power.natAbs
      if 0 ≤ power then
        let y := x * unit
        if y.isInf then none else some y
      else some (x / unit)
    else if x == 0.0 then some x
    else if 0 ≤ power then none
    else scale (x / 1e308) (power + 308) fuel

/-- The number that is denoted. Without point and exponent it is a whole number if it fits and
is not a negative zero. Otherwise the leading digits that fit into a word of 64 bits become a
double, which is then scaled; `none` if that leaves the doubles. -/
def value? (n : Numeral) : Option Number :=
  let (head, taken) := absorb 0 n.whole
  let dropped := n.whole.length - taken
  if n.fraction.isEmpty && n.exponent.isNone && dropped = 0 && !n.negative then
    some (.natural head)
  else if n.fraction.isEmpty && n.exponent.isNone && dropped = 0
      && 0 < head && Scalar.fitsInt64 (-head) then
    some (.negative (-head))
  else
    let (digits, places) := absorb head n.fraction
    let power : Int := dropped - places + n.exponent.getD 0
    (scale (Double.ofNat digits) power 5).map fun x => .real (if n.negative then -x else x)

end Numeral

/-- A JSON value. A text is `none` if it names half of a surrogate pair. -/
inductive Json where
  | null
  | bool (b : Bool)
  | number (n : Numeral)
  | text (s : Option String)
  | array (items : List Json)
  | object (fields : List (Option String × Json))

namespace Json

/-- How deeply values that are kept may be nested. -/
def maxDepth : Nat := 127

/-- Whether every text and number inside denotes something, with at most `room` levels of
nesting. -/
def keepable : Nat → Json → Bool
  | _, .null => true
  | _, .bool _ => true
  | _, .number n => n.value?.isSome
  | _, .text s => s.isSome
  | 0, .array _ => false
  | 0, .object _ => false
  | room + 1, .array items => items.all (keepable room)
  | room + 1, .object fields => fields.all fun (key, v) => key.isSome && keepable room v

/-- The whole number from 0 to `limit` that is written. -/
def nat? (limit : Nat) : Json → Option Nat
  | .number n => match n.value? with
    | some (.natural k) => if k ≤ limit then some k else none
    | _ => none
  | _ => none

/-- The whole number in the unsigned range of 64 bits that is written. -/
def word? : Json → Option Nat := nat? Numeral.maxUInt64

/-- The whole number in the signed range of 64 bits that is written. -/
def int? : Json → Option Int
  | .number n => match n.value? with
    | some (.natural k) => if Scalar.fitsInt64 k then some k else none
    | some (.negative k) => some k
    | _ => none
  | _ => none

/-- The double that is written, be it as a whole number. -/
def float? : Json → Option Float
  | .number n => n.value?.map fun
    | .natural k => Double.ofNat k
    | .negative k => Double.ofInt k
    | .real x => x
  | _ => none

/-- The text that is written. -/
def text? : Json → Option String
  | .text s => s
  | _ => none

/-- The truth value that is written. -/
def bool? : Json → Option Bool
  | .bool b => some b
  | _ => none

/-- The list that is written, each item read by `item?`. -/
def list? {β : Type} (item? : Json → Option β) : Json → Option (List β)
  | .array items => items.mapM item?
  | _ => none

/-- The choice that is written: a name alone, or an object with `null` under this one name. -/
def choice? {β : Type} (ofName? : String → Option β) : Json → Option β
  | .text (some name) => ofName? name
  | .object [(some name, .null)] => ofName? name
  | _ => none

/-- The values of the fields `names` of a record. An object has them by name, each once at
most, among other fields that do not matter; a list has them in order and may end early. -/
def record? (names : List String) : Json → Option (List (Option Json))
  | .object fields =>
    if fields.any (·.1.isNone) then none
    else
      let values (name : String) := fields.filterMap fun (key, v) =>
        if key == some name then some v else none
      if names.any fun name => 1 < (values name).length then none
      else some (names.map fun name => (values name).head?)
  | .array items =>
    if names.length < items.length then none
    else some (items.map some ++ List.replicate (names.length - items.length) none)
  | _ => none

/-- A field that has to be there. -/
def required {β : Type} (read? : Json → Option β) : Option Json → Option β
  | some v => read? v
  | none => none

/-- A field that may be missing. -/
def optional {β : Type} (default : β) (read? : Json → Option β) : Option Json → Option β
  | some v => read? v
  | none => some default

end Json

end LineCharts
