/-
Reading JSON text.

* `Json.tokens?` cuts a text into tokens: marks, names, numbers and texts.
* `Json.State` is where a reader stands between two tokens; `Json.State.step` takes one token.
* `Json.read?` reads one value and nothing behind it.

Design notes. A state holds the open arrays and objects as a list of frames, so reading is one
pass over the tokens, whatever the nesting. A text is scanned into characters and code units
of 16 bits first; that the units pair up is asked at the end of the text only.
-/
import LineCharts.Json.Value

namespace LineCharts.Json

/-- The tokens of a JSON text. -/
inductive Token where
  | openArray
  | closeArray
  | openObject
  | closeObject
  | comma
  | colon
  | null
  | bool (b : Bool)
  | number (n : Numeral)
  | text (s : Option String)

/-! ### Texts -/

/-- A piece of a text: a character as it stands, or a code unit of 16 bits that is
named by its number. -/
inductive Piece where
  | char (c : Char)
  | unit (n : Nat)

/-- The text of the pieces, unless a surrogate stands alone. -/
def assemble : List Piece → Option (List Char)
  | [] => some []
  | .char c :: rest => (assemble rest).map (c :: ·)
  | .unit high :: rest =>
    if high < 0xd800 || 0xdfff < high then (assemble rest).map (Char.ofNat high :: ·)
    else if 0xdc00 ≤ high then none
    else match rest with
      | .unit low :: rest =>
        if 0xdc00 ≤ low && low ≤ 0xdfff then
          (assemble rest).map
            (Char.ofNat (0x10000 + (high - 0xd800) * 0x400 + (low - 0xdc00)) :: ·)
        else none
      | _ => none

/-- The value of a hexadecimal digit. -/
def hexDigit? (c : Char) : Option Nat :=
  if c.isDigit then some (c.toNat - '0'.toNat)
  else if 'a' ≤ c && c ≤ 'f' then some (c.toNat - 'a'.toNat + 10)
  else if 'A' ≤ c && c ≤ 'F' then some (c.toNat - 'A'.toNat + 10)
  else none

/-- The character that a single letter behind a backslash stands for. -/
def escaped? : Char → Option Char
  | '"' => some '"'
  | '\\' => some '\\'
  | '/' => some '/'
  | 'b' => some '\x08'
  | 'f' => some '\x0c'
  | 'n' => some '\n'
  | 'r' => some '\r'
  | 't' => some '\t'
  | _ => none

/-- The pieces up to the closing quote, and what is behind it. -/
def pieces? : List Char → Option (List Piece × List Char)
  | [] => none
  | '"' :: rest => some ([], rest)
  | '\\' :: 'u' :: a :: b :: c :: d :: rest => do
    let a ← hexDigit? a
    let b ← hexDigit? b
    let c ← hexDigit? c
    let d ← hexDigit? d
    let (more, rest) ← pieces? rest
    return (.unit (((a * 16 + b) * 16 + c) * 16 + d) :: more, rest)
  | '\\' :: e :: rest => do
    let c ← escaped? e
    let (more, rest) ← pieces? rest
    return (.char c :: more, rest)
  | c :: rest =>
    if c.toNat < 0x20 || c == '\\' then none
    else do
      let (more, rest) ← pieces? rest
      return (.char c :: more, rest)

/-! ### Numbers -/

/-- The digits in front, and what is behind them. -/
def digits (cs : List Char) : List Char × List Char := cs.span Char.isDigit

/-- A number in front, and what is behind it: no zero before another digit of the whole part,
and at least one digit behind a point and in an exponent. -/
def numeral? (cs : List Char) : Option (Numeral × List Char) := do
  let (negative, cs) := match cs with
    | '-' :: rest => (true, rest)
    | _ => (false, cs)
  let (whole, cs) := digits cs
  guard (!whole.isEmpty && (whole.length = 1 || whole.head? != some '0'))
  let (fraction, cs) ← match cs with
    | '.' :: rest =>
      let (fraction, rest) := digits rest
      if fraction.isEmpty then none else some (fraction, rest)
    | _ => some ([], cs)
  let exponentOf (negative : Bool) (cs : List Char) : Option (Option Int × List Char) :=
    let (ds, rest) := digits cs
    let n : Int := Nat.ofDigitChars 10 ds 0
    if ds.isEmpty then none else some (some (if negative then -n else n), rest)
  let mark := match cs with
    | 'e' :: rest => some rest
    | 'E' :: rest => some rest
    | _ => none
  let (exponent, cs) ← match mark with
    | none => some (none, cs)
    | some ('-' :: rest) => exponentOf true rest
    | some ('+' :: rest) => exponentOf false rest
    | some rest => exponentOf false rest
  return (⟨negative, whole, fraction, exponent⟩, cs)

/-! ### Tokens -/

/-- Blanks between tokens. -/
def isBlank (c : Char) : Bool := c == ' ' || c == '\t' || c == '\n' || c == '\r'

/-- The token in front, and what is behind it. -/
def token? : List Char → Option (Token × List Char)
  | '[' :: rest => some (.openArray, rest)
  | ']' :: rest => some (.closeArray, rest)
  | '\x7b' :: rest => some (.openObject, rest)
  | '\x7d' :: rest => some (.closeObject, rest)
  | ',' :: rest => some (.comma, rest)
  | ':' :: rest => some (.colon, rest)
  | 'n' :: 'u' :: 'l' :: 'l' :: rest => some (.null, rest)
  | 't' :: 'r' :: 'u' :: 'e' :: rest => some (.bool true, rest)
  | 'f' :: 'a' :: 'l' :: 's' :: 'e' :: rest => some (.bool false, rest)
  | '"' :: rest => do
    let (pieces, rest) ← pieces? rest
    return (.text ((assemble pieces).map String.ofList), rest)
  | cs => do
    let (n, rest) ← numeral? cs
    return (.number n, rest)

/-- The tokens of a text. Every token takes a character, so as many steps as there are
characters are enough. -/
def tokens? : Nat → List Char → Option (List Token)
  | 0, cs => if (cs.dropWhile isBlank).isEmpty then some [] else none
  | fuel + 1, cs =>
    match cs.dropWhile isBlank with
    | [] => some []
    | cs => do
      let (t, rest) ← token? cs
      let more ← tokens? fuel rest
      return t :: more

/-! ### Values -/

/-- An open array or object that waits for the value in front of the reader. -/
inductive Frame where
  /-- An array, with its items so far, the last one first. -/
  | item (done : List Json)
  /-- An object, with its fields so far, the last one first, and the key of the value. -/
  | field (done : List (Option String × Json)) (key : Option String)

/-- Where a reader stands. Each case but the last holds the frames around it. -/
inductive State where
  /-- A value has to follow. -/
  | value (around : List Frame)
  /-- Behind an opening bracket. -/
  | first (around : List Frame)
  /-- Behind an item. -/
  | items (done : List Json) (around : List Frame)
  /-- Behind an opening brace. -/
  | firstKey (around : List Frame)
  /-- A key has to follow. -/
  | key (done : List (Option String × Json)) (around : List Frame)
  /-- Behind a key. -/
  | colon (done : List (Option String × Json)) (key : Option String) (around : List Frame)
  /-- Behind a field. -/
  | fields (done : List (Option String × Json)) (around : List Frame)
  /-- Behind the whole value. -/
  | finished (v : Json)

namespace State

/-- The state behind the value `v`. -/
def close (v : Json) : List Frame → State
  | [] => .finished v
  | .item done :: around => .items (v :: done) around
  | .field done k :: around => .fields ((k, v) :: done) around

/-- The state behind the first token of a value. -/
def begin? (t : Token) (around : List Frame) : Option State :=
  match t with
  | .openArray => some (.first around)
  | .openObject => some (.firstKey around)
  | .null => some (close .null around)
  | .bool b => some (close (.bool b) around)
  | .number n => some (close (.number n) around)
  | .text s => some (close (.text s) around)
  | _ => none

/-- The state behind one more token, if it may stand here. -/
def step : State → Token → Option State
  | .value around, t => begin? t around
  | .first around, .closeArray => some (close (.array []) around)
  | .first around, t => begin? t (.item [] :: around)
  | .items done around, .comma => some (.value (.item done :: around))
  | .items done around, .closeArray => some (close (.array done.reverse) around)
  | .firstKey around, .closeObject => some (close (.object []) around)
  | .firstKey around, .text s => some (.colon [] s around)
  | .key done around, .text s => some (.colon done s around)
  | .colon done k around, .colon => some (.value (.field done k :: around))
  | .fields done around, .comma => some (.key done around)
  | .fields done around, .closeObject => some (close (.object done.reverse) around)
  | _, _ => none

end State

/-- The value of a chain of tokens. -/
def ofTokens? (ts : List Token) : Option Json :=
  match ts.foldlM State.step (.value []) with
  | some (.finished v) => some v
  | _ => none

/-- The value of a text. -/
def read? (text : String) : Option Json :=
  let cs := text.toList
  (tokens? cs.length cs).bind ofTokens?

end LineCharts.Json
