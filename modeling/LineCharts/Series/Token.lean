/-
Tokens of the text form of a series.

A series is written as a chain of tokens. A token is one character, its opcode, and the
longest run of digits and points behind it. Values are kept in tenths.

* `Token.scan` cuts a text into its tokens, `Token.join` chains tokens to a text; cutting
  undoes chaining (`Token.scan_flatMap_text`), and nothing gets lost
  (`Token.flatMap_text_scan`).
* `Token.action` says what a token does to the series:

  | opcode    | action                                                        |
  |-----------|---------------------------------------------------------------|
  | `P` / `N` | a value, plus or minus, in units and at most one tenth        |
  | `Q` / `O` | a value, plus or minus, in tenths                             |
  | `p` / `n` | a change of the last value, up or down, in units              |
  | `q` / `o` | a change of the last value, up or down, in tenths             |
  | `r`       | the last sample as many more times as the number says         |
  | `e`       | a gap                                                         |

Design notes. Reading never fails. A token with another opcode, without digits where it needs
them, or with a number that does not fit into a signed word of 64 bits, does nothing.
-/
import LineCharts.Scalar

namespace LineCharts.Series

/-- A token as it is written. -/
structure Token where
  opcode : Char
  body : List Char
deriving DecidableEq

/-- What a token does to the series. -/
inductive Action where
  /-- A sample with this value, in tenths. -/
  | value (tenths : Int)
  /-- A sample that differs from the last value by so many tenths. -/
  | change (tenths : Int)
  /-- The last sample, so many more times. -/
  | again (count : Nat)
  /-- No sample for one place. -/
  | gap
  | nothing
deriving DecidableEq

namespace Token

/-- The characters of a token behind its opcode. -/
def isBody (c : Char) : Bool := c.isDigit || c == '.'

/-- The text of one token. -/
def text (t : Token) : List Char := t.opcode :: t.body

/-- The text of a chain of tokens. -/
def join (ts : List Token) : String := String.ofList (ts.flatMap text)

/-- The tokens of a text. -/
def scan : List Char → List Token
  | [] => []
  | c :: rest => ⟨c, rest.takeWhile isBody⟩ :: scan (rest.dropWhile isBody)
termination_by cs => cs.length
decreasing_by
  have := (List.dropWhile_sublist isBody (l := rest)).length_le
  simp only [List.length_cons]
  omega

/-- The tokens of a text, chained, are the text. -/
theorem flatMap_text_scan (cs : List Char) : (scan cs).flatMap text = cs := by
  fun_induction scan cs with
  | case1 => rfl
  | case2 c rest ih =>
    rw [List.flatMap_cons, ih, text, List.cons_append, List.takeWhile_append_dropWhile]

/-- A chain of tokens is cut where it was joined, if no token but the first starts like a
body. -/
theorem scan_flatMap_text {ts : List Token} (hop : ∀ t ∈ ts, isBody t.opcode = false)
    (hbody : ∀ t ∈ ts, t.body.all isBody) : scan (ts.flatMap text) = ts := by
  induction ts with
  | nil => rw [List.flatMap_nil, scan]
  | cons t ts ih =>
    obtain ⟨ht, hts⟩ := List.forall_mem_cons.1 hbody
    have hrest := ih (fun u hu => hop u (List.mem_cons_of_mem t hu)) hts
    have hstop : (ts.flatMap text).takeWhile isBody = [] ∧
        (ts.flatMap text).dropWhile isBody = ts.flatMap text := by
      cases ts with
      | nil => exact ⟨rfl, rfl⟩
      | cons u us =>
        have hu : isBody u.opcode = false := hop u (by simp)
        simp [text, hu]
    rw [List.flatMap_cons, text, List.cons_append, scan,
      List.takeWhile_append_of_pos (by simpa using ht), hstop.1, List.append_nil,
      List.dropWhile_append_of_pos (by simpa using ht), hstop.2, hrest]

/-- The digits that a body starts with, as a number. Refused without a digit, and beyond the
signed range of 64 bits. -/
def units? (body : List Char) : Option Nat :=
  let digits := body.takeWhile Char.isDigit
  let n := Nat.ofDigitChars 10 digits 0
  if digits.isEmpty || Scalar.maxInt64 < n then none else some n

/-- The single digit behind a point at the end of a body, which has something before the
point. -/
def tenth (body : List Char) : Nat :=
  match body.reverse with
  | d :: '.' :: _ :: _ => if d.isDigit then d.toNat - '0'.toNat else 0
  | _ => 0

/-- The action of a value token with the given number: `make` of the tenths. The
number in units has to fit after it is turned into tenths, also for an opcode that
takes it as tenths. -/
def valueAction (make : Int → Action) (inTenths negative : Bool) (body : List Char) :
    Action :=
  match units? body with
  | none => .nothing
  | some n =>
    let full := n * 10 + tenth body
    if Scalar.maxInt64 < full then .nothing
    else
      let tenths : Int := if inTenths then n else full
      make (if negative then -tenths else tenths)

/-- What a token does to the series. -/
def action (t : Token) : Action :=
  match t.opcode with
  | 'P' => valueAction .value false false t.body
  | 'N' => valueAction .value false true t.body
  | 'Q' => valueAction .value true false t.body
  | 'O' => valueAction .value true true t.body
  | 'p' => valueAction .change false false t.body
  | 'n' => valueAction .change false true t.body
  | 'q' => valueAction .change true false t.body
  | 'o' => valueAction .change true true t.body
  | 'r' => match units? t.body with
    | some n => .again n
    | none => .nothing
  | 'e' => .gap
  | _ => .nothing

end Token

end LineCharts.Series
