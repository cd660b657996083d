/-
A reader of path data, after the grammar of SVG.

* `PathData.number?` — takes the longest number in front: a sign, digits with a
  point, a power of ten;
* `PathData.Letter` — the letters that lead coordinates, absolute and relative;
* `PathData.command?` — takes one command, whose letter may be left out if it
  is the last one again;
* `PathData.Cursor` — where the reader is, and where a subpath that is closed leads back to;
* `PathData.read?` — all commands of a text, with the points that the cursor comes to.

Design notes.  Blanks may stand between all parts, and one comma between two numbers.  The
cursor starts at the origin, and a line may come before the first move.  The reader shares
nothing with the writer but the commands: that the pen of the writer goes where the cursor
goes is proved with the round trip.
-/
import LineCharts.Geometry.PathData
import LineCharts.Scalar.Exact
import Mathlib.Data.List.TakeWhile
import Mathlib.Tactic

namespace LineCharts.PathData

/-! ### Numbers -/

/-- Whether there is a minus in front, and what follows a sign. -/
def sign : List Char → Bool × List Char
  | '-' :: cs => (true, cs)
  | '+' :: cs => (false, cs)
  | cs => (false, cs)

/-- A power of ten, if one follows: `e3`, `E-3`. -/
def exponent : List Char → Int × List Char
  | [] => (0, [])
  | e :: cs =>
    let digits := (sign cs).2.takeWhile Char.isDigit
    let power : Int := Nat.ofDigitChars 10 digits 0
    if (e = 'e' ∨ e = 'E') ∧ digits ≠ [] then
      (if (sign cs).1 then -power else power, (sign cs).2.dropWhile Char.isDigit)
    else (0, e :: cs)

/-- The digits behind a point, and what follows; nothing without a point. -/
def behindPoint : List Char → List Char × List Char
  | '.' :: cs => (cs.takeWhile Char.isDigit, cs.dropWhile Char.isDigit)
  | cs => ([], cs)

/-- The longest number without a sign in front, and what follows. -/
def unsigned? (cs : List Char) : Option (Rat × List Char) :=
  let whole := cs.takeWhile Char.isDigit
  let behind := behindPoint (cs.dropWhile Char.isDigit)
  if whole ++ behind.1 = [] then none
  else
    let power := exponent behind.2
    some ((Nat.ofDigitChars 10 (whole ++ behind.1) 0 : Nat) / 10 ^ behind.1.length *
      10 ^ power.1, power.2)

/-- The longest number in front, and what follows. -/
def number? (cs : List Char) : Option (Rat × List Char) :=
  (unsigned? (sign cs).2).map fun (x, rest) => (if (sign cs).1 then -x else x, rest)

theorem length_sign_le (cs : List Char) : (sign cs).2.length ≤ cs.length := by
  unfold sign
  split
  · exact Nat.le_succ _
  · exact Nat.le_succ _
  · exact le_rfl

theorem length_exponent_le (cs : List Char) : (exponent cs).2.length ≤ cs.length := by
  cases cs with
  | nil => exact le_rfl
  | cons e cs =>
    unfold exponent
    dsimp only
    split
    · exact ((List.length_dropWhile_le _ _).trans (length_sign_le cs)).trans (Nat.le_succ _)
    · exact le_rfl

theorem length_behindPoint (cs : List Char) :
    (behindPoint cs).1.length + (behindPoint cs).2.length ≤ cs.length := by
  unfold behindPoint
  split
  case h_1 ds =>
    have hspan :=
      congrArg List.length (List.takeWhile_append_dropWhile (p := Char.isDigit) (l := ds))
    rw [List.length_append] at hspan
    exact hspan.le.trans (Nat.le_succ _)
  case h_2 => exact (Nat.zero_add _).le

/-- A number is not empty. -/
theorem length_lt_of_unsigned? {cs rest : List Char} {x : Rat}
    (h : unsigned? cs = some (x, rest)) :
    rest.length < cs.length := by
  have hspan :=
    congrArg List.length (List.takeWhile_append_dropWhile (p := Char.isDigit) (l := cs))
  have hbehind := length_behindPoint (cs.dropWhile Char.isDigit)
  have hpower := length_exponent_le (behindPoint (cs.dropWhile Char.isDigit)).2
  unfold unsigned? at h
  dsimp only at h
  split at h
  case isTrue => cases h
  case isFalse hne =>
    have hpos := List.length_pos_iff.mpr hne
    cases h
    rw [List.length_append] at hspan hpos
    omega

theorem length_lt_of_number? {cs rest : List Char} {x : Rat}
    (h : number? cs = some (x, rest)) :
    rest.length < cs.length := by
  obtain ⟨⟨y, rest'⟩, hy, heq⟩ := Option.map_eq_some_iff.mp h
  cases heq
  exact (length_lt_of_unsigned? hy).trans_le (length_sign_le cs)

/-! ### Separators -/

/-- A blank, a tab or an end of a line. -/
def isBlank (c : Char) : Bool := c = ' ' || c = '\t' || c = '\n' || c = '\r'

/-- The text behind blanks. -/
def skipBlanks (cs : List Char) : List Char := cs.dropWhile isBlank

/-- The text behind blanks and at most one comma. -/
def skipComma (cs : List Char) : List Char :=
  match skipBlanks cs with
  | ',' :: rest => skipBlanks rest
  | rest => rest

theorem length_skipBlanks_le (cs : List Char) : (skipBlanks cs).length ≤ cs.length :=
  List.length_dropWhile_le isBlank cs

theorem length_skipComma_le (cs : List Char) : (skipComma cs).length ≤ cs.length := by
  have hblanks := length_skipBlanks_le cs
  unfold skipComma
  split
  case h_1 rest heq =>
    rw [heq, List.length_cons] at hblanks
    exact (length_skipBlanks_le rest).trans (Nat.le_of_succ_le hblanks)
  case h_2 => exact hblanks

/-! ### Commands -/

/-- What a letter does with its coordinates. -/
inductive Verb where
  | move
  | line
  /-- A line along the x axis, with one coordinate. -/
  | across
  /-- A line along the y axis, with one coordinate. -/
  | upright

/-- A letter that leads coordinates. -/
structure Letter where
  verb : Verb
  relative : Bool

namespace Letter

def ofChar? : Char → Option Letter
  | 'M' => some ⟨.move, false⟩
  | 'm' => some ⟨.move, true⟩
  | 'L' => some ⟨.line, false⟩
  | 'l' => some ⟨.line, true⟩
  | 'H' => some ⟨.across, false⟩
  | 'h' => some ⟨.across, true⟩
  | 'V' => some ⟨.upright, false⟩
  | 'v' => some ⟨.upright, true⟩
  | _ => none

/-- The command that takes the pen to a point. -/
def command (letter : Letter) (p : Point Rat) : PathCommand Rat :=
  match letter.verb with
  | .move => .moveTo p
  | _ => .lineTo p

/-- What coordinates without a letter mean behind this one: behind a move they are lines. -/
def again (letter : Letter) : Letter :=
  match letter.verb with
  | .move => ⟨.line, letter.relative⟩
  | _ => letter

/-- The point that coordinates lead to; without one the pen keeps its own. -/
def target (letter : Letter) (pen : Point Rat) (x y : Option Rat) : Point Rat where
  x := x.elim pen.x fun x => if letter.relative then pen.x + x else x
  y := y.elim pen.y fun y => if letter.relative then pen.y + y else y

/-- The point that the coordinates in front lead to, and what follows. -/
def point? (letter : Letter) (pen : Point Rat) (cs : List Char) :
    Option (Point Rat × List Char) :=
  match letter.verb with
  | .across => (number? cs).map fun (x, rest) => (letter.target pen (some x) none, rest)
  | .upright => (number? cs).map fun (y, rest) => (letter.target pen none (some y), rest)
  | .move | .line => (number? cs).bind fun (x, rest) =>
    (number? (skipComma rest)).map fun (y, rest') =>
      (letter.target pen (some x) (some y), rest')

section

variable {letter : Letter} (pen : Point Rat) {x y : Rat} {cs middle rest : List Char}

theorem point?_both (hverb : letter.verb = .move ∨ letter.verb = .line)
    (hx : number? cs = some (x, middle)) (hy : number? (skipComma middle) = some (y, rest)) :
    letter.point? pen cs = some (letter.target pen (some x) (some y), rest) := by
  have hboth : letter.point? pen cs = (number? cs).bind fun (x, rest) =>
      (number? (skipComma rest)).map fun (y, rest') =>
        (letter.target pen (some x) (some y), rest') := by
    unfold point?
    rcases hverb with hverb | hverb <;> rw [hverb]
  rw [hboth, hx, Option.bind_some]
  dsimp only
  rw [hy]
  rfl

theorem point?_across (hverb : letter.verb = .across) (hx : number? cs = some (x, rest)) :
    letter.point? pen cs = some (letter.target pen (some x) none, rest) := by
  rw [point?, hverb]
  dsimp only
  rw [hx]
  rfl

theorem point?_upright (hverb : letter.verb = .upright) (hy : number? cs = some (y, rest)) :
    letter.point? pen cs = some (letter.target pen none (some y), rest) := by
  rw [point?, hverb]
  dsimp only
  rw [hy]
  rfl

end

theorem length_lt_of_point? {letter : Letter} {pen p : Point Rat} {cs rest : List Char}
    (h : letter.point? pen cs = some (p, rest)) : rest.length < cs.length := by
  have hboth (h : ((number? cs).bind fun (x, rest) =>
    (number? (skipComma rest)).map fun (y, rest') =>
      (letter.target pen (some x) (some y), rest')) = some (p, rest)) :
        rest.length < cs.length := by
    obtain ⟨⟨x, middle⟩, hx, h⟩ := Option.bind_eq_some_iff.mp h
    obtain ⟨⟨y, rest'⟩, hy, heq⟩ := Option.map_eq_some_iff.mp h
    cases heq
    have hcomma := length_skipComma_le middle
    have hfirst := length_lt_of_number? hx
    have hsecond := length_lt_of_number? hy
    omega
  rcases letter with ⟨_ | _ | _ | _, relative⟩
  case move => exact hboth h
  case line => exact hboth h
  case across =>
    obtain ⟨⟨x, rest'⟩, hx, heq⟩ := Option.map_eq_some_iff.mp h
    cases heq
    exact length_lt_of_number? hx
  case upright =>
    obtain ⟨⟨y, rest'⟩, hy, heq⟩ := Option.map_eq_some_iff.mp h
    cases heq
    exact length_lt_of_number? hy

end Letter

/-- The letter of the command in front, and the text of its coordinates.  Without a letter it
is the one that `again` says, if any. -/
def letter? (again : Option Letter) (cs : List Char) : Option (Letter × List Char) :=
  match cs with
  | [] => none
  | c :: rest => match Letter.ofChar? c with
    | some letter => some (letter, skipBlanks rest)
    | none => again.map fun letter => (letter, skipComma cs)

/-- The command in front, what coordinates without a letter mean behind
it, and what follows. -/
def command? (again : Option Letter) (pen : Point Rat) (cs : List Char) :
    Option (PathCommand Rat × Option Letter × List Char) :=
  match cs with
  | 'z' :: rest => some (.close, none, rest)
  | 'Z' :: rest => some (.close, none, rest)
  | cs => (letter? again cs).bind fun (letter, args) =>
    (letter.point? pen args).map fun (p, rest) => (letter.command p, some letter.again, rest)

theorem length_le_of_letter? {again : Option Letter} {letter : Letter} {cs args : List Char}
    (h : letter? again cs = some (letter, args)) : args.length ≤ cs.length := by
  cases cs with
  | nil => cases h
  | cons c rest =>
    rw [letter?] at h
    split at h
    · cases h
      exact (length_skipBlanks_le rest).trans (Nat.le_succ _)
    · obtain ⟨l, _, heq⟩ := Option.map_eq_some_iff.mp h
      cases heq
      exact length_skipComma_le _

theorem length_lt_of_command? {again again' : Option Letter} {pen : Point Rat}
    {cs rest : List Char} {c : PathCommand Rat}
    (h : command? again pen cs = some (c, again', rest)) :
    rest.length < cs.length := by
  unfold command? at h
  split at h
  · cases h
    exact Nat.lt_succ_self _
  · cases h
    exact Nat.lt_succ_self _
  · obtain ⟨⟨letter, args⟩, hletter, h⟩ := Option.bind_eq_some_iff.mp h
    obtain ⟨⟨p, rest'⟩, hpoint, heq⟩ := Option.map_eq_some_iff.mp h
    cases heq
    exact (Letter.length_lt_of_point? hpoint).trans_le (length_le_of_letter? hletter)

/-! ### Chains of commands -/

/-- The current point of a reader, and the initial point of its subpath. -/
structure Cursor where
  current : Point Rat
  initial : Point Rat

namespace Cursor

/-- Before the first command both are the origin. -/
def origin : Cursor where
  current := ⟨0, 0⟩
  initial := ⟨0, 0⟩

/-- A move begins a subpath, a line goes on with it, and closing leads back
to its initial point. -/
def next (cursor : Cursor) : PathCommand Rat → Cursor
  | .moveTo p => { current := p, initial := p }
  | .lineTo p => { cursor with current := p }
  | .close => { cursor with current := cursor.initial }

end Cursor

/-- The commands of a text, for a reader in some place. -/
def commands? (again : Option Letter) (cursor : Cursor) (cs : List Char) :
    Option (List (PathCommand Rat)) :=
  if skipBlanks cs = [] then some []
  else
    match _h : command? again cursor.current (skipBlanks cs) with
    | none => none
    | some (c, again', rest) => (commands? again' (cursor.next c) rest).map (c :: ·)
termination_by cs.length
decreasing_by exact (length_lt_of_command? _h).trans_le (length_skipBlanks_le cs)

/-- **The commands of path data.** -/
def read? (data : String) : Option (List (PathCommand Rat)) :=
  commands? none .origin data.toList

example : read? "M1,2 3 4h.5.25z" =
    some [.moveTo ⟨1, 2⟩, .lineTo ⟨3, 4⟩, .lineTo ⟨3.5, 4⟩, .lineTo ⟨3.75, 4⟩, .close] := by
  cbv

end LineCharts.PathData
