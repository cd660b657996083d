/-
What a path remembers of its pen, and the lines that it leaves out.

* `Path.Call` is something that is asked of a path, `Path.run` a sequence of calls;
* `PathData.Pen.behind` — the pen that follows some commands from the origin;
* `Path.PenKept` — a path remembers this pen, and none of its lines leads to where the pen is;
* `Path.PenKept.answer` — so it does behind every call;
* `Path.needed` — some calls without the lines to where the pen is; `Path.run_needed` — they
  lead to the same path;
* `Path.penKept_run` — all of this, whatever is called.

Design notes.  What is remembered is the point that was appended, so both are the same
numbers, and not only equal.  A line to a point that is not equal to itself is never left out.
-/
import LineCharts.Geometry.PathData
import LineCharts.Scalar.Exact
import Mathlib.Data.List.Induction

namespace LineCharts

variable {α : Type} [Scalar α]

/-! ### Following commands -/

/-- Where a command begins a subpath, if it does. -/
def PathCommand.begins? : PathCommand α → Option (Point α)
  | .moveTo p => some p
  | .lineTo _ => none
  | .close => none

namespace PathData.Pen

/-- The pen behind some commands, followed from the origin. -/
def behind (commands : List (PathCommand α)) : Pen α := commands.foldl after origin

theorem behind_append_singleton (commands : List (PathCommand α)) (c : PathCommand α) :
    behind (commands ++ [c]) = (behind commands).after c := by
  simp [behind]

/-- A subpath starts at the last point that was moved to, or at the origin. -/
theorem start_behind (commands : List (PathCommand α)) :
    (behind commands).start =
      (commands.filterMap PathCommand.begins?).getLast?.getD ⟨0.0, 0.0⟩ := by
  induction commands using List.reverseRecOn with
  | nil => rfl
  | append_singleton commands c ih =>
    rw [behind_append_singleton, List.filterMap_append]
    cases c with
    | moveTo p => simp [after, PathCommand.begins?]
    | lineTo p => simpa [after, PathCommand.begins?] using ih
    | close => simpa [after, PathCommand.begins?] using ih

end PathData.Pen

namespace Path

open PathData (Pen)

/-! ### Calls -/

/-- What is asked of a path. -/
inductive Call (α : Type) where
  | moveTo (x y : α)
  | lineTo (x y : α)
  | close
deriving DecidableEq

/-- The path behind a call. -/
def answer (path : Path α) : Call α → Path α
  | .moveTo x y => path.moveTo x y
  | .lineTo x y => path.lineTo x y
  | .close => path.close

/-- The path behind a sequence of calls. -/
def run (path : Path α) (calls : List (Call α)) : Path α := calls.foldl answer path

/-- The pen is at a point, to the places of the path. -/
def isAtPen (path : Path α) (x y : α) : Bool :=
  (⟨path.round x, path.round y⟩ : Point α) == path.pen

theorem lineTo_of_isAtPen {path : Path α} {x y : α} (h : path.isAtPen x y = true) :
    path.lineTo x y = path :=
  lineTo_eq_self h

theorem commands_lineTo {path : Path α} {x y : α} (h : path.isAtPen x y = false) :
    (path.lineTo x y).commands =
      path.commands.push (.lineTo ⟨path.round x, path.round y⟩) := by
  rw [lineTo_eq_push h]

/-- A line is left out exactly if the pen is there. -/
theorem size_lineTo_eq_iff {path : Path α} {x y : α} :
    (path.lineTo x y).size = path.size ↔ path.isAtPen x y = true := by
  constructor
  · intro h
    by_contra hpen
    rw [size, commands_lineTo (Bool.not_eq_true _ ▸ hpen), Array.size_push] at h
    exact Nat.succ_ne_self _ h
  · intro h
    rw [lineTo_of_isAtPen h]

/-! ### The pen -/

/-- A path remembers the pen that follows its commands from the origin, and none of its lines
ends where the pen is already. -/
structure PenKept (path : Path α) : Prop where
  pen : path.pen = (Pen.behind path.commands.toList).position
  start : path.start = (Pen.behind path.commands.toList).start
  moves : ∀ before p after, path.commands.toList = before ++ .lineTo p :: after →
    (p == (Pen.behind before).position) = false

theorem penKept_withPrecision (digits : Int) : (withPrecision digits : Path α).PenKept where
  pen := rfl
  start := rfl
  moves before p after h := by simp [withPrecision] at h

/-- One more command is kept up with, if it takes the pen where the path says, and is no line
to where the pen is. -/
theorem PenKept.push {path next : Path α} (h : path.PenKept) {c : PathCommand α}
    (hcommands : next.commands = path.commands.push c)
    (hpen : (⟨next.start, next.pen⟩ : Pen α) = Pen.after ⟨path.start, path.pen⟩ c)
    (hmoves : ∀ p, c = .lineTo p → (p == path.pen) = false) : next.PenKept := by
  have hbehind : Pen.behind next.commands.toList = ⟨next.start, next.pen⟩ := by
    rw [hcommands, Array.toList_push, Pen.behind_append_singleton, hpen, h.pen, h.start]
  constructor
  case pen => rw [hbehind]
  case start => rw [hbehind]
  case moves =>
    intro before p after hsplit
    rw [hcommands, Array.toList_push] at hsplit
    -- the line is the new command, or one of those before it
    rcases List.eq_nil_or_concat after with rfl | ⟨rest, d, rfl⟩
    · obtain ⟨rfl, hc⟩ := List.append_inj' hsplit rfl
      rw [← h.pen]
      exact hmoves p (List.singleton_inj.mp hc)
    · have hfront : path.commands.toList = before ++ .lineTo p :: rest := by
        have hlast : before ++ .lineTo p :: (rest ++ [d]) =
          (before ++ .lineTo p :: rest) ++ [d] := by simp
        rw [List.concat_eq_append, hlast] at hsplit
        exact (List.append_inj' hsplit rfl).1
      exact h.moves before p rest hfront

/-- **Every call keeps up with the pen.** -/
theorem PenKept.answer {path : Path α} (h : path.PenKept) (call : Call α) :
    (path.answer call).PenKept := by
  cases call with
  | moveTo x y => exact h.push rfl rfl (by simp)
  | lineTo x y =>
    cases hpen : path.isAtPen x y with
    | true =>
      show (path.lineTo x y).PenKept
      rwa [lineTo_of_isAtPen hpen]
    | false =>
      refine h.push (commands_lineTo hpen) ?_ ?_
      · show (⟨(path.lineTo x y).start, (path.lineTo x y).pen⟩ : Pen α) = _
        rw [lineTo_eq_push hpen]
        rfl
      · intro p hp
        cases hp
        exact hpen
  | close => exact h.push rfl rfl (by simp)

theorem PenKept.run {path : Path α} (h : path.PenKept) (calls : List (Call α)) :
    (path.run calls).PenKept := by
  induction calls generalizing path with
  | nil => exact h
  | cons call calls ih => exact ih (h.answer call)

/-! ### Lines that are left out -/

/-- A call for a line to where the pen is. -/
def Call.isIdle (path : Path α) : Call α → Bool
  | .lineTo x y => path.isAtPen x y
  | .moveTo _ _ => false
  | .close => false

theorem answer_of_isIdle {path : Path α} {call : Call α} (h : call.isIdle path = true) :
    path.answer call = path := by
  cases call with
  | lineTo x y => exact lineTo_of_isAtPen h
  | moveTo x y => cases h
  | close => cases h

/-- Some calls without the lines to where the pen is at that time. -/
def needed (path : Path α) : List (Call α) → List (Call α)
  | [] => []
  | call :: calls =>
    if call.isIdle path then needed (path.answer call) calls
    else call :: needed (path.answer call) calls

/-- **Lines to where the pen is may be left out.** -/
theorem run_needed (path : Path α) (calls : List (Call α)) :
    path.run (path.needed calls) = path.run calls := by
  induction calls generalizing path with
  | nil => rfl
  | cons call calls ih =>
    rw [needed]
    split
    case isTrue hidle =>
      rw [answer_of_isIdle hidle]
      refine (ih path).trans ?_
      show path.run calls = (path.answer call).run calls
      rw [answer_of_isIdle hidle]
    case isFalse => exact ih (path.answer call)

/-! ### New paths -/

/-- **What a path remembers of its pen is what its commands say**, whatever is called, with
every precision: the pen and the start of the subpath are those that following the commands
from the origin gives, and the start is the last point that was moved to, or the origin.  No
line ends where the pen is.  A line is left out exactly if it leads there, and then the whole
path stays as it is; so calls that differ by such lines only lead to one path. -/
theorem penKept_run (digits : Int) (calls : List (Call α)) :
    let path := (withPrecision digits : Path α).run calls
    path.PenKept ∧
    path.start = (path.commands.toList.filterMap PathCommand.begins?).getLast?.getD
      ⟨0.0, 0.0⟩ ∧
    (∀ x y, (path.lineTo x y).size = path.size ↔ path.isAtPen x y = true) ∧
    (∀ x y, path.isAtPen x y = true → path.lineTo x y = path) ∧
    ∀ others, (withPrecision digits).needed others = (withPrecision digits).needed calls →
      (withPrecision digits).run others = path := by
  intro path
  have hkept : path.PenKept := (penKept_withPrecision digits).run calls
  refine ⟨hkept, ?_, fun x y => size_lineTo_eq_iff, fun x y hpen => lineTo_of_isAtPen hpen,
    fun others h => ?_⟩
  · rw [hkept.start, Pen.start_behind]
  · rw [← run_needed _ others, h, run_needed]

/-- A line before any move starts at the origin, closing leads back there, and a line
to there is left out. -/
theorem penKept_run_closed :
    let calls : List (Call Rat) := [.lineTo 4 0, .close, .lineTo 0 0.04]
    let path := (withPrecision 1).run calls
    (path.commands.toList == [.lineTo ⟨4, 0⟩, .close]) = true ∧ path.PenKept ∧
      path.isAtPen 0.01 0 = true ∧ path.lineTo 0.01 0 = path ∧
      (withPrecision 1).run [.lineTo 4 0, .lineTo 4.01 0, .close] = path := by
  intro calls path
  obtain ⟨hkept, -, -, hidle, hothers⟩ := penKept_run 1 calls
  have hpen : path.isAtPen 0.01 0 = true := by decide +kernel
  exact ⟨by decide +kernel, hkept, hpen, hidle _ _ hpen, hothers _ (by decide +kernel)⟩

end Path

end LineCharts
