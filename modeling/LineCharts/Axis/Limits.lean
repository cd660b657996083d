/-
Which range of values an axis shows.

* `AxisRange` is a range; its bottom may be above its top.
* `LimitRule.resolve` gives the fixed range of a rule, or one that follows the data.
* `dataLimits` is the range that follows the data, `bitsTop` the upper end for bit loading.

Design notes. A sample counts if it lies in the window of the rule. The range gets a
margin of a tenth on both sides. What is missing to the least span is then given to
both sides, in proportion to the room that each has left in the window; at last the
range is cut to the window.
-/
import LineCharts.Scalar

namespace LineCharts

/-- The values from `bottom` to `top`. -/
structure AxisRange (α : Type) where
  bottom : α
  top : α
deriving BEq

/-- From bottom to top, negative on a reversed axis. -/
def AxisRange.span {α : Type} [Scalar α] (r : AxisRange α) : α := r.top - r.bottom

/-- How the range of an axis is found. -/
structure LimitRule (α : Type) where
  /-- The range where the data does not decide. -/
  fixed : AxisRange α
  validMin : α
  validMax : α
  /-- The least span of a range that follows the data. -/
  minRange : α
  /-- A sample of exactly zero was not measured. -/
  ignoreZero : Bool
deriving BEq

variable {α : Type} [Scalar α]

/-- The samples that are there. -/
def present (series : List (List (Option α))) : List α := series.flatMap (List.filterMap id)

/-- The sample counts for the range. -/
def countsFor (validMin validMax : α) (ignoreZero : Bool) (v : α) : Bool :=
  Scalar.within validMin validMax v && !(ignoreZero && v == 0.0)

/-- The least and the greatest of some numbers. -/
def bounds : List α → Option (α × α)
  | [] => none
  | v :: vs => some (vs.foldl (fun (low, high) v => (min low v, max high v)) (v, v))

/-- The range around data from `low` to `high`, in a window from `validMin` to `validMax`. -/
def limitsAround (validMin validMax minRange low high : α) : AxisRange α :=
  let spread := high - low
  let margin := max spread minRange * 0.1
  let bottom := low - margin
  let top := high + margin
  let missing := minRange - spread
  let widened : AxisRange α :=
    if 0.0 < missing then
      let below := bottom - validMin
      let above := validMax - top
      let room := below + above
      if 0.0 < room then ⟨bottom - missing * (below / room), top + missing * (above / room)⟩
      else ⟨bottom - missing / 2.0, top + missing / 2.0⟩
    else ⟨bottom, top⟩
  ⟨max widened.bottom validMin, min widened.top validMax⟩

/-- The range that follows the data, if a sample counts. -/
def dataLimits (validMin validMax minRange : α) (ignoreZero : Bool)
    (series : List (List (Option α))) : Option (AxisRange α) :=
  (bounds ((present series).filter (countsFor validMin validMax ignoreZero))).map
    fun (low, high) => limitsAround validMin validMax minRange low high

/-- The range that a rule gives. -/
def LimitRule.resolve (rule : LimitRule α) (dynamic : Bool)
    (series : List (List (Option α))) :
    AxisRange α :=
  if dynamic then
    (dataLimits rule.validMin rule.validMax rule.minRange rule.ignoreZero series).getD
      rule.fixed
  else rule.fixed

/-! ### Bit loading -/

/-- The upper end for bit loading, if a sample is positive. -/
def bitsTop (minRange : α) (series : List (List (Option α))) : Option α :=
  (bounds ((present series).filter fun v => 0.0 < v)).map fun (_, high) =>
    max high minRange + 0.75

/-- The range for bit loading: from zero to the fixed upper end, or to a lower one
that follows the data. -/
def bitsRange (fixedTop minRange : α) (dynamic : Bool) (series : List (List (Option α))) :
    AxisRange α :=
  let top :=
    if dynamic then ((bitsTop minRange series).filter fun top => top < fixedTop).getD fixedTop
    else fixedTop
  ⟨0.0, top⟩

end LineCharts
