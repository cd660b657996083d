/-
Shades of bands are closed polygons, one for each band, in their order.

* `BandShades.Shade` is the shade of one band, `BandShades.shades` those of a list of bands,
  whose edges depend on their neighbours (`BandShades.Touching`);
* `BandShades.fills_follow` — a polygon that is opened with one band is closed with the next
  one, in the path of its direction, so the shades are drawn one after the other;
* `BandShades.subpathCount_follow` — two neighbours have one line between them
  if they touch, else two;
* `Path.KeepsOrder` — what the order of edges needs of the numbers; `Path.keepsOrder_exact`,
  `Path.keepsOrder_double` — exact numbers and doubles have it;
* `BandShades.arranged_build` — so all bands are shaded, and no edge is behind the next one.

Design notes.  The bands may be in any order and may overlap.  Edges that are apart by
more than the width of a line are in their order because that width is not negative;
all others are one edge.
-/
import LineCharts.BandShades
import LineCharts.Proofs.Double.Ascending
import LineCharts.Proofs.Layout.Valid

namespace LineCharts

variable {α : Type} [Scalar α]

/-! ### Both directions -/

namespace PerDirection

variable {σ : Type}

/-- The thing of one direction. -/
def of (p : PerDirection σ) : Direction → σ
  | .down => p.down
  | .up => p.up

theorem modify_modify (p : PerDirection σ) (direction : Direction) (f g : σ → σ) :
    (p.modify direction f).modify direction g = p.modify direction fun x => g (f x) := by
  cases direction <;> rfl

theorem of_modify (p : PerDirection σ) (direction other : Direction) (f : σ → σ) :
    (p.modify direction f).of other = if direction = other then f (p.of other)
      else p.of other := by
  cases direction <;> cases other <;> rfl

end PerDirection

/-! ### Lines of a path -/

namespace Path

/-- A point as a path of this unit has it. -/
def place (unit : α) (p : Point α) : Point α := ⟨roundTo unit p.x, roundTo unit p.y⟩

/-- The points that lines go to from the pen on, without those where the pen is. -/
def stops (unit : α) (pen : Point α) : List (Point α) → List (Point α)
  | [] => []
  | p :: ps =>
    if place unit p == pen then stops unit pen ps
    else place unit p :: stops unit (place unit p) ps

/-- Lines to some points. -/
def linesThrough (path : Path α) (ps : List (Point α)) : Path α :=
  ps.foldl (fun path p => path.lineTo p.x p.y) path

theorem linesThrough_spec (path : Path α) (ps : List (Point α)) :
    (path.linesThrough ps).unit = path.unit ∧ (path.linesThrough ps).commands.toList =
      path.commands.toList ++ (stops path.unit path.pen ps).map .lineTo := by
  induction ps generalizing path with
  | nil => exact ⟨rfl, (List.append_nil _).symm⟩
  | cons p ps ih =>
    have hstep := ih (path.lineTo p.x p.y)
    rw [stops]
    cases hpen : place path.unit p == path.pen with
    | true =>
      rw [lineTo_eq_self hpen] at hstep
      rw [linesThrough, List.foldl_cons, lineTo_eq_self hpen]
      exact hstep
    | false =>
      rw [lineTo_eq_push hpen] at hstep
      rw [linesThrough, List.foldl_cons, lineTo_eq_push hpen]
      refine ⟨hstep.1, hstep.2.trans ?_⟩
      rw [Array.toList_push, List.append_assoc]
      rfl

/-- Differences to greater numbers are not positive, and places in a path of this
unit keep their order. -/
structure KeepsOrder (unit : α) : Prop where
  irrefl : ∀ x : α, ¬ x < x
  sub_le : ∀ {x y z : α}, x < y → 0.0 ≤ z → x - y ≤ z
  of_roundTo : ∀ {x y : α}, roundTo unit x < roundTo unit y → x < y

theorem keepsOrder_exact (unit : Rat) : KeepsOrder unit where
  irrefl := lt_irrefl
  sub_le {x y z} hlt hz := by
    rw [Exact.zero_lit] at hz
    linarith
  of_roundTo {x y} hlt := lt_of_not_ge fun hle => absurd (roundTo_mono _ hle) (not_le.2 hlt)

theorem keepsOrder_double {digits : Nat} (hunit : 10 ^ digits ≤ 2 ^ 53) :
    KeepsOrder (Scalar.tenPow digits : Float) where
  irrefl := Double.lt_irrefl
  sub_le := Double.sub_le_of_lt
  of_roundTo := lt_of_roundTo_lt hunit

end Path

namespace BandShades

variable (layout : Layout α) (scale : α)

/-- The unit of the paths of shades. -/
def unit : α := (Path.empty : Path α).unit

/-! ### The edges of neighbours -/

/-- The shade of one band, from its left to its right edge. -/
structure Shade (α : Type) where
  band : Band
  left : α
  right : α

/-- Two neighbours come as close as one line width. -/
def Touching (before after : Band) : Prop :=
  edgeStart layout scale after.start - edgeEnd layout scale before.stop ≤
    layout.metrics.stroke

instance (before after : Band) : Decidable (Touching layout scale before after) :=
  inferInstanceAs (Decidable (_ ≤ _))

/-- The right edge of a band that is not the last one. -/
def rightEdge (before after : Band) : α :=
  if Touching layout scale before after then edgeBetween layout scale before.stop after.start
  else edgeEnd layout scale before.stop

/-- The left edge of a band that is not the first one. -/
def leftEdge (before after : Band) : α :=
  if Touching layout scale before after then edgeBetween layout scale before.stop after.start
  else edgeStart layout scale after.start

/-- The shades of a band, whose left edge is known, and of the bands behind it. -/
def shadesFrom (left : α) (band : Band) : List Band → List (Shade α)
  | [] => [⟨band, left, edgeEnd layout scale band.stop⟩]
  | after :: rest => ⟨band, left, rightEdge layout scale band after⟩ ::
      shadesFrom (leftEdge layout scale band after) after rest

/-- The shades of some bands of a line with `binCount` carriers. -/
def shades (bands : List Band) (binCount : Nat) : List (Shade α) :=
  match bands with
  | [] => []
  | first :: rest =>
    let scale := layout.scaleX binCount
    shadesFrom layout scale (edgeStart layout scale first.start) first rest

/-- How many lines stand between two neighbours. -/
def linesBetween (before after : Band) : Nat :=
  if Touching layout scale before after then 1 else 2

theorem map_band_shadesFrom (left : α) (band : Band) (rest : List Band) :
    (shadesFrom layout scale left band rest).map Shade.band = band :: rest := by
  induction rest generalizing left band with
  | nil => rfl
  | cons after rest ih => rw [shadesFrom, List.map_cons, ih]

/-! ### One polygon -/

/-- Opens a polygon and goes up at its left edge. -/
def opened (plot : Rect α) (x : α) (path : Path α) : Path α :=
  (path.moveTo x plot.bottom).lineTo x plot.y

/-- Goes down at the right edge of a polygon and closes it. -/
def closed (plot : Rect α) (x : α) (path : Path α) : Path α :=
  ((path.lineTo x plot.y).lineTo x plot.bottom).close

namespace Shade

variable (shade : Shade α) (plot : Rect α)

/-- Draws a shade: up at the left edge, down at the right edge. -/
def draw (path : Path α) : Path α := closed plot shade.right (opened plot shade.left path)

/-- The commands for a shade. -/
def outline (unit : α) : List (PathCommand α) :=
  let start := Path.place unit ⟨shade.left, plot.bottom⟩
  .moveTo start :: (Path.stops unit start [⟨shade.left, plot.y⟩, ⟨shade.right, plot.y⟩,
    ⟨shade.right, plot.bottom⟩]).map .lineTo ++ [.close]

theorem draw_spec (path : Path α) : (shade.draw plot path).unit = path.unit ∧
    (shade.draw plot path).commands.toList =
      path.commands.toList ++ shade.outline plot path.unit := by
  -- the corners behind the first one
  let corners : List (Point α) := [⟨shade.left, plot.y⟩, ⟨shade.right, plot.y⟩,
    ⟨shade.right, plot.bottom⟩]
  obtain ⟨hunit, hcommands⟩ := (path.moveTo shade.left plot.bottom).linesThrough_spec corners
  have hdraw : shade.draw plot path =
      ((path.moveTo shade.left plot.bottom).linesThrough corners).close := rfl
  have hmove : (path.moveTo shade.left plot.bottom).commands.toList =
      path.commands.toList ++ [.moveTo (Path.place path.unit ⟨shade.left, plot.bottom⟩)] :=
    Array.toList_push
  rw [hdraw]
  refine ⟨hunit, ?_⟩
  rw [Path.close, Array.toList_push, hcommands, hmove, List.append_assoc, List.append_assoc]
  rfl

end Shade

/-- Draws a shade in the path of its direction. -/
def drawShade (plot : Rect α) (fills : PerDirection (Path α)) (shade : Shade α) :
    PerDirection (Path α) :=
  fills.modify shade.band.direction (shade.draw plot)

theorem fills_next (shades : BandShades α) (before after : Band) :
    (next layout scale shades before after).fills =
      (shades.fills.modify before.direction
        (closed layout.plot (rightEdge layout scale before after))).modify after.direction
          (opened layout.plot (leftEdge layout scale before after)) := by
  rw [rightEdge, leftEdge]
  split
  case isTrue htouch =>
    have hnext : next layout scale shades before after = _ := if_pos htouch
    rw [hnext]
    rfl
  case isFalse hapart =>
    have hnext : next layout scale shades before after = _ := if_neg hapart
    rw [hnext]
    rfl

/-- **Opening a polygon with one band and closing it with the next one draws the shades one
after the other**, whichever paths they are in. -/
theorem fills_follow (fills : PerDirection (Path α)) (left : α) (band : Band)
    (rest : List Band) {shades : BandShades α}
    (hopen : shades.fills = fills.modify band.direction (opened layout.plot left)) :
    (follow layout scale shades band rest).fills =
      (shadesFrom layout scale left band rest).foldl (drawShade layout.plot) fills := by
  -- in front of each band its polygon is open, and all before it are drawn
  induction rest generalizing shades fills left band with
  | nil =>
    have hlast : (follow layout scale shades band []).fills =
        shades.fills.modify band.direction
        (closed layout.plot (edgeEnd layout scale band.stop)) := rfl
    rw [hlast, hopen, PerDirection.modify_modify]
    rfl
  | cons after rest ih =>
    rw [follow, shadesFrom, List.foldl_cons]
    refine ih _ _ _ ?_
    rw [fills_next, hopen, PerDirection.modify_modify]
    rfl

/-- The path of a direction has the shades of its bands. -/
theorem of_foldl_drawShade (plot : Rect α) (direction : Direction) (shades : List (Shade α))
    (fills : PerDirection (Path α)) :
    ((shades.foldl (drawShade plot) fills).of direction).unit = (fills.of direction).unit ∧
    ((shades.foldl (drawShade plot) fills).of direction).commands.toList =
      (fills.of direction).commands.toList ++
        (shades.filter (·.band.direction = direction)).flatMap
          (·.outline plot (fills.of direction).unit) := by
  induction shades generalizing fills with
  | nil => exact ⟨rfl, (List.append_nil _).symm⟩
  | cons shade shades ih =>
    obtain ⟨hunit, hcommands⟩ := ih (drawShade plot fills shade)
    rw [List.foldl_cons, hunit, hcommands, drawShade, PerDirection.of_modify]
    by_cases hdirection : shade.band.direction = direction
    · obtain ⟨hunit', hcommands'⟩ := shade.draw_spec plot (fills.of direction)
      rw [if_pos hdirection, hunit', hcommands',
        List.filter_cons_of_pos (by simpa using hdirection), List.flatMap_cons,
        List.append_assoc]
      exact ⟨rfl, rfl⟩
    · rw [if_neg hdirection, List.filter_cons_of_neg (by simpa using hdirection)]
      exact ⟨rfl, rfl⟩

/-! ### Lines between bands -/

theorem subpathCount_moveTo (path : Path α) (x y : α) :
    (path.moveTo x y).subpathCount = path.subpathCount + 1 := by
  rw [Path.moveTo, Path.subpathCount, Array.filter_push, if_pos rfl, Array.size_push]
  rfl

theorem subpathCount_lineTo (path : Path α) (x y : α) :
    (path.lineTo x y).subpathCount = path.subpathCount := by
  rw [Path.lineTo]
  split
  · rfl
  · rw [Path.subpathCount, Array.filter_push, if_neg Bool.false_ne_true]
    rfl

theorem subpathCount_separate (shades : BandShades α) (plot : Rect α) (half x : α) :
    (shades.separate plot half x).separators.subpathCount =
      shades.separators.subpathCount + 1 := by
  rw [separate, subpathCount_lineTo, subpathCount_moveTo]

theorem subpathCount_next (shades : BandShades α) (before after : Band) :
    (next layout scale shades before after).separators.subpathCount =
      shades.separators.subpathCount + linesBetween layout scale before after := by
  rw [linesBetween]
  split
  case isTrue htouch =>
    have hnext : next layout scale shades before after = _ := if_pos htouch
    rw [hnext]
    exact subpathCount_separate _ _ _ _
  case isFalse hapart =>
    have hnext : next layout scale shades before after = _ := if_neg hapart
    have htwice (plot : Rect α) (half x y : α) :
        ((shades.separate plot half x).separate plot half y).separators.subpathCount =
          shades.separators.subpathCount + 2 := by
      rw [subpathCount_separate, subpathCount_separate]
    rw [hnext]
    exact htwice _ _ _ _

theorem subpathCount_follow (shades : BandShades α) (band : Band) (rest : List Band) :
    (follow layout scale shades band rest).separators.subpathCount =
      shades.separators.subpathCount + 1 +
        (List.zipWith (linesBetween layout scale) (band :: rest) rest).sum := by
  induction rest generalizing shades band with
  | nil => exact subpathCount_separate _ _ _ _
  | cons after rest ih =>
    rw [follow, ih, subpathCount_next, List.zipWith_cons_cons, List.sum_cons]
    omega

/-! ### The order of the edges -/

/-- Edges that are apart are in their order, and touching ones are one. -/
theorem not_leftEdge_lt {unit : α} (hunit : Path.KeepsOrder unit)
    (hstroke : 0.0 ≤ layout.metrics.stroke) (before after : Band) :
    ¬ Path.roundTo unit (leftEdge layout scale before after) <
      Path.roundTo unit (rightEdge layout scale before after) := by
  intro hlt
  have hedges := hunit.of_roundTo hlt
  rw [leftEdge, rightEdge] at hedges
  split at hedges
  case isTrue => exact hunit.irrefl _ hedges
  case isFalse hapart => exact hapart (hunit.sub_le hedges hstroke)

theorem isChain_shadesFrom {unit : α} (hunit : Path.KeepsOrder unit)
    (hstroke : 0.0 ≤ layout.metrics.stroke) (left : α) (band : Band) (rest : List Band) :
    (shadesFrom layout scale left band rest).IsChain fun before after =>
      ¬ Path.roundTo unit after.left < Path.roundTo unit before.right := by
  induction rest generalizing left band with
  | nil => exact .singleton _
  | cons after rest ih =>
    have hnext := ih (leftEdge layout scale band after) after
    have hedges := not_leftEdge_lt layout scale hunit hstroke band after
    rw [shadesFrom]
    cases rest with
    | nil => exact .cons_cons hedges hnext
    | cons => exact .cons_cons hedges hnext

/-! ### All bands -/

/-- The shades of some bands and the lines between them: the path of each direction has
one closed polygon for each band of that direction, in the order of the bands.  There is a
line at each end, and between two neighbours one if they touch, else two.  No edge is
behind the next one. -/
structure Arranged (bands : List Band) (binCount : Nat) (layout : Layout α) : Prop where
  map_band : (shades layout bands binCount).map Shade.band = bands
  commands : ∀ direction, ((build bands binCount layout).fills.of direction).commands.toList =
    ((shades layout bands binCount).filter (·.band.direction = direction)).flatMap
      (·.outline layout.plot unit)
  subpathCount : ∀ direction,
    ((build bands binCount layout).fills.of direction).subpathCount =
    bands.countP (·.direction = direction)
  separators : (build bands binCount layout).separators.subpathCount =
    2 + (bands.zipWith (linesBetween layout (layout.scaleX binCount)) bands.tail).sum
  order : 0.0 ≤ layout.metrics.stroke →
    (shades layout bands binCount).IsChain fun before after =>
    ¬ Path.roundTo unit after.left < Path.roundTo unit before.right

/-- A command starts a subpath. -/
def isStart : PathCommand α → Bool
  | .moveTo _ => true
  | _ => false

omit [Scalar α] in
theorem subpathCount_eq_countP (path : Path α) :
    path.subpathCount = path.commands.toList.countP isStart := by
  rw [Path.subpathCount, ← Array.countP_eq_size_filter, ← Array.countP_toList]
  refine List.countP_congr fun command _ => ?_
  cases command <;> rfl

/-- A polygon is one subpath. -/
theorem countP_outline (shade : Shade α) (plot : Rect α) (unit : α) :
    (shade.outline plot unit).countP isStart = 1 := by
  have hlines (ps : List (Point α)) : (ps.map PathCommand.lineTo).countP isStart = 0 := by
    rw [List.countP_map]
    exact List.countP_eq_zero.mpr fun _ _ => Bool.false_ne_true
  have hclose : ([.close] : List (PathCommand α)).countP isStart = 0 := rfl
  rw [Shade.outline, List.cons_append, List.countP_cons, List.countP_append, hlines, hclose]
  rfl

theorem countP_flatMap_outline (shades : List (Shade α)) (plot : Rect α) (unit : α) :
    (shades.flatMap (·.outline plot unit)).countP isStart = shades.length := by
  have hone : List.countP isStart ∘ (fun shade : Shade α => shade.outline plot unit) =
      fun _ => 1 :=
    funext fun shade => countP_outline shade plot unit
  rw [List.countP_flatMap, hone, List.map_const', List.sum_replicate_nat, Nat.mul_one]

/-- The state in front of the second band. -/
def begun (first : Band) : BandShades α :=
  (empty.openAt layout.plot first.direction (edgeStart layout scale first.start)).separate
    layout.plot layout.metrics.half (edgeStart layout scale first.start + layout.metrics.half)

theorem arranged_of_keepsOrder (hunit : Path.KeepsOrder (unit : α)) {bands : List Band}
    (hbands : bands ≠ []) (binCount : Nat) : Arranged bands binCount layout := by
  obtain ⟨first, rest, rfl⟩ := List.exists_cons_of_ne_nil hbands
  let scale := layout.scaleX binCount
  let left := edgeStart layout scale first.start
  have hbuild : build (first :: rest) binCount layout =
      follow layout scale (begun layout scale first) first rest := rfl
  have hmap : (shades layout (first :: rest) binCount).map Shade.band = first :: rest :=
    map_band_shadesFrom layout scale left first rest
  have hfills : (build (first :: rest) binCount layout).fills =
      (shades layout (first :: rest) binCount).foldl (drawShade layout.plot) (.both .empty) :=
    fills_follow layout scale (.both .empty) left first rest rfl
  have hcommands (direction : Direction) :
      ((build (first :: rest) binCount layout).fills.of direction).commands.toList =
        ((shades layout (first :: rest) binCount).filter
          (·.band.direction = direction)).flatMap (·.outline layout.plot unit) := by
    have hempty : (PerDirection.both (Path.empty : Path α)).of direction = Path.empty := by
      cases direction <;> rfl
    rw [hfills, (of_foldl_drawShade layout.plot direction _ _).2, hempty]
    exact List.nil_append _
  refine ⟨hmap, hcommands, fun direction => ?_, ?_, fun hstroke => ?_⟩
  · rw [subpathCount_eq_countP, hcommands, countP_flatMap_outline,
      ← List.countP_eq_length_filter]
    conv_rhs => rw [← hmap, List.countP_map]
    rfl
  · have hbegun : (begun layout scale first).separators.subpathCount = 1 :=
      subpathCount_separate _ _ _ _
    rw [hbuild, subpathCount_follow, hbegun]
    rfl
  · exact isChain_shadesFrom layout scale hunit hstroke left first rest

/-! ### Layouts -/

theorem stroke_compute_exact (params : Params Rat) (xAxis yAxis : AxisPlan Rat)
    (legend : Option (Legend Rat)) (measure : TextMeasure Rat) :
    0.0 ≤ (Layout.compute params xAxis yAxis legend measure).metrics.stroke := by
  show (0.0 : Rat) ≤ (Layout.Metrics.of params.normalize).stroke
  rw [Layout.Metrics.stroke_of, Exact.zero_lit]
  exact (Layout.stroke_pos _).le

theorem stroke_compute_double (params : Params Float) (xAxis yAxis : AxisPlan Float)
    (legend : Option (Legend Float)) (measure : TextMeasure Float) :
    0.0 ≤ (Layout.compute params xAxis yAxis legend measure).metrics.stroke := by
  show (0.0 : Float) ≤ (Layout.Metrics.of params.normalize).stroke
  rw [Layout.Metrics.stroke_of]
  split
  case isTrue hscale =>
    have hplus := Double.plus_of_lt Double.plus_one hscale
    exact Double.zero_le (Double.ascending_round.plus hplus)
  case isFalse => decide

/-- **Bands are shaded one by one**, in doubles and in exact numbers: there is one closed
polygon for each band, whatever the bands, and no edge is behind the next one on the layouts
that parameters lead to. -/
theorem arranged_build {bands : List Band} (hbands : bands ≠ []) (binCount : Nat) :
    ((∀ layout : Layout Float, Arranged bands binCount layout) ∧
      ∀ params xAxis yAxis legend measure,
        (0.0 : Float) ≤ (Layout.compute params xAxis yAxis legend measure).metrics.stroke) ∧
    (∀ layout : Layout Rat, Arranged bands binCount layout) ∧
      ∀ params xAxis yAxis legend measure,
        (0.0 : Rat) ≤ (Layout.compute params xAxis yAxis legend measure).metrics.stroke := by
  have hfloat : Path.KeepsOrder (unit : Float) :=
    Path.keepsOrder_double (show 10 ^ 5 ≤ 2 ^ 53 by norm_num)
  exact ⟨⟨fun layout => arranged_of_keepsOrder layout hfloat hbands binCount,
    stroke_compute_double⟩,
    fun layout => arranged_of_keepsOrder layout (Path.keepsOrder_exact _) hbands binCount,
    stroke_compute_exact⟩

/-- Two neighbours that touch: a line at each end, and one that they share. -/
theorem arranged_build_pair :
    let bands : List Band := [⟨0, 99, .up⟩, ⟨100, 199, .down⟩]
    let layout : Layout Float :=
      .compute .default (.ofRange ⟨0.0, 518.0⟩ [50, 100] 4.0 .integer)
        (.ofRange ⟨0.0, 65.0⟩ [10] 3.75 .integer) none approximateWidth
    bands ≠ [] ∧ (Arranged bands 518 layout ∧ 0.0 ≤ layout.metrics.stroke) ∧
      (build bands 518 layout).separators.subpathCount = 3 := by
  intro bands layout
  have hbands : bands ≠ [] := List.cons_ne_nil _ _
  obtain ⟨⟨harranged, hstroke⟩, _⟩ := arranged_build hbands 518
  exact ⟨hbands, ⟨harranged layout, hstroke _ _ _ _ _⟩, by decide +kernel⟩

end BandShades

end LineCharts
