/-
Where the edges of shades are in order from left to right, in exact arithmetic.

* `Band.Ascending` — bands from left to right, without a common carrier;
* `BandShades.edges` — the edges of shades, band by band;
* `BandShades.rightEdge_le_leftEdge` — a shade ends where the next one
  begins, or in front of it;
* `BandShades.Wide` — no band ends left of the line that it shares with the band before it;
* `BandShades.leftEdge_le_rightOf_iff` — all other edges of one band are in order;
* `BandShades.isChain_edges_shadesFrom` — so the edges of all bands are in order just
  if the bands are wide;
* `BandShades.edges_ordered_iff` — which bands are on every line just if a line is not wider
  than the pixels of a carrier, those of each half rounded up.

Design notes.  Edges that are not shared are at whole pixels, a shared one is half a
line behind such a pixel.  So the order can fail only where a band shares its left edge,
but not its right one.
-/
import LineCharts.Proofs.Layout.BandShades

namespace LineCharts

/-- Bands from left to right: each has a carrier, and none has a carrier with
another one in common. -/
def Band.Ascending (bands : List Band) : Prop :=
  (∀ band ∈ bands, band.start ≤ band.stop) ∧
    bands.IsChain fun before after => before.stop < after.start

instance (bands : List Band) : Decidable (Band.Ascending bands) :=
  inferInstanceAs (Decidable (_ ∧ _))

namespace Band.Ascending

variable {before after band : Band} {rest : List Band}

theorem start_le_stop (h : Ascending (band :: rest)) : band.start ≤ band.stop :=
  h.1 band List.mem_cons_self

theorem stop_lt_start (h : Ascending (before :: after :: rest)) : before.stop < after.start :=
  (List.isChain_cons_cons.mp h.2).1

theorem tail (h : Ascending (band :: rest)) : Ascending rest :=
  ⟨fun b hb => h.1 b (List.mem_cons_of_mem _ hb), h.2.tail⟩

end Band.Ascending

namespace BandShades

/-- The left and the right edge of each shade. -/
def edges {α : Type} (shades : List (Shade α)) : List α :=
  shades.flatMap fun shade => [shade.left, shade.right]

section

variable {α : Type} [Scalar α] (layout : Layout α) (scale : α)

/-- The right edge of a band in front of some others. -/
def rightOf (band : Band) : List Band → α
  | [] => edgeEnd layout scale band.stop
  | after :: _ => rightEdge layout scale band after

/-- A band does not touch the first of those behind it, if there is one. -/
def Apart (band : Band) (rest : List Band) : Prop :=
  ∀ after ∈ rest.head?, ¬ Touching layout scale band after

theorem apart_nil (band : Band) : Apart layout scale band [] := fun _ h => by cases h

/-- No band that shares its left edge, but not its right one, has the shared edge
right of the other. -/
def Wide : List Band → Prop
  | before :: band :: rest =>
      (Touching layout scale before band → Apart layout scale band rest →
        edgeBetween layout scale before.stop band.start ≤ edgeEnd layout scale band.stop) ∧
    Wide (band :: rest)
  | _ => True

end

/-! ### Edges as numbers -/

variable (layout : Layout Rat) (scale : Rat)

theorem edgeStart_eq (bin : Nat) :
    edgeStart layout scale bin = layout.plot.x + ⌊((bin : Rat) + 1 / 2) * scale⌋ := by
  have hhalf : (0.5 : Rat) = 1 / 2 := by norm_num
  rw [edgeStart, hhalf]
  rfl

theorem edgeEnd_eq (bin : Nat) :
    edgeEnd layout scale bin = layout.plot.x + ⌈((bin : Rat) + 1 / 2) * scale⌉ := by
  have hhalf : (0.5 : Rat) = 1 / 2 := by norm_num
  have hceil (x : Rat) : x.ceil = ⌈x⌉ := Rat.ceil_eq_neg_floor_neg x
  rw [edgeEnd, hhalf, ← hceil]
  rfl

/-- The middle between two carriers, moved by half a carrier. -/
theorem edgeBetween_eq (before after : Nat) : edgeBetween layout scale before after =
    layout.plot.x + ⌊((after : Rat) + before + 1) / 2 * scale⌋ +
      layout.metrics.stroke / 2 := by
  have hmiddle : ((after : Rat) + before) / 2.0 + 0.5 = (after + before + 1) / 2 := by
    norm_num
    ring
  have hhalf : layout.metrics.half = layout.metrics.stroke / 2 := by
    rw [Layout.Metrics.half]
    ring
  rw [edgeBetween, hhalf, ← hmiddle]
  rfl

variable {layout scale}

section

variable (hscale : 0 ≤ scale)

include hscale

theorem edgeStart_le_edgeEnd {first last : Nat} (h : first ≤ last) :
    edgeStart layout scale first ≤ edgeEnd layout scale last := by
  have hcast : (first : Rat) ≤ last := Nat.cast_le.mpr h
  have hmiddle : ((first : Rat) + 1 / 2) * scale ≤ (last + 1 / 2) * scale :=
    mul_le_mul_of_nonneg_right (by linarith) hscale
  rw [edgeStart_eq, edgeEnd_eq]
  have hround := (Int.floor_le _).trans (hmiddle.trans (Int.le_ceil _))
  linarith

theorem floor_mul_le {x y : Rat} (h : x ≤ y) : (⌊x * scale⌋ : Rat) ≤ ⌊y * scale⌋ :=
  Int.cast_le.mpr (Int.floor_le_floor (mul_le_mul_of_nonneg_right h hscale))

theorem edgeBetween_mono {p q p' q' : Nat} (hp : p ≤ p') (hq : q ≤ q') :
    edgeBetween layout scale p q ≤ edgeBetween layout scale p' q' := by
  have hp' : (p : Rat) ≤ p' := Nat.cast_le.mpr hp
  have hq' : (q : Rat) ≤ q' := Nat.cast_le.mpr hq
  have hmiddle : ((q : Rat) + p + 1) / 2 ≤ (q' + p' + 1) / 2 := by linarith
  have hfloor := floor_mul_le hscale hmiddle
  rw [edgeBetween_eq, edgeBetween_eq]
  linarith

theorem edgeStart_le_edgeBetween (hstroke : 0 ≤ layout.metrics.stroke) {first p q : Nat}
    (hp : first ≤ p) (hq : p < q) :
    edgeStart layout scale first ≤ edgeBetween layout scale p q := by
  have hp' : (first : Rat) ≤ p := Nat.cast_le.mpr hp
  have hq' : (p : Rat) ≤ q := Nat.cast_le.mpr hq.le
  have hmiddle : (first : Rat) + 1 / 2 ≤ (q + p + 1) / 2 := by linarith
  have hfloor := floor_mul_le hscale hmiddle
  rw [edgeStart_eq, edgeBetween_eq]
  linarith

/-- A line that is not wider than the pixels of a carrier leaves room for every band. -/
theorem edgeBetween_le_edgeEnd (h : layout.metrics.stroke ≤ 2 * ⌈scale / 2⌉)
    {p first last : Nat} (hp : p < first) (hlast : first ≤ last) :
    edgeBetween layout scale p first ≤ edgeEnd layout scale last := by
  have hp' : (p : Rat) + 1 ≤ first := by exact_mod_cast hp
  have hlast' : (first : Rat) ≤ last := Nat.cast_le.mpr hlast
  have hleft : ⌊((first : Rat) + p + 1) / 2 * scale⌋ ≤ ⌊first * scale⌋ :=
    Int.floor_le_floor (mul_le_mul_of_nonneg_right (by linarith) hscale)
  have hright : ⌊(first : Rat) * scale⌋ + ⌈scale / 2⌉ ≤ ⌈((last : Rat) + 1 / 2) * scale⌉ := by
    have hfloor := Int.floor_le ((first : Rat) * scale)
    have hscaled := mul_le_mul_of_nonneg_right hlast' hscale
    rw [← Int.ceil_intCast_add]
    exact Int.ceil_le_ceil (by linarith)
  have hedges : (⌊((first : Rat) + p + 1) / 2 * scale⌋ : Rat) + ⌈scale / 2⌉ ≤
      ⌈((last : Rat) + 1 / 2) * scale⌉ := by
    exact_mod_cast (Int.add_le_add_right hleft _).trans hright
  rw [edgeBetween_eq, edgeEnd_eq]
  linarith

end

/-- **Fills do not overlap**: touching neighbours share an edge, others are apart
by a line at least. -/
theorem rightEdge_le_leftEdge (hstroke : 0 ≤ layout.metrics.stroke) (before after : Band) :
    rightEdge layout scale before after ≤ leftEdge layout scale before after := by
  rw [rightEdge, leftEdge]
  split
  case isTrue => exact le_rfl
  case isFalse hapart =>
    rw [Touching, not_le] at hapart
    linarith

theorem isChain_rightEdge_le (hstroke : 0 ≤ layout.metrics.stroke) (left : Rat) (band : Band)
    (rest : List Band) :
    (shadesFrom layout scale left band rest).IsChain fun before after =>
      before.right ≤ after.left := by
  induction rest generalizing left band with
  | nil => exact .singleton _
  | cons after rest ih =>
    have hnext := ih (leftEdge layout scale band after) after
    have hedges : rightEdge layout scale band after ≤ leftEdge layout scale band after :=
      rightEdge_le_leftEdge hstroke band after
    rw [shadesFrom]
    cases rest with
    | nil => exact .cons_cons hedges hnext
    | cons => exact .cons_cons hedges hnext

/-! ### Band by band -/

section

variable (hscale : 0 ≤ scale) (hstroke : 0 ≤ layout.metrics.stroke)

include hscale hstroke

/-- An edge at the first carrier of a band is not right of its right edge. -/
theorem edgeStart_le_rightOf {band : Band} {rest : List Band}
    (hbands : Band.Ascending (band :: rest)) :
    edgeStart layout scale band.start ≤ rightOf layout scale band rest := by
  cases rest with
  | nil => exact edgeStart_le_edgeEnd hscale hbands.start_le_stop
  | cons after rest =>
    rw [rightOf, rightEdge]
    split
    case isTrue =>
      exact edgeStart_le_edgeBetween hscale hstroke hbands.start_le_stop hbands.stop_lt_start
    case isFalse => exact edgeStart_le_edgeEnd hscale hbands.start_le_stop

/-- **Both edges of a band are in order**, unless it shares the left one only
and ends left of it. -/
theorem leftEdge_le_rightOf_iff {before band : Band} {rest : List Band}
    (hbands : Band.Ascending (before :: band :: rest)) :
    leftEdge layout scale before band ≤ rightOf layout scale band rest ↔
      (Touching layout scale before band → Apart layout scale band rest →
        edgeBetween layout scale before.stop band.start ≤
          edgeEnd layout scale band.stop) := by
  rw [leftEdge]
  split
  case isFalse hapart =>
    exact iff_of_true (edgeStart_le_rightOf hscale hstroke hbands.tail) fun h =>
      absurd h hapart
  case isTrue htouch =>
    cases rest with
    | nil => exact ⟨fun h _ _ => h, fun h => h htouch (apart_nil layout scale band)⟩
    | cons after rest =>
      rw [rightOf, rightEdge]
      split
      case isTrue hnext =>
        -- both edges are shared: the middle between carriers goes up
        have hbefore : before.stop < band.start := hbands.stop_lt_start
        have hband : band.start ≤ band.stop := hbands.tail.start_le_stop
        have hafter : band.stop < after.start := hbands.tail.stop_lt_start
        exact iff_of_true (edgeBetween_mono hscale (by omega) (by omega)) fun _ h =>
          absurd hnext (h after rfl)
      case isFalse hnext =>
        have hapart : Apart layout scale band (after :: rest) := fun b hb => by
          obtain rfl := Option.mem_some_iff.mp hb
          exact hnext
        exact ⟨fun h _ _ => h, fun h => h htouch hapart⟩

/-- **The edges of all bands are in order** just if those of the first are, and
the others are wide. -/
theorem isChain_edges_shadesFrom (left : Rat) {band : Band} {rest : List Band}
    (hbands : Band.Ascending (band :: rest)) :
    (edges (shadesFrom layout scale left band rest)).IsChain (· ≤ ·) ↔
      left ≤ rightOf layout scale band rest ∧ Wide layout scale (band :: rest) := by
  induction rest generalizing left band with
  | nil => exact List.isChain_pair.trans (iff_self_and.mpr fun _ => trivial)
  | cons after rest ih =>
    -- the next shade begins with the left edge of its band
    obtain ⟨later, hlater⟩ :
        ∃ later, edges (shadesFrom layout scale (leftEdge layout scale band after) after
        rest) = leftEdge layout scale band after :: later := by
      cases rest with
      | nil => exact ⟨_, rfl⟩
      | cons => exact ⟨_, rfl⟩
    have hedges : edges (shadesFrom layout scale left band (after :: rest)) =
        left :: rightEdge layout scale band after ::
          edges (shadesFrom layout scale (leftEdge layout scale band after) after rest) := rfl
    have hnext := ih (leftEdge layout scale band after) hbands.tail
    rw [hedges, hlater, List.isChain_cons_cons, List.isChain_cons_cons, ← hlater, hnext,
      leftEdge_le_rightOf_iff hscale hstroke hbands]
    exact and_congr_right' (and_iff_right (rightEdge_le_leftEdge hstroke band after))

end

/-! ### All lines -/

theorem wide_of_stroke_le (hscale : 0 ≤ scale) (h : layout.metrics.stroke ≤ 2 * ⌈scale / 2⌉)
    {bands : List Band} (hbands : Band.Ascending bands) : Wide layout scale bands := by
  induction bands with
  | nil => trivial
  | cons before bands ih =>
    cases bands with
    | nil => trivial
    | cons band rest =>
      exact ⟨fun _ _ => edgeBetween_le_edgeEnd hscale h hbands.stop_lt_start
        hbands.tail.start_le_stop, ih hbands.tail⟩

/-- Two bands of one carrier on both sides of a whole pixel, if there is one. -/
def narrow (scale : Rat) : List Band :=
  [⟨scale.den - 1, scale.den - 1, .down⟩, ⟨scale.den, scale.den, .up⟩]

theorem ascending_narrow (scale : Rat) : Band.Ascending (narrow scale) := by
  have hpos := scale.den_pos
  refine ⟨fun band hband => ?_, List.isChain_pair.mpr ?_⟩
  · rcases List.mem_pair.mp hband with rfl | rfl <;> exact le_rfl
  · show scale.den - 1 < scale.den
    omega

/-- A wider line does not: the narrowest bands are turned over by it. -/
theorem not_wide_narrow (h : 2 * ⌈scale / 2⌉ < layout.metrics.stroke) :
    ¬ Wide layout scale (narrow scale) := by
  have hbefore : ((scale.den - 1 : Nat) : Rat) = scale.den - 1 := Nat.cast_pred scale.den_pos
  have hwhole : (scale.den : Rat) * scale = scale.num :=
    mul_comm _ scale ▸ scale.mul_den_eq_num
  -- the edges, from the whole pixel between both carriers
  have hstart : edgeStart layout scale scale.den =
      layout.plot.x + scale.num + ⌊scale / 2⌋ := by
    have hmiddle : ((scale.den : Rat) + 1 / 2) * scale = scale.num + scale / 2 := by linarith
    rw [edgeStart_eq, hmiddle, Int.floor_intCast_add, Int.cast_add]
    ring
  have hstop : edgeEnd layout scale scale.den = layout.plot.x + scale.num + ⌈scale / 2⌉ := by
    have hmiddle : ((scale.den : Rat) + 1 / 2) * scale = scale.num + scale / 2 := by linarith
    rw [edgeEnd_eq, hmiddle, Int.ceil_intCast_add, Int.cast_add]
    ring
  have hend : edgeEnd layout scale (scale.den - 1) =
      layout.plot.x + scale.num - ⌊scale / 2⌋ := by
    have hmiddle : ((scale.den : Rat) - 1 + 1 / 2) * scale = scale.num + -(scale / 2) := by
      linarith
    rw [edgeEnd_eq, hbefore, hmiddle, Int.ceil_intCast_add, Int.ceil_neg,
      Int.cast_add, Int.cast_neg]
    ring
  have hbetween : edgeBetween layout scale (scale.den - 1) scale.den =
      layout.plot.x + scale.num + layout.metrics.stroke / 2 := by
    have hmiddle : ((scale.den : Rat) + (scale.den - 1) + 1) / 2 * scale = scale.num := by
      linarith
    rw [edgeBetween_eq, hbefore, hmiddle, Int.floor_intCast]
  have htouch : Touching layout scale ⟨scale.den - 1, scale.den - 1, .down⟩
      ⟨scale.den, scale.den, .up⟩ := by
    have hfloor : (⌊scale / 2⌋ : Rat) ≤ ⌈scale / 2⌉ := Int.cast_le.mpr (Int.floor_le_ceil _)
    rw [Touching, hstart, hend]
    linarith
  intro hwide
  have hedges := hwide.1 htouch (apart_nil layout scale _)
  rw [hbetween, hstop] at hedges
  linarith

variable (layout) in
/-- The edges of the shades of some bands are in order. -/
def Ordered (bands : List Band) (binCount : Nat) : Prop :=
  (edges (shades layout bands binCount)).IsChain (· ≤ ·)

instance (layout : Layout Rat) (bands : List Band) (binCount : Nat) :
    Decidable (Ordered layout bands binCount) :=
  inferInstanceAs (Decidable (List.IsChain _ _))

theorem ordered_iff_wide (hplot : layout.plot.isDegenerate = false)
    (hstroke : 0 ≤ layout.metrics.stroke) (binCount : Nat) {bands : List Band}
    (hbands : Band.Ascending bands) :
    Ordered layout bands binCount ↔ Wide layout (layout.scaleX binCount) bands := by
  have hscale := (Layout.scaleX_pos hplot binCount).le
  cases bands with
  | nil => exact iff_of_true .nil trivial
  | cons first rest =>
    exact (isChain_edges_shadesFrom hscale hstroke _ hbands).trans
      (and_iff_right (edgeStart_le_rightOf hscale hstroke hbands))

/-- **Edges of shades are in order** just if all bands are wide, on a plot with an area.
So they are for all bands just if half a line is not wider than half of a carrier,
rounded up to pixels: always with lines of one or two pixels.  No shade ever ends behind
the begin of the next one. -/
theorem edges_ordered_iff (hplot : layout.plot.isDegenerate = false)
    (hstroke : 0 ≤ layout.metrics.stroke) (binCount : Nat) :
    (∀ bands, Band.Ascending bands →
      (Ordered layout bands binCount ↔ Wide layout (layout.scaleX binCount) bands)) ∧
    ((∀ bands, Band.Ascending bands → Ordered layout bands binCount) ↔
      layout.metrics.stroke ≤ 2 * ⌈layout.scaleX binCount / 2⌉) ∧
    (∀ bands, (shades layout bands binCount).IsChain fun before after =>
      before.right ≤ after.left) ∧
    ∀ bands ≠ [], ∀ direction,
      ((build bands binCount layout).fills.of direction).commands.toList =
      ((shades layout bands binCount).filter (·.band.direction = direction)).flatMap
        (·.outline layout.plot unit) := by
  have hscale := (Layout.scaleX_pos hplot binCount).le
  refine ⟨fun bands => ordered_iff_wide hplot hstroke binCount,
    ⟨fun hall => ?_, fun hle bands hbands => ?_⟩, fun bands => ?_, fun bands hbands => ?_⟩
  · by_contra hlt
    have hordered := hall _ (ascending_narrow (layout.scaleX binCount))
    exact not_wide_narrow (not_le.mp hlt)
      ((ordered_iff_wide hplot hstroke binCount (ascending_narrow _)).mp hordered)
  · exact (ordered_iff_wide hplot hstroke binCount hbands).mpr
      (wide_of_stroke_le hscale hle hbands)
  · cases bands with
    | nil => exact .nil
    | cons first rest => exact isChain_rightEdge_le hstroke _ first rest
  · exact (arranged_of_keepsOrder layout (Path.keepsOrder_exact _) hbands binCount).commands

/-- A band of one carrier that touches the one before it, on the default surface. -/
theorem edges_ordered_default :
    let layout : Layout Rat :=
      .compute .default (.ofRange ⟨0.0, 4096.0⟩ [100, 200, 500, 1000] 4.0 .integer)
        (.ofRange ⟨0.0, 15.0⟩ [2] 3.75 .integer) none approximateWidth
    (layout.plot.isDegenerate = false ∧ 0 ≤ layout.metrics.stroke) ∧
      Ordered layout [⟨0, 2047, .down⟩, ⟨2048, 2048, .up⟩] 4096 := by
  intro layout
  have hplot : layout.plot.isDegenerate = false := by decide +kernel
  have hstroke : 0 ≤ layout.metrics.stroke := by decide +kernel
  obtain ⟨_, hall, _⟩ := edges_ordered_iff hplot hstroke 4096
  exact ⟨⟨hplot, hstroke⟩, hall.mpr (by decide +kernel) _ (by decide)⟩

/-- The same bands on a surface with three pixels for one: the shade of the second one goes
from 778.5 to 778 pixels of the plot. -/
theorem not_ordered_triple :
    let layout : Layout Rat :=
      .compute { Params.default with width := 1680, height := 342, scaleFactor := 3 }
        (.ofRange ⟨0.0, 4096.0⟩ [100, 200, 500, 1000] 4.0 .integer)
        (.ofRange ⟨0.0, 15.0⟩ [2] 3.75 .integer)
      none approximateWidth
    let bands : List Band := [⟨0, 2047, .down⟩, ⟨2048, 2048, .up⟩]
    layout.plot.isDegenerate = false ∧ 0 ≤ layout.metrics.stroke ∧ Band.Ascending bands ∧
      (edges (shades layout bands 4096)).map (· - layout.plot.x) = [0, 778.5, 778.5, 778] ∧
      ¬ Ordered layout bands 4096 := by
  decide +kernel

end BandShades

end LineCharts
