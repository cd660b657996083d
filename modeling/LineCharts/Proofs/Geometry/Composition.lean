/-
Maps put together from single operations, in exact arithmetic.

* `Transform.Op` is one operation, `Transform.Op.act` what it does to a point;
* `Transform.image_put` — an operation that is put in front of a map acts first;
* `Transform.image_putAll` — so of some operations the last one acts first,
  and the map itself last;
* `Label.image_compression` — so a text is compressed towards its anchor;
* `Transform.PlacesOrigin` — a map moves to a point and scales there, so this is
  where it takes the origin.
-/
import LineCharts.Frame.Picture
import LineCharts.Proofs.Frame.Drawings

namespace LineCharts

namespace Transform

/-- A map moves or scales. -/
inductive Op where
  | translate (tx ty : Rat)
  | scale (sx sy : Rat)

/-- What an operation does to a point. -/
def Op.act : Op → Point Rat → Point Rat
  | translate tx ty, p => ⟨p.x + tx, p.y + ty⟩
  | scale sx sy, p => ⟨sx * p.x, sy * p.y⟩

/-- Puts an operation in front of a map. -/
def put (t : Transform Rat) : Op → Transform Rat
  | .translate tx ty => t.translate tx ty
  | .scale sx sy => t.scale sx sy

/-- Puts some operations in front of a map, one after the other. -/
def putAll (t : Transform Rat) (ops : List Op) : Transform Rat := ops.foldl put t

/-- The image of a point. -/
def image (t : Transform Rat) (p : Point Rat) : Point Rat := t.apply p.x p.y

variable (t : Transform Rat)

@[simp] theorem image_identity (p : Point Rat) : identity.image p = p := by
  simp [image, apply, identity]

/-- An operation that is put in front acts first, whatever the coefficients of the map. -/
theorem image_put (op : Op) (p : Point Rat) : (t.put op).image p = t.image (op.act p) := by
  cases op with
  | translate tx ty =>
    simp only [put, translate, image, apply, Op.act, Point.mk.injEq]
    constructor <;> ring
  | scale sx sy =>
    simp only [put, scale, image, apply, Op.act, Point.mk.injEq]
    constructor <;> ring

/-- **Of some operations the last one acts first**, and the map that they are put in
front of acts last. -/
theorem image_putAll (ops : List Op) (p : Point Rat) :
    (t.putAll ops).image p = t.image (ops.foldr Op.act p) := by
  induction ops generalizing t with
  | nil => rfl
  | cons op ops ih =>
    calc ((t.put op).putAll ops).image p = (t.put op).image (ops.foldr Op.act p) :=
          ih (t.put op)
      _ = t.image (op.act (ops.foldr Op.act p)) := image_put t op _

/-- A map that moves and then scales: three units right and four up are six
pixels right and four up. -/
example : (((identity.translate 10 100).scale 2 (-1)).image ⟨3, 4⟩ == ⟨16, 96⟩) = true := by
  decide +kernel

/-! ### The maps in use -/

/-- The map moves to a point and scales there, with values upwards, and this is where
it takes the origin. -/
def PlacesOrigin (p : Point Rat) : Prop :=
  (∃ sx sy, t = upright p.x p.y sx sy) ∧ t.image ⟨0, 0⟩ = p

theorem placesOrigin_upright (x y sx sy : Rat) : (upright x y sx sy).PlacesOrigin ⟨x, y⟩ := by
  refine ⟨⟨sx, sy, rfl⟩, ?_⟩
  simp [image, apply_upright]

end Transform

/-- **A text is compressed towards its anchor**, and not moved up or down. -/
theorem Label.image_compression (d : Label Rat) (p : Point Rat) :
    d.compression.image p = ⟨d.x + d.scaleX * (p.x - d.x), p.y⟩ := by
  have hput : d.compression =
      Transform.identity.putAll [.translate d.x 0.0, .scale d.scaleX 1.0,
        .translate (-d.x) 0.0] := rfl
  rw [hput, Transform.image_putAll, Transform.image_identity]
  simp only [List.foldr, Transform.Op.act, Point.mk.injEq, Exact.zero_lit, Exact.one_lit]
  constructor <;> ring

end LineCharts
