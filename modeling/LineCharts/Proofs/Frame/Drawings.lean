/-
What a frame holds, and where a drawing puts its coordinates, in exact arithmetic.

* `Frame.mem_pushFill` and the like — what is drawn and is not empty is on the frame;
* `Frame.mem_pushFill_of_mem` and the like — what is there stays;
* `Frame.All.pushFill` and the like — nothing else comes to it;
* `Transform.apply_upright` — the map of charts;
* `Drawing.PlacesX` — all that a drawing draws has its first coordinate where a map takes it.
-/
import LineCharts.Frame.Basic
import LineCharts.Proofs.Geometry.Rounding

namespace LineCharts

namespace Frame

variable {frame : Frame Rat} {e : Drawing Rat}

theorem mem_push {d : Drawing Rat} :
    e ∈ (frame.push d).drawings.toList ↔ e ∈ frame.drawings.toList ∨ e = d := by
  rw [push, Array.toList_push, List.mem_append, List.mem_singleton]

theorem mem_pushFill_of_mem (h : e ∈ frame.drawings.toList) (d : FilledPath Rat) :
    e ∈ (frame.pushFill d).drawings.toList := by
  rw [pushFill]
  split
  · exact h
  · exact mem_push.mpr (.inl h)

theorem mem_pushFill {d : FilledPath Rat} (h : d.path.isEmpty = false) :
    .fill d ∈ (frame.pushFill d).drawings.toList := by
  rw [pushFill, h]
  exact mem_push.mpr (.inr rfl)

theorem mem_pushLayer_of_mem (h : e ∈ frame.drawings.toList) (d : Layer Rat) :
    e ∈ (frame.pushLayer d).drawings.toList := by
  rw [pushLayer]
  split
  · exact h
  · exact mem_push.mpr (.inl h)

theorem mem_pushStroke {d : StrokedPath Rat} (h : d.path.isEmpty = false) :
    .stroke d ∈ (frame.pushStroke d).drawings.toList := by
  rw [pushStroke, h]
  exact mem_push.mpr (.inr rfl)

theorem mem_pushLayer {d : Layer Rat} {s : LayerStroke Rat} (hs : s ∈ d.strokes)
    (h : s.stroke.path.isEmpty = false) : .layer d ∈ (frame.pushLayer d).drawings.toList := by
  have hdrawn : ¬ (d.strokes.all fun s => s.stroke.path.isEmpty) = true := fun hall =>
    Bool.false_ne_true (h.symm.trans (List.all_eq_true.mp hall s hs))
  rw [pushLayer, if_neg hdrawn]
  exact mem_push.mpr (.inr rfl)

/-- All that is on the frame meets a condition. -/
def All (meets : Drawing Rat → Prop) (frame : Frame Rat) : Prop :=
  ∀ d ∈ frame.drawings.toList, meets d

namespace All

variable {meets : Drawing Rat → Prop} (h : frame.All meets)

include h

theorem push {d : Drawing Rat} (hd : meets d) : (frame.push d).All meets := by
  intro e he
  rcases mem_push.mp he with he | rfl
  · exact h e he
  · exact hd

theorem pushFill {d : FilledPath Rat} (hd : meets (.fill d)) :
    (frame.pushFill d).All meets := by
  rw [Frame.pushFill]
  split
  · exact h
  · exact h.push hd

theorem pushStroke {d : StrokedPath Rat} (hd : meets (.stroke d)) :
    (frame.pushStroke d).All meets := by
  rw [Frame.pushStroke]
  split
  · exact h
  · exact h.push hd

theorem pushLayer {d : Layer Rat} (hd : meets (.layer d)) :
    (frame.pushLayer d).All meets := by
  rw [Frame.pushLayer]
  split
  · exact h
  · exact h.push hd

end All

end Frame

/-! ### Places -/

theorem Transform.apply_upright (x y sx sy u v : Rat) :
    (Transform.upright x y sx sy).apply u v = ⟨x + sx * u, y - sy * v⟩ := by
  simp only [upright, identity, translate, scale, apply, Exact.zero_lit, Exact.one_lit]
  rw [Point.mk.injEq]
  constructor <;> ring

/-- All that a drawing draws has its first coordinate where `place` takes it.  The strokes of
a layer are drawn from the corner of the layer. -/
def Drawing.PlacesX (place : Rat → Rat) : Drawing Rat → Prop
  | .fill d => ∀ x y, (d.transform.apply x y).x = place x
  | .stroke d => ∀ x y, (d.transform.apply x y).x = place x
  | .layer d => ∀ s ∈ d.strokes, ∀ x y, d.rect.x + (s.stroke.transform.apply x y).x = place x
  | .rect _ => False
  | .text _ => False

end LineCharts
