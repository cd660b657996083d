/-
Traces divide by no zero, in exact arithmetic.

* `Steps.Agree`, `Fill.Agree`, `Stroke.Agree` — two states differ in nothing,
  and their paths agree;
* `Steps.Agree.next`, `Fill.Agree.next`, `Stroke.Agree.next` — one sample takes states that
  agree to states that agree, whichever division is used;
* `agree_steps`, `agree_fill`, `agree_hlog`, `agree_counts`, `agree_extremes`,
  `agree_outages`, `agree_pilotTones` — so do whole series.

Design notes.  A trace divides only where a point is rounded to the places of its path.
-/
import LineCharts.Proofs.Division.Paths
import LineCharts.Trace.Fill
import LineCharts.Trace.Outage
import LineCharts.Trace.Pilot
import LineCharts.Trace.Stroke

namespace LineCharts.Trace

open Exact (Division)

variable {d : Division} {p q : Path Rat}

/-! ### Pilot tones -/

theorem agree_pilotTones (h : p.Agree q) (tones : List Nat) (height : Rat) :
    (@pilotTones Rat d.scalar p tones height).Agree (pilotTones q tones height) := by
  unfold pilotTones
  refine List.foldl_rel h fun tone _ p q hpath => ?_
  exact (hpath.moveTo _ _).lineTo _ _

/-! ### Outages -/

theorem agree_closeOutage (h : p.Agree q) (index : Nat) :
    (@closeOutage Rat d.scalar p index).Agree (closeOutage q index) :=
  ((h.lineTo _ _).lineTo _ _).close

theorem agree_nextOutage (h : p.Agree q) (last here : Bool) (index : Nat) :
    (@nextOutage Rat d.scalar p last here index).Agree (nextOutage q last here index) := by
  unfold nextOutage
  cases last <;> cases here
  · exact h
  · exact agree_closeOutage h index
  · exact (h.moveTo _ _).lineTo _ _
  · exact h

theorem agree_outages {σ : Type} (h : p.Agree q) (series : List (List (Option σ))) :
    (@outages Rat d.scalar σ p series).Agree (outages q series) := by
  have hfinish : ∀ s t : Path Rat × Bool, s.1.Agree t.1 ∧ s.2 = t.2 →
      (if s.2 then s.1 else @closeOutage Rat d.scalar s.1 (covered series).length).Agree
        (if t.2 then t.1 else closeOutage t.1 (covered series).length) := by
    intro s t ⟨hpath, hlast⟩
    rw [hlast]
    split
    · exact hpath
    · exact agree_closeOutage hpath _
  refine hfinish _ _ (List.foldl_rel (r := fun s t : Path Rat × Bool => s.1.Agree t.1 ∧
    s.2 = t.2) ⟨h, rfl⟩ fun flag _ s t hst => ⟨?_, rfl⟩)
  dsimp only
  rw [hst.2]
  exact agree_nextOutage hst.1 _ _ _

/-! ### Steps -/

theorem agree_closeDown (h : p.Agree q) (x height : Rat) :
    (@closeDown Rat d.scalar p x height).Agree (closeDown q x height) :=
  ((h.lineTo _ _).lineTo _ _).close

/-- The same state, with a path to which can be appended. -/
structure Steps.Agree (s t : Steps Rat) : Prop where
  path : s.path.Agree t.path
  inside : s.inside = t.inside
  last : s.last = t.last
  height : s.height = t.height

theorem Steps.Agree.next {s t : Steps Rat} (h : s.Agree t) (width scaleY : Rat)
    (sample : Option Rat) (index : Nat) :
    (@Steps.next Rat d.scalar width scaleY s sample index).Agree
      (t.next width scaleY sample index) := by
  obtain ⟨path, inside, last, height⟩ := s
  obtain ⟨path', inside', last', height'⟩ := t
  obtain ⟨hpath, rfl, rfl, rfl⟩ := h
  unfold Steps.next
  dsimp only at hpath ⊢
  generalize Option.filter (fun v => decide ((0.0 : Rat) < v)) sample = value
  generalize (!last == sample) = changed
  cases value with
  | none =>
    cases inside with
    | false => exact ⟨hpath, rfl, rfl, rfl⟩
    | true => exact ⟨agree_closeDown hpath _ _, rfl, rfl, rfl⟩
  | some bits =>
    cases changed with
    | false =>
      cases inside with
      | false => exact ⟨hpath.moveTo _ _, rfl, rfl, rfl⟩
      | true => exact ⟨hpath, rfl, rfl, rfl⟩
    | true =>
      cases inside with
      | false => exact ⟨(hpath.moveTo _ _).lineTo _ _, rfl, rfl, rfl⟩
      | true => exact ⟨(hpath.lineTo _ _).lineTo _ _, rfl, rfl, rfl⟩

theorem Steps.Agree.finish {s t : Steps Rat} (h : s.Agree t) (width : Rat) (count : Nat) :
    (@Steps.finish Rat d.scalar width s count).Agree (t.finish width count) := by
  unfold Steps.finish
  rw [h.inside, h.height]
  split
  · exact agree_closeDown h.path _ _
  · exact h.path

/-- **Steps are the same with any division.** -/
theorem agree_steps (h : p.Agree q) (series : CarrierSeries Rat) (scaleY : Rat) :
    (@steps Rat d.scalar p series scaleY).Agree (steps q series scaleY) := by
  unfold steps
  have hstart : (@Steps.start Rat d.scalar p).Agree (Steps.start q) := ⟨h, rfl, rfl, rfl⟩
  exact (List.foldl_rel hstart fun sample _ s t hst => hst.next _ _ sample.1 sample.2).finish
    _ _

/-! ### Areas -/

/-- The same state, with a path to which can be appended. -/
structure Fill.Agree (s t : Fill Rat) : Prop where
  path : s.path.Agree t.path
  inside : s.inside = t.inside
  drawn : s.drawn = t.drawn
  last : s.last = t.last
  height : s.height = t.height

theorem Fill.Agree.next {s t : Fill Rat} (h : s.Agree t) (width : Rat) (scale : FillScale Rat)
    (sample : Option Rat) (index : Nat) :
    (@Fill.next Rat d.scalar width scale s sample index).Agree
      (t.next width scale sample index) := by
  obtain ⟨path, inside, drawn, last, height⟩ := s
  obtain ⟨path', inside', drawn', last', height'⟩ := t
  obtain ⟨hpath, rfl, rfl, rfl, rfl⟩ := h
  have hdraws : @FillScale.draws Rat d.scalar scale = scale.draws := rfl
  unfold Fill.next
  dsimp only at hpath ⊢
  rw [hdraws]
  generalize Option.filter scale.draws sample = value
  generalize (!last == sample) = changed
  cases value with
  | none =>
    cases inside with
    | false => exact ⟨hpath, rfl, rfl, rfl, rfl⟩
    | true => exact ⟨agree_closeDown hpath _ _, rfl, rfl, rfl, rfl⟩
  | some v =>
    cases inside with
    | false =>
      cases changed with
      | false => exact ⟨(hpath.moveTo _ _).lineTo _ _, rfl, rfl, rfl, rfl⟩
      | true => exact ⟨(hpath.moveTo _ _).lineTo _ _, rfl, rfl, rfl, rfl⟩
    | true =>
      cases changed with
      | false => exact ⟨hpath, rfl, rfl, rfl, rfl⟩
      | true =>
        cases drawn with
        | false => exact ⟨(hpath.lineTo _ _).lineTo _ _, rfl, rfl, rfl, rfl⟩
        | true => exact ⟨hpath.lineTo _ _, rfl, rfl, rfl, rfl⟩

theorem Fill.Agree.finish {s t : Fill Rat} (h : s.Agree t) (width : Rat) (count : Nat) :
    (@Fill.finish Rat d.scalar width s count).Agree (t.finish width count) := by
  unfold Fill.finish
  rw [h.inside, h.height]
  split
  · exact agree_closeDown h.path _ _
  · exact h.path

/-- **Areas are the same with any division.** -/
theorem agree_fill (h : p.Agree q) (series : CarrierSeries Rat) (scale : FillScale Rat) :
    (@fill Rat d.scalar p series scale).Agree (fill q series scale) := by
  have hstart : (@Fill.start Rat d.scalar p scale).Agree (Fill.start q scale) :=
    ⟨h, rfl, rfl, rfl, rfl⟩
  exact (List.foldl_rel hstart fun sample _ s t hst => hst.next _ _ sample.1 sample.2).finish
    _ _

/-! ### Strokes -/

/-- The same state, with a path to which can be appended. -/
structure Stroke.Agree (s t : Stroke Rat) : Prop where
  path : s.path.Agree t.path
  width : s.width = t.width
  postScaleY : s.postScaleY = t.postScaleY
  inside : s.inside = t.inside
  drawn : s.drawn = t.drawn
  last : s.last = t.last
  height : s.height = t.height

theorem Stroke.agree_start (h : p.Agree q) (width postScaleY : Rat) (last : Option Rat) :
    (@Stroke.start Rat d.scalar p width postScaleY last).Agree
      (Stroke.start q width postScaleY last) :=
  ⟨h, rfl, rfl, rfl, rfl, rfl, rfl⟩

theorem Stroke.Agree.next {s t : Stroke Rat} (h : s.Agree t) (sample y? : Option Rat)
    (breaks : Bool) (index : Nat) :
    (@Stroke.next Rat d.scalar s sample y? breaks index).Agree
      (t.next sample y? breaks index) := by
  obtain ⟨path, width, postScaleY, inside, drawn, last, height⟩ := s
  obtain ⟨path', width', postScaleY', inside', drawn', last', height'⟩ := t
  obtain ⟨hpath, rfl, rfl, rfl, rfl, rfl, rfl⟩ := h
  unfold Stroke.next
  dsimp only at hpath ⊢
  generalize (!last == sample) = changed
  generalize (!inside || breaks) = begins
  -- a line that ends a segment comes first
  have hended : ∀ ends : Bool, (if ends then
      @Path.lineTo Rat d.scalar path ((Scalar.ofNat index + 0.5) * width - 0.5 * width)
        (height * postScaleY) else path).Agree
      (if ends then path'.lineTo ((Scalar.ofNat index + 0.5) * width - 0.5 * width)
        (height * postScaleY) else path') := by
    intro ends
    split
    · exact hpath.lineTo _ _
    · exact hpath
  cases y? with
  | none => exact ⟨hended _, rfl, rfl, rfl, rfl, rfl, rfl⟩
  | some y =>
    cases begins with
    | true =>
      cases changed with
      | false => exact ⟨(hended _).moveTo _ _, rfl, rfl, rfl, rfl, rfl, rfl⟩
      | true => exact ⟨(hended _).moveTo _ _, rfl, rfl, rfl, rfl, rfl, rfl⟩
    | false =>
      cases changed with
      | false => exact ⟨hended _, rfl, rfl, rfl, rfl, rfl, rfl⟩
      | true =>
        cases drawn with
        | false => exact ⟨((hended _).lineTo _ _).lineTo _ _, rfl, rfl, rfl, rfl, rfl, rfl⟩
        | true => exact ⟨(hended _).lineTo _ _, rfl, rfl, rfl, rfl, rfl, rfl⟩

theorem Stroke.Agree.finish {s t : Stroke Rat} (h : s.Agree t) (count : Nat) :
    (@Stroke.finish Rat d.scalar s count).Agree (t.finish count) := by
  unfold Stroke.finish
  rw [h.inside, h.height, h.width, h.postScaleY]
  split
  · exact h.path.lineTo _ _
  · exact h.path

/-- **Traces of extremes are the same with any division.** -/
theorem agree_extremes {p' q' : Path Rat} (h : p.Agree q) (h' : p'.Agree q')
    (series : Extremes Rat) (scale : StrokeScale Rat) :
    (@extremes Rat d.scalar p p' series scale).1.Agree (extremes q q' series scale).1 ∧
      (@extremes Rat d.scalar p p' series scale).2.Agree (extremes q q' series scale).2 := by
  have hstart := fun {p q : Path Rat} (h : p.Agree q) => Stroke.agree_start (d := d) h
    (groupWidth series.groupSize) scale.postScaleY (some 0.0)
  obtain ⟨hlow, hhigh⟩ := List.foldl_rel (l := (pairUp series.least series.greatest).zipIdx)
    (f := fun s sample => @nextExtremes Rat d.scalar scale s.1 s.2 sample.1 sample.2)
    (g := fun s sample => nextExtremes scale s.1 s.2 sample.1 sample.2)
    (r := fun s t : Stroke Rat × Stroke Rat => s.1.Agree t.1 ∧ s.2.Agree t.2)
    (a := (_, _)) (b := (_, _)) ⟨hstart h, hstart h'⟩
    fun sample _ s t hst => ⟨hst.1.next _ _ _ _, hst.2.next _ _ _ _⟩
  exact ⟨hlow.finish _, hhigh.finish _⟩

theorem Stroke.Agree.nextHlog {s t : Stroke Rat} (h : s.Agree t) (scale : StrokeScale Rat)
    (sample : Option Rat) (index : Nat) :
    (@nextHlog Rat d.scalar scale s sample index).Agree (nextHlog scale t sample index) := by
  unfold Trace.nextHlog
  rw [h.inside, h.last]
  exact h.next _ _ _ _

/-- **Traces of a channel characteristic are the same with any division.** -/
theorem agree_hlog (h : p.Agree q) (series : CarrierSeries Rat) (scale : StrokeScale Rat) :
    (@hlog Rat d.scalar p series scale).Agree (hlog q series scale) := by
  have hstart := Stroke.agree_start (d := d) h (groupWidth series.groupSize) scale.postScaleY
    (some hlogInitial)
  exact (List.foldl_rel hstart fun sample _ s t hst =>
    hst.nextHlog _ sample.1 sample.2).finish _

/-- **Traces of counters are the same with any division.** -/
theorem agree_counts (h : p.Agree q) (samples : List (Option Nat))
    (scaleY maxY postScaleY : Rat) :
    (@counts Rat d.scalar p samples scaleY maxY postScaleY).Agree
      (counts q samples scaleY maxY postScaleY) := by
  have hstart := Stroke.agree_start (d := d) h 1.0 postScaleY none
  exact (List.foldl_rel hstart fun sample _ s t hst => hst.next _ _ _ sample.2).finish _

end LineCharts.Trace
