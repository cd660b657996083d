/-
Pictures are read as the things that they show, whatever their labels say.

* `PlainNumbers` — numbers are written with letters, digits, points and minus signs;
  `Exact.plainNumbers`, `Double.plainNumbers` — so are rational numbers and doubles;
* `PathData.valueChars_text`, `Color.isValue_css`, `Transform.isValue_text` — path data,
  colours and transforms may stand in attributes;
* `Drawing.node`, `Frame.node` — the element of a thing to draw, and the tree of a frame;
* `Drawing.denotes`, `Frame.denotes` — the markup of a frame that passes the
  check denotes this tree;
* `Frame.relabel`, `Node.mapText` — other texts in the labels, and in a tree;
* `Picture.reads_back` — a picture is read as the tree of its frame, and other
  labels change texts only.

Design notes.  Nothing is asked of the texts of labels but that they are not
empty, as the check says.
-/
import LineCharts.Frame.Picture
import LineCharts.Proofs.Decimal.Exact
import LineCharts.Proofs.Frame.Valid
import LineCharts.Proofs.Markup.RoundTrip
import LineCharts.Scalar.Double

namespace LineCharts

open Markup (isValueChar IsName IsValue AreAttributes Denotes)

/-! ### Values -/

/-- Characters that may stand in the value of an attribute. -/
def ValueChars (cs : List Char) : Prop := ∀ c ∈ cs, isValueChar c = true

theorem ValueChars.append {cs ds : List Char} (hcs : ValueChars cs) (hds : ValueChars ds) :
    ValueChars (cs ++ ds) :=
  List.forall_mem_append.mpr ⟨hcs, hds⟩

theorem ValueChars.cons {c : Char} {cs : List Char} (hc : isValueChar c = true)
    (hcs : ValueChars cs) :
    ValueChars (c :: cs) :=
  List.forall_mem_cons.mpr ⟨hc, hcs⟩

theorem isValue_ofList {cs : List Char} (h : ValueChars cs) : IsValue (.ofList cs) := by
  rwa [IsValue, String.toList_ofList]

theorem isValue_append {s t : String} (hs : IsValue s) (ht : IsValue t) :
    IsValue (s ++ t) := by
  rw [IsValue, String.toList_append]
  exact ValueChars.append hs ht

theorem isValue_intercalate {sep : String} (hsep : IsValue sep) {parts : List String}
    (h : ∀ s ∈ parts, IsValue s) : IsValue (sep.intercalate parts) := by
  have hparts : ∀ cs ∈ (parts.map String.toList).intersperse sep.toList, ValueChars cs := by
    induction parts with
    | nil => nofun
    | cons s parts ih =>
      obtain ⟨hs, hrest⟩ := List.forall_mem_cons.mp h
      cases parts with
      | nil => exact List.forall_mem_singleton.mpr hs
      | cons t parts =>
        exact List.forall_mem_cons.mpr ⟨hs, List.forall_mem_cons.mpr ⟨hsep, ih hrest⟩⟩
  rw [IsValue, String.toList_intercalate]
  intro c hc
  obtain ⟨cs, hcs, hc⟩ := List.mem_flatten.mp hc
  exact hparts cs hcs c hc

/-- Digits may stand in a value, and so may letters. -/
theorem isValueChar_of_isAlphanum {c : Char} (h : c.isAlphanum = true) :
    isValueChar c = true := by
  rw [isValueChar]
  rcases eq_or_ne c '"' with rfl | h1
  · exact absurd h (by decide)
  rcases eq_or_ne c Markup.apostrophe with rfl | h2
  · exact absurd h (by decide)
  rcases eq_or_ne c '<' with rfl | h3
  · exact absurd h (by decide)
  rcases eq_or_ne c '&' with rfl | h4
  · exact absurd h (by decide)
  simp [h1, h2, h3, h4]

theorem isValueChar_of_isDigit {c : Char} (h : c.isDigit = true) : isValueChar c = true :=
  isValueChar_of_isAlphanum (by rw [Char.isAlphanum, h, Bool.or_true])

/-! ### Numbers -/

/-- A letter, a digit, a point or a minus sign. -/
def isPlainChar (c : Char) : Bool := c.isAlphanum || c == '.' || c == '-'

theorem isPlainChar_of_isDigit {c : Char} (h : c.isDigit = true) : isPlainChar c = true := by
  simp [isPlainChar, Char.isAlphanum, h]

/-- Numbers are written with letters, digits, points and minus signs only. -/
def PlainNumbers (α : Type) [Scalar α] : Prop :=
  ∀ x : α, ∀ c ∈ (Scalar.text x).toList, isPlainChar c = true

theorem Decimal.isPlainChar_of_mem_plain {d : Decimal} {c : Char} (h : c ∈ d.plain.toList) :
    isPlainChar c = true := by
  rcases mem_plain h with hdigit | rfl | rfl
  · exact isPlainChar_of_isDigit hdigit
  · decide
  · decide

/-- **Rational numbers are written plainly.** -/
theorem Exact.plainNumbers : PlainNumbers Rat :=
  fun _ _ h => Decimal.isPlainChar_of_mem_plain h

/-- **Doubles are written plainly**, also those that are no numbers. -/
theorem Double.plainNumbers : PlainNumbers Float := by
  intro x c h
  have hnames : ("NaN".toList ++ "-inf".toList).all isPlainChar = true := by decide
  rw [List.all_eq_true] at hnames
  change c ∈ (Double.text x).toList at h
  rw [Double.text, Double.written] at h
  split at h
  · exact hnames c (List.mem_append_left _ h)
  · split at h
    · split at h
      · exact hnames c (List.mem_append_right _ h)
      · exact hnames c (List.mem_append_right _ (List.mem_cons_of_mem _ h))
    · exact Decimal.isPlainChar_of_mem_plain h

theorem isValue_nat (n : Nat) : IsValue (toString n) := by
  intro c hc
  change c ∈ (Nat.repr n).toList at hc
  rw [Nat.repr, String.toList_ofList] at hc
  exact isValueChar_of_isDigit (Decimal.isDigit_of_mem_toDigits hc)

theorem isValue_int (n : Int) : IsValue (toString n) := by
  cases n with
  | ofNat n => exact isValue_nat n
  | negSucc n => exact isValue_append (by decide) (isValue_nat (n + 1))

theorem PathData.valueChars_pair {x y : List Char} (hx : ValueChars x) (hy : ValueChars y) :
    ValueChars (pair x y) := by
  unfold pair
  dsimp only
  split_ifs
  · exact hx.append (.cons (by decide) hy)
  · exact hx.append hy

theorem PathData.valueChars_shorter {x y : List Char} (hx : ValueChars x)
    (hy : ValueChars y) :
    ValueChars (shorter x y) := by
  rw [shorter]
  split
  · exact hy
  · exact hx

section

variable {α : Type} [Scalar α] (hα : PlainNumbers α)

include hα

theorem valueChars_number (x : α) : ValueChars (Scalar.text x).toList := by
  intro c hc
  have h := hα x c hc
  simp only [isPlainChar, Bool.or_eq_true, beq_iff_eq] at h
  rcases h with (h | rfl) | rfl
  · exact isValueChar_of_isAlphanum h
  · decide
  · decide

namespace PathData

theorem valueChars_coordinate (x : α) : ValueChars (coordinate x) := by
  have h := valueChars_number hα (x + 0.0)
  rw [coordinate]
  generalize (Scalar.text (x + 0.0)).toList = cs at h
  -- a zero is left out
  unfold dropLeadingZero
  split
  · exact (List.forall_mem_cons.mp h).2
  · obtain ⟨hsign, hrest⟩ := List.forall_mem_cons.mp h
    exact .cons hsign (List.forall_mem_cons.mp hrest).2
  · exact h

theorem valueChars_segment (unit : α) (pen : Pen α) (c : PathCommand α) :
    ValueChars (segment unit pen c) := by
  have hone {letter : Char} (hletter : isValueChar letter = true) (x : α) :
      ValueChars (letter :: coordinate x) := .cons hletter (valueChars_coordinate hα x)
  have htwo {letter : Char} (hletter : isValueChar letter = true) (x y : α) :
      ValueChars (twoCoordinates letter x y) :=
    .cons hletter (valueChars_pair (valueChars_coordinate hα x) (valueChars_coordinate hα y))
  cases c with
  | moveTo p => exact valueChars_shorter (htwo (by decide) _ _) (htwo (by decide) _ _)
  | lineTo p =>
    rw [segment]
    split
    · exact valueChars_shorter (hone (by decide) _) (hone (by decide) _)
    split
    · exact valueChars_shorter (hone (by decide) _) (hone (by decide) _)
    · exact valueChars_shorter (htwo (by decide) _ _) (htwo (by decide) _ _)
  | close => exact .cons (by decide) nofun

theorem valueChars_text (unit : α) (pen : Pen α) (commands : List (PathCommand α)) :
    ValueChars (text unit pen commands) := by
  induction commands generalizing pen with
  | nil => exact nofun
  | cons c commands ih => exact (valueChars_segment hα unit pen c).append (ih _)

end PathData

theorem isValue_coordinate (x : α) : IsValue (String.ofList (PathData.coordinate x)) :=
  isValue_ofList (PathData.valueChars_coordinate hα x)

theorem Path.isValue_data (path : Path α) : IsValue path.data :=
  isValue_ofList (PathData.valueChars_text hα _ _ _)

theorem Color.isValue_css (c : Color α) : IsValue c.css := by
  have hparts : ∀ s ∈ c.bytes.map toString ++ [Scalar.text c.writtenAlpha], IsValue s := by
    refine List.forall_mem_append.mpr
      ⟨?_, List.forall_mem_singleton.mpr (valueChars_number hα _)⟩
    exact List.forall_mem_map.mpr fun n _ => isValue_int n
  exact isValue_append (isValue_append (by decide) (isValue_intercalate (by decide) hparts))
    (by decide)

theorem Transform.isValue_text (t : Transform α) : IsValue t.text := by
  have hparts : ∀ s ∈ t.toList.map (fun x => String.ofList (PathData.coordinate x)),
      IsValue s :=
    List.forall_mem_map.mpr fun x _ => isValue_coordinate hα x
  exact isValue_append (isValue_append (by decide) (isValue_intercalate (by decide) hparts))
    (by decide)

end

/-! ### Elements -/

section

variable {α : Type} [Scalar α]

/-- The element of a rectangle. -/
def FilledRect.node (d : FilledRect α) : Node :=
  .element "rect" [numberAttribute "x" d.rect.x, numberAttribute "y" d.rect.y,
    numberAttribute "width" d.rect.width, numberAttribute "height" d.rect.height,
    ("fill", d.color.css)] []

/-- The element of a fill. -/
def FilledPath.node (d : FilledPath α) : Node :=
  .element "path" ([("d", d.path.data)] ++ transformAttribute d.transform ++
    [("fill", d.color.css)]) []

/-- The element of a stroke. -/
def StrokedPath.node (d : StrokedPath α) (blend : BlendMode) : Node :=
  .element "path" ([("d", d.path.data)] ++ transformAttribute d.transform
    ++ [("fill", "none"), ("stroke", d.color.css), numberAttribute "stroke-width" d.width,
      ("stroke-linecap", d.cap.name)]
    ++ match blend with
      | .over => []
      | .multiply => [("style", "mix-blend-mode:multiply")]) []

/-- The element of a label, with its text in it. -/
def Label.node (d : Label α) : Node :=
  .element "text"
      ([numberAttribute "x" d.x, numberAttribute "y" d.y, ("font-family", fontFamily),
      numberAttribute "font-size" d.fontSize, ("fill", d.color.css),
      ("text-anchor", d.align.anchor)]
    ++ if d.scaleX == 1.0 then [] else transformAttribute d.compression) [.text d.text]

/-- The element of a layer, with one path for each stroke in it. -/
def Layer.node (d : Layer α) : Node :=
  .element "svg" [numberAttribute "x" d.rect.x, numberAttribute "y" d.rect.y,
    ("width", toString d.pixelSize.1), ("height", toString d.pixelSize.2),
      ("style", "isolation:isolate")]
    (d.strokes.map fun s => s.stroke.node s.blend)

/-- The element of a thing to draw. -/
def Drawing.node : Drawing α → Node
  | .rect d => d.node
  | .fill d => d.node
  | .stroke d => d.node .over
  | .text d => d.node
  | .layer d => d.node

/-- The tree of a frame: one element for each thing to draw, in order. -/
def Frame.node (frame : Frame α) : Node :=
  .element "svg" [("xmlns", "http://www.w3.org/2000/svg"),
      ("width", toString frame.viewport.width), ("height", toString frame.viewport.height),
      ("viewBox", "0 0 " ++ toString frame.viewport.width ++ " " ++
        toString frame.viewport.height)]
    (frame.drawings.toList.map Drawing.node)

end

namespace Markup.AreAttributes

/-- Attributes with these names, all different, and plain values. -/
theorem of_names {attributes : List (String × String)} {names : List String}
    (hnames : attributes.map Prod.fst = names) (hdistinct : names.Nodup)
    (hname : ∀ n ∈ names, IsName n) (hvalue : ∀ a ∈ attributes, IsValue a.2) :
    AreAttributes attributes where
  distinct := hnames ▸ hdistinct
  each a ha := ⟨hname a.1 (hnames ▸ List.mem_map_of_mem ha), hvalue a ha⟩

/-- Some of them may be left out. -/
theorem sublist {attributes some : List (String × String)} (h : AreAttributes attributes)
    (hsome : some.Sublist attributes) : AreAttributes some where
  distinct := h.distinct.sublist (hsome.map Prod.fst)
  each a ha := h.each a (hsome.subset ha)

end Markup.AreAttributes

section

variable {α : Type} [Scalar α]

theorem transformAttribute_sublist (t : Transform α) :
    (transformAttribute t).Sublist [("transform", t.text)] := by
  rw [transformAttribute]
  split
  · exact List.nil_sublist _
  · exact List.Sublist.refl _

variable (hα : PlainNumbers α)

include hα

theorem FilledRect.denotes (d : FilledRect α) : Denotes [d.markup] [d.node] := by
  refine .single (by decide)
    (.of_names (rfl : _ = ["x", "y", "width", "height", "fill"]) (by decide) (by decide) ?_)
  simp [numberAttribute, isValue_coordinate hα, d.color.isValue_css hα]

theorem FilledPath.denotes (d : FilledPath α) : Denotes [d.markup] [d.node] := by
  have hall : AreAttributes
      ([("d", d.path.data)] ++ [("transform", d.transform.text)] ++
        [("fill", d.color.css)]) := by
    refine .of_names (rfl : _ = ["d", "transform", "fill"]) (by decide) (by decide) ?_
    simp [d.path.isValue_data hα, d.transform.isValue_text hα, d.color.isValue_css hα]
  exact .single (by decide) (hall.sublist
    (((List.Sublist.refl _).append (transformAttribute_sublist _)).append (.refl _)))

theorem StrokedPath.denotes (d : StrokedPath α) (blend : BlendMode) :
    Denotes [d.markup blend] [d.node blend] := by
  have hcap : IsValue d.cap.name := by cases d.cap <;> decide
  have hall : AreAttributes ([("d", d.path.data)] ++ [("transform", d.transform.text)]
      ++ [("fill", "none"), ("stroke", d.color.css), numberAttribute "stroke-width" d.width,
        ("stroke-linecap", d.cap.name)] ++ [("style", "mix-blend-mode:multiply")]) := by
    refine .of_names (rfl : _ =
      ["d", "transform", "fill", "stroke", "stroke-width", "stroke-linecap", "style"])
      (by decide) (by decide) ?_
    have hnone : IsValue "none" := by decide
    have hstyle : IsValue "mix-blend-mode:multiply" := by decide
    simp [numberAttribute, isValue_coordinate hα, d.path.isValue_data hα,
      d.transform.isValue_text hα, d.color.isValue_css hα, hcap, hnone, hstyle]
  refine .single (by decide) (hall.sublist
    ((((List.Sublist.refl _).append (transformAttribute_sublist _)).append (.refl _)).append
      ?_))
  match blend with
  | .over => exact List.nil_sublist _
  | .multiply => exact List.Sublist.refl _

/-- **A label is an element with its text**, whatever the text looks like. -/
theorem Label.denotes (d : Label α) (htext : d.text ≠ "") : Denotes d.markup [d.node] := by
  have halign : IsValue d.align.anchor := by cases d.align <;> decide
  have hall : AreAttributes ([numberAttribute "x" d.x, numberAttribute "y" d.y,
      ("font-family", fontFamily), numberAttribute "font-size" d.fontSize,
        ("fill", d.color.css),
      ("text-anchor", d.align.anchor)] ++ [("transform", d.compression.text)]) := by
    refine .of_names (rfl : _ = ["x", "y", "font-family", "font-size", "fill", "text-anchor",
      "transform"]) (by decide) (by decide) ?_
    have hfont : IsValue fontFamily := by decide
    simp [numberAttribute, isValue_coordinate hα, d.compression.isValue_text hα,
      d.color.isValue_css hα, halign, hfont]
  refine .label (by decide) (hall.sublist ((List.Sublist.refl _).append ?_)) htext
  split
  · exact List.nil_sublist _
  · exact transformAttribute_sublist _

theorem Layer.denotes (d : Layer α) : Denotes d.markup [d.node] := by
  have hall : AreAttributes [numberAttribute "x" d.rect.x, numberAttribute "y" d.rect.y,
      ("width", toString d.pixelSize.1), ("height", toString d.pixelSize.2),
      ("style", "isolation:isolate")] := by
    refine .of_names (rfl : _ = ["x", "y", "width", "height", "style"]) (by decide)
      (by decide) ?_
    have hstyle : IsValue "isolation:isolate" := by decide
    have hwidth : IsValue d.pixelSize.1.repr := isValue_int _
    have hheight : IsValue d.pixelSize.2.repr := isValue_int _
    simp [numberAttribute, isValue_coordinate hα, hwidth, hheight, hstyle]
  have hstrokes : Denotes (d.strokes.map fun s => s.stroke.markup s.blend)
      (d.strokes.map fun s => s.stroke.node s.blend) := by
    rw [List.map_eq_flatMap]
    exact .flatMap fun s _ => s.stroke.denotes hα s.blend
  exact .element (by decide) hall hstrokes

/-- **What passes the check denotes its element.** -/
theorem Drawing.denotes {d : Drawing α} (h : d.check = .ok ()) :
    Denotes d.markup [d.node] := by
  cases d with
  | rect d => exact d.denotes hα
  | fill d => exact d.denotes hα
  | stroke d => exact d.denotes hα .over
  | text d =>
    rw [Drawing.check, Label.check, Except.andThen_eq_ok_iff, refuseIf_eq_ok_iff] at h
    exact d.denotes hα (by simpa using h.1)
  | layer d => exact d.denotes hα

omit hα in
/-- The check of a frame, whatever the numbers are. -/
theorem Frame.check_eq_ok_iff_forall {frame : Frame α} : frame.check = .ok () ↔
    frame.viewport.isValid = true ∧ ∀ d ∈ frame.drawings.toList, d.check = .ok () := by
  rw [← Except.forM_eq_ok_iff, Frame.check]
  cases frame.viewport.isValid with
  | false =>
    constructor
    · intro h
      cases h
    · rintro ⟨h, -⟩
      cases h
  | true => exact ⟨fun h => ⟨rfl, h⟩, fun h => h.2⟩

/-- **A frame that passes the check denotes its tree.** -/
theorem Frame.denotes {frame : Frame α} (h : frame.check = .ok ()) :
    Denotes frame.markup [frame.node] := by
  have hdrawings : Denotes (frame.drawings.toList.flatMap Drawing.markup)
      (frame.drawings.toList.map Drawing.node) :=
    .flatMap fun d hd => Drawing.denotes hα ((check_eq_ok_iff_forall.mp h).2 d hd)
  refine .element (by decide)
    (.of_names (rfl : _ = ["xmlns", "width", "height", "viewBox"]) (by decide) (by decide) ?_)
    hdrawings
  have hxmlns : IsValue "http://www.w3.org/2000/svg" := by decide
  have hwidth : IsValue frame.viewport.width.repr := isValue_nat _
  have hheight : IsValue frame.viewport.height.repr := isValue_nat _
  have hbox :
      IsValue ("0 0 " ++ frame.viewport.width.repr ++ " " ++ frame.viewport.height.repr) :=
    isValue_append (isValue_append (isValue_append (by decide) hwidth) (by decide)) hheight
  simp [hxmlns, hwidth, hheight, hbox]

end

/-! ### Other labels -/

mutual

/-- A tree with other texts. -/
def Node.mapText (f : String → String) : Node → Node
  | .element name attributes children => .element name attributes (mapTexts f children)
  | .text content => .text (f content)

/-- Some trees with other texts. -/
def Node.mapTexts (f : String → String) : List Node → List Node
  | [] => []
  | n :: ns => mapText f n :: mapTexts f ns

end

theorem Node.mapTexts_eq (f : String → String) (ns : List Node) :
    mapTexts f ns = ns.map (mapText f) := by
  induction ns with
  | nil => rfl
  | cons n ns ih => rw [mapTexts, ih, List.map_cons]

section

variable {α : Type} [Scalar α]

/-- A thing to draw, with another text if it is a label. -/
def Drawing.relabel (f : String → String) : Drawing α → Drawing α
  | .text d => .text { d with text := f d.text }
  | .rect d => .rect d
  | .fill d => .fill d
  | .stroke d => .stroke d
  | .layer d => .layer d

/-- A frame with other texts in its labels. -/
def Frame.relabel (f : String → String) (frame : Frame α) : Frame α :=
  { frame with drawings := frame.drawings.map (Drawing.relabel f) }

/-- The element of a label is the same but for the text. -/
theorem Drawing.node_relabel (f : String → String) (d : Drawing α) :
    (d.relabel f).node = d.node.mapText f := by
  cases d with
  | rect d => rfl
  | fill d => rfl
  | stroke d => rfl
  | text d => rfl
  | layer d =>
    -- there are no texts in a layer
    have hstrokes : Node.mapTexts f (d.strokes.map fun s => s.stroke.node s.blend) =
        d.strokes.map fun s => s.stroke.node s.blend := by
      rw [Node.mapTexts_eq, List.map_map]
      rfl
    exact congrArg (Node.element _ _) hstrokes.symm

theorem Frame.node_relabel (f : String → String) (frame : Frame α) :
    (frame.relabel f).node = frame.node.mapText f := by
  have hdrawings : (frame.relabel f).drawings.toList.map Drawing.node =
      Node.mapTexts f (frame.drawings.toList.map Drawing.node) := by
    rw [relabel, Array.toList_map, List.map_map, Node.mapTexts_eq, List.map_map]
    exact List.map_congr_left fun d _ => d.node_relabel f
  exact congrArg (Node.element _ _) hdrawings

/-- A frame passes the check with other labels too, as long as none is empty. -/
theorem Frame.check_relabel {f : String → String} (hf : ∀ s, f s ≠ "") {frame : Frame α}
    (h : frame.check = .ok ()) : (frame.relabel f).check = .ok () := by
  rw [check_eq_ok_iff_forall] at h ⊢
  refine ⟨h.1, ?_⟩
  rw [relabel, Array.toList_map, List.forall_mem_map]
  intro d hd
  have hcheck := h.2 d hd
  cases d with
  | rect d => exact hcheck
  | fill d => exact hcheck
  | stroke d => exact hcheck
  | text d =>
    have hempty : (f d.text).isEmpty = false := by simpa using hf d.text
    change Label.check _ = _ at hcheck
    show Label.check _ = _
    rw [Label.check, Except.andThen_eq_ok_iff] at hcheck ⊢
    exact ⟨refuseIf_eq_ok_iff.mpr hempty, hcheck.2⟩
  | layer d => exact hcheck

/-- **Pictures are read as the trees of their frames**: a frame that passes the check is drawn
as a document of one element, in which there is one element for each thing to draw, in order,
and the text of each label as it is.  Names and values of attributes are plain.  With other
labels, whatever they say, the tree differs in its texts only. -/
theorem Picture.reads_back (hα : PlainNumbers α) (picture : Picture) {frame : Frame α}
    (h : frame.check = .ok ()) :
    (∃ after, picture.render frame = .ok after ∧
      Node.read? after.document = some frame.node) ∧
    frame.node.Plain ∧
    ∀ f : String → String, (∀ s, f s ≠ "") →
      ∃ after, picture.render (frame.relabel f) = .ok after ∧
      Node.read? after.document = some (frame.node.mapText f) := by
  have hrender {frame : Frame α} (h : frame.check = .ok ()) :
      ∃ after, picture.render frame = .ok after ∧
        Node.read? after.document = some frame.node := by
    refine ⟨⟨Markup.document frame.markup⟩, ?_, (Frame.denotes hα h).read?⟩
    rw [render, h]
    rfl
  refine ⟨hrender h, (Frame.denotes hα h).plain _ List.mem_cons_self, fun f hf => ?_⟩
  exact frame.node_relabel f ▸ hrender (Frame.check_relabel hf h)

end

/-- A label that looks like the end of its element, a script and an entity, between
a layer and a fill. -/
theorem Picture.reads_back_script :
    let black : Color Rat := .solid 0 0 0
    let path : Path Rat := (Path.empty.moveTo 0 0).lineTo 10 (1 / 3)
    let stroke : StrokedPath Rat := ⟨path, .identity, black, 1, .butt⟩
    let frame : Frame Rat := ⟨⟨100, 50⟩, #[
      .layer ⟨⟨5, 5, 90, 40⟩, [⟨stroke, .over⟩, ⟨stroke, .multiply⟩]⟩,
      .text ⟨"</text><script x=\"1\">&lt;", 10, 20, 21 / 2, black, .center, 7 / 10⟩,
      .fill ⟨path, .upright 5 45 2 1, black⟩]⟩
    PlainNumbers Float ∧ PlainNumbers Rat ∧ frame.check = .ok () ∧
      ∃ after, Picture.render {} frame = .ok after ∧
        Node.read? after.document = some frame.node := by
  intro black path stroke frame
  have hcheck : frame.check = .ok () := by decide +kernel
  exact ⟨Double.plainNumbers, Exact.plainNumbers, hcheck,
    (reads_back Exact.plainNumbers {} hcheck).1⟩

end LineCharts
