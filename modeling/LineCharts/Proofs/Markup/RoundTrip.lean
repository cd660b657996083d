/-
Documents are read as the trees that they were written from.

* `Markup.IsName`, `Markup.IsValue` — what may be written as a name, or as the
  value of an attribute;
* `Node.Plain` — a tree all of whose tags hold such names and values;
* `Markup.unescape?_escape` — escaped text is read as the text, whatever it looks like;
* `Markup.Denotes` — some pieces are read as some nodes, whatever follows them
  and wherever they stand;
* `Markup.Denotes.append`, `Markup.Denotes.element` and the like — so
  documents are put together;
* `Markup.Denotes.read?` — a document whose pieces denote one element is read as this element.

Design notes.  Character data ends at the next tag, so a text is read together
with the tag behind it.
-/
import LineCharts.Proofs.Markup.Reader

namespace LineCharts

namespace Markup

/-- A text that may stand as a name. -/
def IsName (s : String) : Prop := s.toList ≠ [] ∧ ∀ c ∈ s.toList, isNameChar c = true

/-- A text that may stand as the value of an attribute: it has neither `<`
nor `&` nor quotes. -/
def IsValue (s : String) : Prop := ∀ c ∈ s.toList, isValueChar c = true

instance (s : String) : Decidable (IsValue s) :=
  decidable_of_iff (s.toList.all isValueChar = true) List.all_eq_true

instance (s : String) : Decidable (IsName s) :=
  decidable_of_iff (s.toList.isEmpty = false ∧ s.toList.all isNameChar = true)
    (and_congr List.isEmpty_eq_false_iff List.all_eq_true)

/-- Attributes that may stand in a tag: no two have the same name. -/
structure AreAttributes (attributes : List (String × String)) : Prop where
  distinct : (attributes.map Prod.fst).Nodup
  each : ∀ a ∈ attributes, IsName a.1 ∧ IsValue a.2

end Markup

/-- All attributes of a tree may stand in tags. -/
inductive Node.Plain : Node → Prop
  | element {name : String} {attributes : List (String × String)} {children : List Node} :
      Markup.IsName name → Markup.AreAttributes attributes → (∀ n ∈ children, n.Plain) →
        Plain (.element name attributes children)
  | text {content : String} : Plain (.text content)

namespace Markup

/-! ### Tags -/

theorem takeWhile_append_cons {p : Char → Bool} {cs : List Char} (hcs : ∀ c ∈ cs, p c = true)
    {d : Char} (hd : p d = false) (rest : List Char) :
    (cs ++ d :: rest).takeWhile p = cs := by
  rw [List.takeWhile_append_of_pos hcs, List.takeWhile_cons_of_neg (by simp [hd]),
    List.append_nil]

theorem dropWhile_append_cons {p : Char → Bool} {cs : List Char} (hcs : ∀ c ∈ cs, p c = true)
    {d : Char} (hd : p d = false) (rest : List Char) :
    (cs ++ d :: rest).dropWhile p = d :: rest := by
  rw [List.dropWhile_append_of_pos hcs, List.dropWhile_cons_of_neg (by simp [hd])]

/-- A name is read up to the first character that is none of a name. -/
theorem name?_append {name : String} (h : IsName name) {d : Char} (hd : isNameChar d = false)
    (rest : List Char) : name? (name.toList ++ d :: rest) = some (name, d :: rest) := by
  rw [name?, takeWhile_append_cons h.2 hd, dropWhile_append_cons h.2 hd, if_neg h.1,
    String.ofList_toList]

theorem value?_append {value : String} (h : IsValue value) (rest : List Char) :
    value? ('"' :: (value.toList ++ '"' :: rest)) = some (value, rest) := by
  have hquote : isValueChar '"' = false := by decide
  rw [value?, dropWhile_append_cons h hquote, takeWhile_append_cons h hquote]
  exact congrArg (fun v => some (v, rest)) String.ofList_toList

theorem toList_attributeText (a : String × String) :
    (attributeText a).toList =
      ' ' :: (a.1.toList ++ '=' :: '"' :: (a.2.toList ++ ['"'])) := by
  simp [attributeText]

theorem attribute?_append {a : String × String} (hname : IsName a.1) (hvalue : IsValue a.2)
    (rest : List Char) :
    attribute? (a.1.toList ++ '=' :: '"' :: (a.2.toList ++ '"' :: rest)) =
      some (a, rest) := by
  have hequals : isNameChar '=' = false := by decide
  rw [attribute?, name?_append hname hequals]
  simp [value?_append hvalue]

theorem attributes?_stop {rest : List Char} (hrest : rest.head? ≠ some ' ') :
    attributes? rest = some ([], rest) := by
  rw [attributes?]
  rintro cs rfl
  exact hrest rfl

/-- Attributes are read up to the end of the tag. -/
theorem attributes?_append {attributes : List (String × String)}
    (h : ∀ a ∈ attributes, IsName a.1 ∧ IsValue a.2) {rest : List Char}
    (hrest : rest.head? ≠ some ' ') :
    attributes? (attributes.flatMap (fun a => (attributeText a).toList) ++ rest) =
      some (attributes, rest) := by
  induction attributes with
  | nil => exact attributes?_stop hrest
  | cons a attributes ih =>
    obtain ⟨⟨hname, hvalue⟩, hattributes⟩ := List.forall_mem_cons.mp h
    have hfirst := attribute?_append hname hvalue
      (attributes.flatMap (fun a => (attributeText a).toList) ++ rest)
    rw [List.flatMap_cons, toList_attributeText]
    simp only [List.cons_append, List.append_assoc, List.nil_append]
    rw [attributes?]
    split
    · rename_i heq
      cases hfirst.symm.trans heq
      rw [ih hattributes, Option.map_some]
    · rename_i heq
      cases hfirst.symm.trans heq

theorem toList_tag (name : String) (attributes : List (String × String)) (rest : List Char) :
    (tag name attributes).toList ++ rest =
      name.toList ++ (attributes.flatMap (fun a => (attributeText a).toList) ++ rest) := by
  rw [tag, String.toList_append, String.toList_join, List.flatMap_map, List.append_assoc]

/-- In a tag, a name ends in front of the first blank, or in front of the end of the tag. -/
theorem name?_tag {name : String} (hname : IsName name) (attributes : List (String × String))
    {d : Char} (hd : isNameChar d = false) (rest : List Char) :
    name? ((tag name attributes).toList ++ d :: rest) =
      some (name, attributes.flatMap (fun a => (attributeText a).toList) ++ d :: rest) := by
  rw [toList_tag]
  cases attributes with
  | nil => exact name?_append hname hd rest
  | cons a attributes =>
    have hblank : isNameChar ' ' = false := by decide
    simp only [List.flatMap_cons, toList_attributeText, List.cons_append]
    exact name?_append hname hblank _

/-- A name is no slash. -/
theorem head_tag {name : String} (hname : IsName name) (attributes : List (String × String))
    (rest cs : List Char) : (tag name attributes).toList ++ rest ≠ '/' :: cs := by
  obtain ⟨hne, hchars⟩ := hname
  rw [toList_tag]
  intro h
  cases hs : name.toList with
  | nil => exact hne hs
  | cons c rest =>
    rw [hs] at h hchars
    obtain rfl : c = '/' := (List.cons.inj h).1
    exact absurd (hchars '/' List.mem_cons_self) (by decide)

section

variable {name : String} (hname : IsName name) {attributes : List (String × String)}
  (hattributes : AreAttributes attributes) (rest : List Char)

include hname

theorem tag?_closing :
    tag? ('/' :: (name.toList ++ '>' :: rest)) = some (.closing name, rest) := by
  have hend : isNameChar '>' = false := by decide
  simp [tag?, name?_append hname hend]

include hattributes

theorem tag?_opening : tag? ((tag name attributes).toList ++ '>' :: rest) =
    some (.opening name attributes, rest) := by
  have hend : isNameChar '>' = false := by decide
  have hread := @attributes?_append _ hattributes.each ('>' :: rest) (by simp)
  rw [tag?.eq_2 _ (head_tag hname attributes _), name?_tag hname attributes hend]
  simp [hread]

theorem tag?_single : tag? ((tag name attributes).toList ++ '/' :: '>' :: rest) =
    some (.single name attributes, rest) := by
  have hend : isNameChar '/' = false := by decide
  have hread := @attributes?_append _ hattributes.each ('/' :: '>' :: rest) (by simp)
  rw [tag?.eq_2 _ (head_tag hname attributes _), name?_tag hname attributes hend]
  simp [hread]

end

/-! ### Character data -/

/-- **Escaped text is read as the text**, also if it looks like tags or entities. -/
theorem unescape?_escape (cs : List Char) : unescape? (cs.flatMap escapeChar) = some cs := by
  induction cs with
  | nil => rfl
  | cons c cs ih =>
    rw [List.flatMap_cons]
    fun_cases escapeChar c with
    | case1 => exact congrArg (Option.map _) ih
    | case2 => exact congrArg (Option.map _) ih
    | case3 => exact congrArg (Option.map _) ih
    | case4 => exact congrArg (Option.map _) ih
    | case5 => simp_all [unescape?]

/-! ### Pieces -/

theorem pieces?_tag {cs rest : List Char} {piece : Markup}
    (h : tag? cs = some (piece, rest)) :
    pieces? ('<' :: cs) = (pieces? rest).map (piece :: ·) := by
  rw [pieces?]
  split
  · rename_i heq
    cases h.symm.trans heq
    rfl
  · rename_i heq
    cases h.symm.trans heq

/-- Character data is read up to the tag behind it. -/
theorem pieces?_text {content : String} (h : content ≠ "") (rest : List Char) :
    pieces? ((escape content).toList ++ '<' :: rest) =
      (pieces? ('<' :: rest)).map (.text content :: ·) := by
  have hdata : ∀ c ∈ (escape content).toList, isData c = true := fun c hc =>
    bne_iff_ne.mpr fun heq => (not_mem_escape content).1 (heq ▸ hc)
  have hread : unescape? (escape content).toList = some content.toList := by
    rw [escape, String.toList_ofList, unescape?_escape]
  have hend : isData '<' = false := by decide
  cases hcs : (escape content).toList with
  | nil =>
    -- nothing is read as an empty text
    rw [hcs] at hread
    exact absurd (String.toList_eq_nil_iff.mp (Option.some.inj hread).symm) h
  | cons c cs =>
    rw [hcs, List.forall_mem_cons] at hdata
    rw [hcs] at hread
    have hc : c ≠ '<' := bne_iff_ne.mp hdata.1
    rw [List.cons_append, pieces?.eq_3 _ _ hc, takeWhile_append_cons hdata.2 hend,
      dropWhile_append_cons hdata.2 hend, hread]
    simp only [Option.bind_eq_bind, Option.bind_some, String.ofList_toList]
    cases pieces? ('<' :: rest) <;> rfl

/-! ### Trees -/

/-- Pieces as they are written, one behind the other. -/
def chars (pieces : List Markup) : List Char := pieces.flatMap fun p => p.write.toList

theorem toList_document (pieces : List Markup) : (document pieces).toList = chars pieces := by
  rw [document, String.toList_join, List.flatMap_map, chars]

/-- The pieces are read as they are, whatever follows them, and they make these nodes,
wherever they stand. -/
structure Denotes (pieces : List Markup) (nodes : List Node) : Prop where
  reads : ∀ rest, pieces? (chars pieces ++ rest) = (pieces? rest).map (pieces ++ ·)
  grows : ∀ g : Growth, g.run pieces = some (g.add nodes)
  plain : ∀ n ∈ nodes, n.Plain

namespace Denotes

variable {pieces pieces' : List Markup} {nodes nodes' : List Node} {name : String}
  {attributes : List (String × String)}

theorem nil : Denotes [] [] where
  reads rest := by simp [chars]
  grows g := by simp [Growth.run, Growth.add]
  plain := nofun

theorem append (h : Denotes pieces nodes) (h' : Denotes pieces' nodes') :
    Denotes (pieces ++ pieces') (nodes ++ nodes') where
  reads rest := by
    rw [chars, List.flatMap_append, List.append_assoc, ← chars, ← chars, h.reads, h'.reads,
      Option.map_map]
    simp [Function.comp_def]
  grows g := by
    rw [Growth.run, List.foldlM_append, ← Growth.run, h.grows]
    exact (h'.grows (g.add nodes)).trans (by simp [Growth.add])
  plain := List.forall_mem_append.mpr ⟨h.plain, h'.plain⟩

section

variable (hname : IsName name) (hattributes : AreAttributes attributes)

include hname hattributes

theorem single : Denotes [.single name attributes] [.element name attributes []] where
  reads rest := by
    have hchars : chars [.single name attributes] ++ rest =
        '<' :: ((tag name attributes).toList ++ '/' :: '>' :: rest) := by
      simp [chars, write]
    rw [hchars, pieces?_tag (tag?_single hname hattributes rest)]
    rfl
  grows g := rfl
  plain := List.forall_mem_singleton.mpr (.element hname hattributes nofun)

/-- **An element around something.** -/
theorem element (h : Denotes pieces nodes) :
    Denotes (.opening name attributes :: pieces ++ [.closing name])
      [.element name attributes nodes] where
  reads rest := by
    have hchars : chars (.opening name attributes :: pieces ++ [.closing name]) ++ rest =
        '<' :: ((tag name attributes).toList ++ '>' ::
          (chars pieces ++ '<' :: '/' :: (name.toList ++ '>' :: rest))) := by
      simp [chars, write]
    rw [hchars, pieces?_tag (tag?_opening hname hattributes _), h.reads,
      pieces?_tag (tag?_closing hname rest)]
    simp [Function.comp_def]
  grows g := by
    -- inside, nothing stands in front of the children
    have hinside := h.grows ⟨(name, attributes, g.children) :: g.enclosing, []⟩
    rw [Growth.run] at hinside
    rw [Growth.run, List.cons_append, List.foldlM_cons]
    simp [Growth.take, hinside, Growth.add]
  plain := List.forall_mem_singleton.mpr (.element hname hattributes h.plain)

/-- **An element around a text**, whatever the text looks like. -/
theorem label {content : String} (hcontent : content ≠ "") :
    Denotes [.opening name attributes, .text content, .closing name]
      [.element name attributes [.text content]] where
  reads rest := by
    have hchars : chars [.opening name attributes, .text content, .closing name] ++ rest =
        '<' :: ((tag name attributes).toList ++ '>' ::
          ((escape content).toList ++ '<' :: '/' :: (name.toList ++ '>' :: rest))) := by
      simp [chars, write]
    rw [hchars, pieces?_tag (tag?_opening hname hattributes _), pieces?_text hcontent,
      pieces?_tag (tag?_closing hname rest)]
    simp [Function.comp_def]
  grows g := by
    simp [Growth.run, Growth.take, Growth.add]
  plain := List.forall_mem_singleton.mpr
    (.element hname hattributes (List.forall_mem_singleton.mpr .text))

end

/-- Things that are written one behind the other. -/
theorem flatMap {σ : Type} {markup : σ → List Markup} {node : σ → Node} {ds : List σ}
    (h : ∀ d ∈ ds, Denotes (markup d) [node d]) :
    Denotes (ds.flatMap markup) (ds.map node) := by
  induction ds with
  | nil => exact nil
  | cons d ds ih =>
    obtain ⟨hd, hds⟩ := List.forall_mem_cons.mp h
    rw [List.flatMap_cons, List.map_cons]
    exact hd.append (ih hds)

/-- **A document that denotes an element is read as this element.** -/
theorem read? {children : List Node}
    (h : Denotes pieces [.element name attributes children]) :
    Node.read? (document pieces) = some (.element name attributes children) := by
  have hreads := h.reads []
  rw [List.append_nil, ← toList_document] at hreads
  rw [Node.read?, hreads]
  simp [pieces?, h.grows, Growth.start, Growth.add]

end Denotes

end Markup

end LineCharts
