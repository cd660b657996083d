/-
A strict reader of documents.

* `Node` — an element with its attributes and what is in it, or character data;
* `Markup.name?`, `Markup.attributes?`, `Markup.tag?` — the parts of a tag;
* `Markup.unescape?` — character data with the four entities replaced;
* `Markup.pieces?` — the pieces of a text, one behind the other;
* `Growth.take` — the tree that the pieces so far make, with the elements that are still open;
* `Node.read?` — the only element of a text.

Design notes.  The reader takes less than XML allows: there is one blank in front of an
attribute and no other, values stand between double quotes and hold neither quotes nor `<` nor
`&`, and every `&` in character data begins one of the four entities.  Each closing tag has
the name of the element that was opened last.
-/
import LineCharts.Frame.Markup
import Mathlib.Data.List.TakeWhile

namespace LineCharts

/-- A part of a document. -/
inductive Node where
  | element (name : String) (attributes : List (String × String)) (children : List Node)
  | text (content : String)

namespace Markup

/-! ### Tags -/

/-- A character of a name. -/
def isNameChar (c : Char) : Bool := c.isAlphanum || c == '-'

/-- The single quote. -/
def apostrophe : Char := Char.ofNat 39

/-- A character of the value of an attribute. -/
def isValueChar (c : Char) : Bool := c != '"' && c != apostrophe && c != '<' && c != '&'

/-- The longest name in front, and what follows. -/
def name? (cs : List Char) : Option (String × List Char) :=
  if cs.takeWhile isNameChar = [] then none
  else some (.ofList (cs.takeWhile isNameChar), cs.dropWhile isNameChar)

/-- The value between quotes in front, and what follows. -/
def value? : List Char → Option (String × List Char)
  | '"' :: cs => match cs.dropWhile isValueChar with
    | '"' :: rest => some (.ofList (cs.takeWhile isValueChar), rest)
    | _ => none
  | _ => none

/-- The attribute in front, and what follows. -/
def attribute? (cs : List Char) : Option ((String × String) × List Char) :=
  match name? cs with
  | some (name, '=' :: cs) => (value? cs).map fun (value, rest) => ((name, value), rest)
  | _ => none

theorem length_name? {cs rest : List Char} {name : String}
    (h : name? cs = some (name, rest)) :
    rest.length ≤ cs.length := by
  rw [name?] at h
  split at h
  · cases h
  · cases h
    exact List.length_dropWhile_le _ cs

theorem length_value? {cs rest : List Char} {value : String}
    (h : value? cs = some (value, rest)) :
    rest.length ≤ cs.length := by
  unfold value? at h
  split at h
  · rename_i cs
    split at h
    · rename_i rest' hrest
      have hle := List.length_dropWhile_le isValueChar cs
      rw [hrest] at hle
      cases h
      simp only [List.length_cons] at hle ⊢
      omega
    · cases h
  · cases h

theorem length_attribute? {cs rest : List Char} {a : String × String}
    (h : attribute? cs = some (a, rest)) : rest.length ≤ cs.length := by
  unfold attribute? at h
  split at h
  · rename_i name cs' hname
    obtain ⟨⟨value, rest'⟩, hvalue, hrest⟩ := Option.map_eq_some_iff.mp h
    have hle := length_name? hname
    have hle' := length_value? hvalue
    cases hrest
    rw [List.length_cons] at hle
    omega
  · cases h

/-- All attributes in front, each behind a blank, and what follows. -/
def attributes? : List Char → Option (List (String × String) × List Char)
  | ' ' :: cs => match _h : attribute? cs with
    | some (a, rest) => (attributes? rest).map fun (more, rest) => (a :: more, rest)
    | none => none
  | cs => some ([], cs)
termination_by cs => cs.length
decreasing_by exact Nat.lt_succ_of_le (length_attribute? ‹_›)

theorem length_attributes? (cs : List Char) {rest : List Char}
    {attributes : List (String × String)} (h : attributes? cs = some (attributes, rest)) :
    rest.length ≤ cs.length := by
  fun_induction attributes? cs generalizing attributes rest with
  | case1 cs a rest' ha ih =>
    obtain ⟨⟨more, rest''⟩, hmore, hrest⟩ := Option.map_eq_some_iff.mp h
    have hle := length_attribute? ha
    have hle' := ih hmore
    cases hrest
    rw [List.length_cons]
    omega
  | case2 => cases h
  | case3 =>
    cases h
    exact Nat.le_refl _

/-- The tag in front, behind its `<`, and what follows. -/
def tag? : List Char → Option (Markup × List Char)
  | '/' :: cs => match name? cs with
    | some (name, '>' :: rest) => some (.closing name, rest)
    | _ => none
  | cs => do
    let (name, cs) ← name? cs
    match ← attributes? cs with
    | (attributes, '>' :: rest) => some (.opening name attributes, rest)
    | (attributes, '/' :: '>' :: rest) => some (.single name attributes, rest)
    | _ => none

theorem length_tag? {cs rest : List Char} {piece : Markup}
    (h : tag? cs = some (piece, rest)) :
    rest.length ≤ cs.length := by
  unfold tag? at h
  split at h
  · rename_i cs
    split at h
    · rename_i name rest' hname
      have hle := length_name? hname
      cases h
      simp only [List.length_cons] at hle ⊢
      omega
    · cases h
  · obtain ⟨⟨name, cs'⟩, hname, h⟩ := Option.bind_eq_some_iff.mp h
    obtain ⟨⟨attributes, cs''⟩, hattributes, h⟩ := Option.bind_eq_some_iff.mp h
    have hle := length_name? hname
    have hle' := length_attributes? cs' hattributes
    split at h
    · rename_i heq
      cases heq
      cases h
      rw [List.length_cons] at hle'
      omega
    · rename_i heq
      cases heq
      cases h
      simp only [List.length_cons] at hle'
      omega
    · cases h

/-! ### Character data -/

/-- Character data with the entities replaced. -/
def unescape? : List Char → Option (List Char)
  | [] => some []
  | '&' :: 'a' :: 'm' :: 'p' :: ';' :: cs => (unescape? cs).map ('&' :: ·)
  | '&' :: 'l' :: 't' :: ';' :: cs => (unescape? cs).map ('<' :: ·)
  | '&' :: 'g' :: 't' :: ';' :: cs => (unescape? cs).map ('>' :: ·)
  | '&' :: 'q' :: 'u' :: 'o' :: 't' :: ';' :: cs => (unescape? cs).map ('"' :: ·)
  | '&' :: _ => none
  | c :: cs => (unescape? cs).map (c :: ·)

/-- A character that is not the start of a tag. -/
def isData (c : Char) : Bool := c != '<'

/-- The pieces of a text: tags, and character data up to the next one. -/
def pieces? : List Char → Option (List Markup)
  | [] => some []
  | '<' :: cs => match _h : tag? cs with
    | some (piece, rest) => (pieces? rest).map (piece :: ·)
    | none => none
  | c :: cs => do
    let content ← unescape? (c :: cs.takeWhile isData)
    let rest ← pieces? (cs.dropWhile isData)
    return .text (.ofList content) :: rest
termination_by cs => cs.length
decreasing_by
  · exact Nat.lt_succ_of_le (length_tag? ‹_›)
  · exact Nat.lt_succ_of_le (List.length_dropWhile_le _ _)

end Markup

/-! ### Trees -/

/-- The tree that the pieces so far make. -/
structure Growth where
  /-- The elements that are open around this one, the inner ones first: name, attributes, and
  what stands in front of each in the element around it. -/
  enclosing : List (String × List (String × String) × List Node)
  /-- What is in the innermost element so far. -/
  children : List Node

namespace Growth

/-- Nothing so far. -/
def start : Growth := ⟨[], []⟩

/-- Puts nodes into the innermost element. -/
def add (g : Growth) (nodes : List Node) : Growth :=
  { g with children := g.children ++ nodes }

/-- Takes one piece.  A closing tag has the name of the innermost element. -/
def take (g : Growth) : Markup → Option Growth
  | .opening name attributes => some ⟨(name, attributes, g.children) :: g.enclosing, []⟩
  | .closing name => match g.enclosing with
    | (opened, attributes, front) :: enclosing =>
      if name = opened then some ⟨enclosing, front ++ [.element name attributes g.children]⟩
      else none
    | [] => none
  | .single name attributes => some (g.add [.element name attributes []])
  | .text content => some (g.add [.text content])

/-- Takes some pieces. -/
def run (g : Growth) (pieces : List Markup) : Option Growth := pieces.foldlM take g

end Growth

/-- The element that a text consists of: all that is opened is closed, and there
is nothing beside it. -/
def Node.read? (document : String) : Option Node := do
  let pieces ← Markup.pieces? document.toList
  match ← Growth.start.run pieces with
  | ⟨[], [.element name attributes children]⟩ => some (.element name attributes children)
  | _ => none

end LineCharts
