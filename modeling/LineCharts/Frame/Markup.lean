/-
Markup text.

* `Markup` is one piece of a document: a tag that opens or closes an element, an element
  without content, or text.
* `Markup.write` writes a piece, `Markup.document` a chain of pieces.

Design notes. Text is escaped, so it holds no `<` and no bare `&`. Names and attribute values
are written as they are; those of pictures are numbers, names and path data.
-/

namespace LineCharts

/-- A piece of a document. -/
inductive Markup where
  | opening (name : String) (attributes : List (String × String))
  | closing (name : String)
  | single (name : String) (attributes : List (String × String))
  | text (content : String)
deriving DecidableEq

namespace Markup

/-- A character of a text as it is written. -/
def escapeChar : Char → List Char
  | '&' => "&amp;".toList
  | '<' => "&lt;".toList
  | '>' => "&gt;".toList
  | '"' => "&quot;".toList
  | c => [c]

/-- A text as it is written. -/
def escape (content : String) : String := String.ofList (content.toList.flatMap escapeChar)

/-- An escaped character can neither open a tag nor end an attribute. -/
theorem not_mem_escapeChar (c : Char) :
    '<' ∉ escapeChar c ∧ '>' ∉ escapeChar c ∧ '"' ∉ escapeChar c := by
  fun_cases escapeChar c with
  | case1 | case2 | case3 | case4 => decide
  | case5 => simp_all [eq_comm]

/-- Nor can an escaped text. -/
theorem not_mem_escape (content : String) :
    '<' ∉ (escape content).toList ∧ '>' ∉ (escape content).toList ∧
      '"' ∉ (escape content).toList := by
  simp only [escape, String.toList_ofList, List.mem_flatMap, not_exists, not_and]
  exact ⟨fun c _ => (not_mem_escapeChar c).1, fun c _ => (not_mem_escapeChar c).2.1,
    fun c _ => (not_mem_escapeChar c).2.2⟩

/-- An attribute as it is written, with the blank in front of it. -/
def attributeText (a : String × String) : String := " " ++ a.1 ++ "=\"" ++ a.2 ++ "\""

/-- The inside of a tag. -/
def tag (name : String) (attributes : List (String × String)) : String :=
  name ++ String.join (attributes.map attributeText)

/-- A piece as it is written. -/
def write : Markup → String
  | opening name attributes => "<" ++ tag name attributes ++ ">"
  | closing name => "</" ++ name ++ ">"
  | single name attributes => "<" ++ tag name attributes ++ "/>"
  | text content => escape content

/-- A chain of pieces as it is written. -/
def document (pieces : List Markup) : String := String.join (pieces.map write)

end Markup

end LineCharts
