/-!
Vector graphics documents as trees, and how they are written. The attributes of an element stand in
the order of their names.
-/

namespace Sketch.Svg

inductive Node
  | element (name : String) (attributes : List (String × String)) (children : List Node)
  | text (content : String)

namespace Node

/-- The characters with a meaning in a document. -/
def escapeChar : Char → List Char
  | '&' => "&amp;".toList
  | '<' => "&lt;".toList
  | '>' => "&gt;".toList
  | c => [c]

def escape (s : String) : String := .ofList (s.toList.flatMap escapeChar)

def writeAttribute (a : String × String) : String := " " ++ a.1 ++ "=\"" ++ escape a.2 ++ "\""

def writeAttributes (attributes : List (String × String)) : String :=
  String.join ((attributes.mergeSort fun a b => a.1 ≤ b.1).map writeAttribute)

mutual

/-- An element without children is one tag; otherwise each child stands on a line of its own. -/
def write : Node → String
  | .text content => escape content
  | .element name attributes [] => "<" ++ name ++ writeAttributes attributes ++ "/>"
  | .element name attributes (child :: children) =>
    "<" ++ name ++ writeAttributes attributes ++ ">" ++ "\n" ++ child.write ++ writeAll children ++
      "\n</" ++ name ++ ">"

def writeAll : List Node → String
  | [] => ""
  | child :: children => "\n" ++ child.write ++ writeAll children

end

end Node

end Sketch.Svg
