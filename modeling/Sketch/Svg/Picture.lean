import Sketch.Preview
import Sketch.Svg.Node

/-!
A preview as a vector graphics document: the background, the arrow heads that its lines refer to,
and a node for every primitive.
-/

namespace Sketch.Svg

/-- How a picture is painted. -/
structure Paint where
  background : Color
  fontSize : Float

/-- At 96 pixels to the inch. -/
def pixelsPerMm : Float := 96 / 25.4

def gridColor : String := "#d9d9d9"

def axisColor : String := "#808080"

/-- The side of a line that an arrow head belongs to. -/
inductive LineEnd
  | start
  | stop
  deriving DecidableEq, Repr

/-- An arrow head of one color for one end of lines. -/
structure Marker where
  lineEnd : LineEnd
  color : Color
  deriving DecidableEq

namespace Marker

def id (m : Marker) : String :=
  match m.lineEnd with
  | .start => "arrow-start-" ++ m.color.hex
  | .stop => "arrow-end-" ++ m.color.hex

def reference (m : Marker) : String := "url(#" ++ m.id ++ ")"

def node (m : Marker) : Node :=
  let (tip, outline) := match m.lineEnd with
    | .start => ("1", "M 10 0 L 0 5 L 10 10 z")
    | .stop => ("9", "M 0 0 L 10 5 L 0 10 z")
  .element "marker"
    [("id", m.id), ("viewBox", "0 0 10 10"), ("refX", tip), ("refY", "5"), ("markerWidth", "6"),
      ("markerHeight", "6"), ("orient", "auto")]
    [.element "path" [("d", outline), ("fill", m.color.css)] []]

/-- The arrow heads of a line with some style, the one at its start first. -/
def ofStyle (s : Style) : List Marker :=
  (if s.arrowHead.hasStart then [⟨.start, s.color⟩] else []) ++
  (if s.arrowHead.hasEnd then [⟨.stop, s.color⟩] else [])

/-- Adds a marker that is not there yet. -/
def addNew (ms : List Marker) (m : Marker) : List Marker := if m ∈ ms then ms else ms ++ [m]

/-- The markers that lines refer to, each once, in the order of their first use. -/
def ofPrimitives (ps : List Primitive) : List Marker :=
  let used := ps.flatMap fun
    | .line _ _ style => ofStyle style
    | _ => []
  used.foldl addNew []

/-- The definitions of the markers, if there are any. -/
def definitions (ps : List Primitive) : List Node :=
  match ofPrimitives ps with
  | [] => []
  | ms => [.element "defs" [] (ms.map node)]

end Marker

def number (name : String) (x : Float) : String × String := (name, Number.text x)

/-- The attributes of a stroke. -/
def stroke (s : Style) : List (String × String) :=
  [("stroke", s.color.css), number "stroke-opacity" s.opacity.fraction,
    number "stroke-width" (s.lineWidth.mm * pixelsPerMm)] ++
  (s.lineStyle.dashes?.map fun d => ("stroke-dasharray", d)).toList

/-- The attributes of the inside. -/
def inside (s : Style) : List (String × String) :=
  match s.fill with
  | some c => [("fill", c.css), number "fill-opacity" s.opacity.fraction]
  | none => [("fill", "none")]

def ends (p q : Point) : List (String × String) :=
  [number "x1" p.x, number "y1" p.y, number "x2" q.x, number "y2" q.y]

def Marker.attribute (m : Marker) : String × String :=
  match m.lineEnd with
  | .start => ("marker-start", m.reference)
  | .stop => ("marker-end", m.reference)

/-- Points as pairs with spaces between them. -/
def points (ps : List Point) : String :=
  " ".intercalate (ps.map fun p => Number.text p.x ++ "," ++ Number.text p.y)

def polyline (style : Style) (ps : List Point) : Node :=
  .element "polyline" ([("points", points ps), ("fill", "none")] ++ stroke style) []

/-- The node of a primitive. The content of a label comes after an empty text. -/
def ofPrimitive (paint : Paint) : Primitive → Node
  | .circle center radius style =>
    .element "circle"
      ([number "cx" center.x, number "cy" center.y, number "r" radius] ++ stroke style ++
        inside style) []
  | .rectangle origin size style =>
    .element "rect"
      ([number "x" origin.x, number "y" origin.y, number "width" size.width,
        number "height" size.height] ++ stroke style ++ inside style) []
  | .line start stop style =>
    .element "line"
      (ends start stop ++ stroke style ++ (Marker.ofStyle style).map Marker.attribute) []
  | .gridLine start stop =>
    .element "line"
      (ends start stop ++
        [("stroke", gridColor), ("stroke-width", "0.5"), ("stroke-dasharray", "5,5")]) []
  | .label position content style =>
    .element "text"
      [number "x" position.x, number "y" position.y, ("text-anchor", "middle"),
        ("dominant-baseline", "central"), number "font-size" paint.fontSize,
        ("fill", style.color.css), number "fill-opacity" style.opacity.fraction]
      [.text "", .text content]
  | .curve pieces style =>
    .element "g" [] ((pieces.filter (!·.isEmpty)).map (polyline style))
  | .axis start stop =>
    .element "line" (ends start stop ++ [("stroke", axisColor), ("stroke-width", "1")]) []

def background (paint : Paint) : Node :=
  .element "rect" [("width", "100%"), ("height", "100%"), ("fill", paint.background.css)] []

/-- The document of a preview. -/
def ofPreview (paint : Paint) (p : Preview) : Node :=
  let size := p.viewport.size
  .element "svg"
    [("xmlns", "http://www.w3.org/2000/svg"),
      ("viewBox", "0 0 " ++ Number.text size.width ++ " " ++ Number.text size.height),
      number "width" size.width, number "height" size.height]
    (background paint :: Marker.definitions p.primitives ++ p.primitives.map (ofPrimitive paint))

end Sketch.Svg
