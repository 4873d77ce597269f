import Sketch.Geometry
import Sketch.Style
import Sketch.Text.Braces

/-!
What a scene is made of: shapes, labels and plots, each with a style.
-/

namespace Sketch

inductive Kind
  | shape
  | text
  | plot
  deriving DecidableEq, Repr

def Kind.name : Kind → String
  | .shape => "shape"
  | .text => "text"
  | .plot => "plot"

inductive Shape
  | circle (center : Point) (radius : Float)
  /-- The opposite corner is `width` and `height` away from the origin, in either direction. -/
  | rectangle (origin : Point) (width height : Float)
  | line (start stop : Point)
  /-- Lines one unit apart between two opposite corners. -/
  | grid (corner opposite : Point)
  deriving BEq

def Shape.name : Shape → String
  | .circle .. => "circle"
  | .rectangle .. => "rectangle"
  | .line .. => "line"
  | .grid .. => "grid"

/-- A text at a point. Any text may be given; `content` is its form in code. -/
structure Label where
  position : Point
  text : String

namespace Label

/-- The text in the form in which it stands between braces. -/
def content (l : Label) : String := .ofList (Braces.escape l.text.toList)

/-- The content as it is read in the typeset picture. -/
def plain (l : Label) : String := .ofList (Braces.plain l.content.toList)

/-- Labels are the same when their contents are. -/
instance : BEq Label := ⟨fun a b => a.position == b.position && a.content == b.content⟩

end Label

structure Domain where
  min : Float
  max : Float
  deriving BEq

/-- The bounds in ascending order. -/
def Domain.ordered (d : Domain) : Domain := if d.min ≤ d.max then d else ⟨d.max, d.min⟩

/-- What the plots of one axis block share. -/
structure Axis where
  domain : Domain := ⟨-5, 5⟩
  samples : UInt32 := 100
  visible : Bool := true
  deriving BEq

/-- The curve of a function of `x`, given as source text. -/
structure Plot where
  expression : String
  axis : Axis := {}
  deriving BEq

inductive Figure
  | shape (s : Shape)
  | label (l : Label)
  | plot (p : Plot)
  deriving BEq

def Figure.kind : Figure → Kind
  | .shape _ => .shape
  | .label _ => .text
  | .plot _ => .plot

structure Element where
  figure : Figure
  style : Style := {}
  deriving BEq

namespace Element

def kind (e : Element) : Kind := e.figure.kind

def isPlot (e : Element) : Bool := e.kind = .plot

def plot? (e : Element) : Option Plot :=
  match e.figure with
  | .plot p => some p
  | _ => none

end Element

end Sketch
