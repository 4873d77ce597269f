/-!
Points and sizes, and the viewport that maps drawing coordinates, with `y` pointing up, to pixels,
with `y` pointing down.
-/

namespace Sketch

structure Point where
  x : Float
  y : Float
  deriving BEq, DecidableEq

namespace Point

def add (p q : Point) : Point := ⟨p.x + q.x, p.y + q.y⟩

def sub (p q : Point) : Point := ⟨p.x - q.x, p.y - q.y⟩

def scale (p : Point) (factor : Float) : Point := ⟨p.x * factor, p.y * factor⟩

def isFinite (p : Point) : Bool := p.x.isFinite && p.y.isFinite

end Point

structure Size where
  width : Float
  height : Float
  deriving BEq, DecidableEq

/-- A canvas of `size` pixels. `origin` is the pixel of the drawing's origin, and `scale` the number
of pixels to a unit. -/
structure Viewport where
  size : Size
  origin : Point
  scale : Float
  deriving BEq, DecidableEq

namespace Viewport

def defaultSize : Size := ⟨500, 400⟩

def defaultScale : Float := 40

/-- The viewport with its origin at the center of the canvas. -/
def centered (size : Size) (scale : Float) : Viewport :=
  ⟨size, ⟨size.width / 2, size.height / 2⟩, scale⟩

def standard : Viewport := centered defaultSize defaultScale

def toPixel (v : Viewport) (p : Point) : Point :=
  ⟨v.origin.x + p.x * v.scale, v.origin.y - p.y * v.scale⟩

def toLogical (v : Viewport) (p : Point) : Point :=
  ⟨(p.x - v.origin.x) / v.scale, (v.origin.y - p.y) / v.scale⟩

def toPixelLength (v : Viewport) (length : Float) : Float := length * v.scale

/-- The drawing coordinates of the canvas from left to right. -/
def xRange (v : Viewport) : Float × Float :=
  ((v.toLogical ⟨0, 0⟩).x, (v.toLogical ⟨v.size.width, 0⟩).x)

/-- The drawing coordinates of the canvas from bottom to top. -/
def yRange (v : Viewport) : Float × Float :=
  ((v.toLogical ⟨0, v.size.height⟩).y, (v.toLogical ⟨0, 0⟩).y)

end Viewport

end Sketch
