import Sketch.Code.Document
import Sketch.Expr.Curve

/-!
The picture of a scene in pixels: what is drawn for the elements that are no plots, then two axes if
the first plot shows them, then a curve for every plot whose formula can be read.
-/

namespace Sketch

inductive Primitive
  | circle (center : Point) (radius : Float) (style : Style)
  /-- The origin is the upper left corner. -/
  | rectangle (origin : Point) (size : Size) (style : Style)
  | line (start stop : Point) (style : Style)
  | gridLine (start stop : Point)
  | label (position : Point) (content : String) (style : Style)
  | curve (pieces : Curve) (style : Style)
  | axis (start stop : Point)

/-- A plot whose formula was turned down. -/
structure PlotFailure where
  id : ElementId
  expression : String
  rejection : Rejection

structure Preview where
  viewport : Viewport
  primitives : List Primitive
  failures : List PlotFailure

namespace Preview

/-- A grid that needs more lines than this is not drawn. -/
def maxGridLines : Nat := 2000

/-- The floats from `x` to `stop` in steps of one. There are none to give when the limit does not
suffice: among very large floats a step of one leads nowhere, and then the steps never end. -/
def unitSteps? (stop : Float) : (limit : Nat) → (x : Float) → Option (List Float)
  | limit, x =>
    if x ≤ stop then
      match limit with
      | 0 => none
      | limit + 1 => (unitSteps? stop limit (x + 1)).map (x :: ·)
    else some []

/-- The visible part of a grid, from `left` to `right` and from `bottom` to `top`. -/
structure Extent where
  left : Float
  right : Float
  bottom : Float
  top : Float

/-- The extent between two corners, cut off at the first whole coordinates outside the canvas. -/
def Extent.visible (v : Viewport) (p q : Point) : Extent where
  left := Number.larger (Number.smaller p.x q.x) (Number.floor v.xRange.1)
  right := Number.smaller (Number.larger p.x q.x) (Number.ceil v.xRange.2)
  bottom := Number.larger (Number.smaller p.y q.y) (Number.floor v.yRange.1)
  top := Number.smaller (Number.larger p.y q.y) (Number.ceil v.yRange.2)

/-- How many whole numbers lie between two bounds. -/
def wholeNumbers (low high : Float) : Float :=
  Number.larger (Number.floor high - Number.ceil low + 1) 0

def Extent.lineCount (e : Extent) : Float := wholeNumbers e.left e.right + wholeNumbers e.bottom e.top

/-- The lines of a grid at the whole coordinates. -/
def gridLines? (v : Viewport) (p q : Point) : Option (List Primitive) :=
  let e := Extent.visible v p q
  if ¬ (e.left ≤ e.right ∧ e.bottom ≤ e.top) ∨ .ofNat maxGridLines < e.lineCount then some []
  else do
    let xs ← unitSteps? e.right maxGridLines (Number.ceil e.left)
    let ys ← unitSteps? e.top maxGridLines (Number.ceil e.bottom)
    return xs.map (fun x => .gridLine (v.toPixel ⟨x, e.bottom⟩) (v.toPixel ⟨x, e.top⟩)) ++
      ys.map (fun y => .gridLine (v.toPixel ⟨e.left, y⟩) (v.toPixel ⟨e.right, y⟩))

/-- A rectangle between two pixels. -/
def box (p q : Point) (style : Style) : Primitive :=
  .rectangle ⟨Number.smaller p.x q.x, Number.smaller p.y q.y⟩
    ⟨(p.x - q.x).abs, (p.y - q.y).abs⟩ style

/-- What is drawn for a shape. -/
def ofShape? (v : Viewport) (style : Style) : Shape → Option (List Primitive)
  | .circle center radius => some [.circle (v.toPixel center) (v.toPixelLength radius.abs) style]
  | .rectangle origin width height =>
    some [box (v.toPixel origin) (v.toPixel (origin.add ⟨width, height⟩)) style]
  | .line start stop => some [.line (v.toPixel start) (v.toPixel stop) style]
  | .grid corner opposite => gridLines? v corner opposite

/-- What is drawn for an element that is no plot. -/
def ofElement? (v : Viewport) (e : Element) : Option (List Primitive) :=
  match e.figure with
  | .shape s => ofShape? v e.style s
  | .label l => some [.label (v.toPixel l.position) l.plain e.style]
  | .plot _ => some []

/-- The axes through the origin, across the whole canvas. -/
def axes (v : Viewport) : List Primitive :=
  [.axis ⟨0, v.origin.y⟩ ⟨v.size.width, v.origin.y⟩,
    .axis ⟨v.origin.x, v.size.height⟩ ⟨v.origin.x, 0⟩]

/-- The curve of a plot, if its formula can be read. -/
def curve? (v : Viewport) (l : Limits) (e : Element) : Option Primitive := do
  let plot ← e.plot?
  let formula ← (Formula.ofText plot.expression).toOption
  let pieces := formula.sample plot.axis.domain plot.axis.samples l
  return .curve (pieces.map (·.map v.toPixel)) e.style

/-- The failure of a plot, if its formula cannot be read. -/
def failure? (p : Placed) : Option PlotFailure := do
  let plot ← p.element.plot?
  match Formula.ofText plot.expression with
  | .ok _ => none
  | .error r => return ⟨p.id, plot.expression, r⟩

/-- The picture of a scene. There is none when the lines of one of its grids never end. -/
def ofScene? (v : Viewport) (l : Limits) (s : Scene) : Option Preview := do
  let shapes ← s.others.mapM fun p => ofElement? v p.element
  let axes := match s.axis? with
    | some axis => if axis.visible then axes v else []
    | none => []
  return {
    viewport := v
    primitives := shapes.flatten ++ axes ++ s.plots.filterMap fun p => curve? v l p.element
    failures := s.plots.filterMap failure? }

end Preview

end Sketch
