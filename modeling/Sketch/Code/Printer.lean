import Sketch.Code.Document

/-!
The code of a scene: the elements that are no plots line by line, then the plots in one axis block
that is opened with the axis of the first. Options are written only where they differ from the
default style.
-/

namespace Sketch

/-- A number in code; no zero has a sign. -/
def Number.code (x : Float) : String := if x == 0 then "0" else text x

def Point.code (p : Point) : String := "(" ++ Number.code p.x ++ "," ++ Number.code p.y ++ ")"

namespace Style

/-- The options that differ from the default style. -/
def options (colorKey : String) (s : Style) : List String :=
  s.arrowHead.option?.toList ++
  (if s.color = .black then [] else [colorKey ++ "=" ++ s.color.hex]) ++
  (s.fill.map fun c => "fill=" ++ c.hex).toList ++
  (if s.lineWidth == .standard then [] else
    ["line width=" ++ Number.code s.lineWidth.mm ++ "mm"]) ++
  (if s.opacity == .full then [] else ["opacity=" ++ Number.code s.opacity.fraction]) ++
  s.lineStyle.option?.toList

/-- The options in brackets, or nothing. -/
def code (colorKey : String) (s : Style) : String :=
  match s.options colorKey with
  | [] => ""
  | os => "[" ++ ", ".intercalate os ++ "]"

end Style

def Axis.code (a : Axis) : String :=
  let visibility := if a.visible then "axis lines=middle" else "hide axis"
  "[" ++ visibility ++ ", domain=" ++ Number.code a.domain.min ++ ":" ++ Number.code a.domain.max ++
    ", samples=" ++ toString a.samples.toNat ++ "]"

/-- The options of every grid. -/
def Shape.gridOptions : String := "[step=1cm, gray!30, very thin, dashed]"

def Shape.code (style : Style) : Shape → String
  | .circle center radius =>
    "\\draw" ++ style.code "draw" ++ " " ++ center.code ++ " circle (" ++ Number.code radius ++ "cm);"
  | .rectangle origin width height =>
    "\\draw" ++ style.code "draw" ++ " " ++ origin.code ++ " rectangle ++" ++
      Point.code ⟨width, height⟩ ++ ";"
  | .line start stop =>
    "\\draw" ++ style.code "draw" ++ " " ++ start.code ++ " -- " ++ stop.code ++ ";"
  | .grid corner opposite =>
    "\\draw" ++ gridOptions ++ " " ++ corner.code ++ " grid " ++ opposite.code ++ ";"

/-- The command of an element. -/
def Element.code (e : Element) : String :=
  match e.figure with
  | .shape s => s.code e.style
  | .label l =>
    "\\node" ++ e.style.code "text" ++ " at " ++ l.position.code ++ " \x7b" ++ l.content ++ "\x7d;"
  | .plot p => "\\addplot" ++ e.style.code "draw" ++ " \x7b" ++ p.expression ++ "\x7d;"

namespace Scene

/-- The axis block, if there are plots. -/
def plotLines (s : Scene) : List String :=
  match s.axis? with
  | none => []
  | some axis =>
    ["  " ++ Command.axisBegin ++ axis.code] ++
    s.plots.map (fun p => "    " ++ p.element.code) ++
    ["  " ++ Command.axisEnd]

/-- The lines before the last one. -/
def codeLines (s : Scene) : List String :=
  [Command.pictureBegin] ++ s.others.map (fun p => "  " ++ p.element.code) ++ s.plotLines

/-- The code of a scene; no line feed ends it. -/
def code (s : Scene) : String :=
  String.join (s.codeLines.map (· ++ "\n")) ++ Command.pictureEnd

end Scene

end Sketch
