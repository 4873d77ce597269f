import Sketch.Element

/-!
Ready-made material: templates and snippets are code, presets are elements.
-/

namespace Sketch

/-- A whole picture to start from. -/
structure Template where
  label : String
  description : String
  code : String

/-- A line to put into a picture. -/
structure Snippet where
  label : String
  code : String

structure Preset where
  label : String
  description : String
  elements : List Element

namespace Template

def blank : Template where
  label := "Blank"
  description := "An empty drawing"
  code := "\\begin\x7btikzpicture\x7d\n\\end\x7btikzpicture\x7d"

def coordinateGrid : Template where
  label := "Coordinate grid"
  description := "A grid with labeled axes"
  code := "\\begin\x7btikzpicture\x7d\n" ++
    "  \\draw[step=1cm, gray!30, very thin, dashed] (-3,-3) grid (3,3);\n" ++
    "  \\draw[->] (-3,0) -- (3.5,0);\n" ++
    "  \\draw[->] (0,-3) -- (0,3.5);\n" ++
    "  \\node at (3.5,-0.3) \x7b$x$\x7d;\n" ++
    "  \\node at (-0.3,3.5) \x7b$y$\x7d;\n" ++
    "\\end\x7btikzpicture\x7d"

def functionPlot : Template where
  label := "Function plot"
  description := "A sine curve on centered axes"
  code := "\\begin\x7btikzpicture\x7d\n" ++
    "  \\begin\x7baxis\x7d[axis lines=middle, domain=-5:5, samples=100]\n" ++
    "    \\addplot[draw=0000ff] \x7bsin(x)\x7d;\n" ++
    "  \\end\x7baxis\x7d\n" ++
    "\\end\x7btikzpicture\x7d"

def shapes : Template where
  label := "Shapes"
  description := "A circle, a rectangle and a label"
  code := "\\begin\x7btikzpicture\x7d\n" ++
    "  \\draw[fill=ffcc00] (0,0) circle (1cm);\n" ++
    "  \\draw[draw=ff0000, dashed] (1.5,-1) rectangle ++(2,2);\n" ++
    "  \\node at (0,-1.5) \x7bShapes\x7d;\n" ++
    "\\end\x7btikzpicture\x7d"

def all : List Template := [blank, coordinateGrid, functionPlot, shapes]

end Template

def Snippet.all : List Snippet :=
  [⟨"Circle", "\\draw (0,0) circle (1cm);"⟩,
    ⟨"Rectangle", "\\draw (0,0) rectangle ++(2,1);"⟩,
    ⟨"Line", "\\draw (0,0) -- (2,2);"⟩,
    ⟨"Arrow", "\\draw[->] (0,0) -- (2,0);"⟩,
    ⟨"Grid", "\\draw[step=1cm, gray!30, very thin, dashed] (-2,-2) grid (2,2);"⟩,
    ⟨"Label", "\\node at (0,0) \x7bLabel\x7d;"⟩,
    ⟨"Plot", "\\addplot \x7bx^2\x7d;"⟩]

namespace Preset

def unitCircle : Preset where
  label := "Unit circle"
  description := "The unit circle with both axes"
  elements :=
    [⟨.shape (.circle ⟨0, 0⟩ 1), { color := ⟨0, 0, 255⟩ }⟩,
      ⟨.shape (.line ⟨-1.5, 0⟩ ⟨1.5, 0⟩), { arrowHead := .forward }⟩,
      ⟨.shape (.line ⟨0, -1.5⟩ ⟨0, 1.5⟩), { arrowHead := .forward }⟩,
      ⟨.label ⟨⟨1.2, 0.3⟩, "$1$"⟩, {}⟩]

def parabola : Preset where
  label := "Parabola"
  description := "y = x^2 over [-2, 2]"
  elements :=
    [⟨.plot ⟨"x^2", { domain := ⟨-2, 2⟩, samples := 50 }⟩, { color := ⟨255, 0, 0⟩ }⟩]

def flow : Preset where
  label := "Flow"
  description := "Two boxes joined by an arrow"
  elements :=
    [⟨.shape (.rectangle ⟨-3, -0.5⟩ 2 1), {}⟩,
      ⟨.label ⟨⟨-2, 0⟩, "Input"⟩, {}⟩,
      ⟨.shape (.rectangle ⟨1, -0.5⟩ 2 1), { lineStyle := .dashed }⟩,
      ⟨.label ⟨⟨2, 0⟩, "Output"⟩, {}⟩,
      ⟨.shape (.line ⟨-1, 0⟩ ⟨1, 0⟩), { arrowHead := .forward }⟩]

def all : List Preset := [unitCircle, parabola, flow]

end Preset

end Sketch
