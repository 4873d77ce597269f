import Sketch.Code.Options
import Sketch.Diagnostic

/-!
The commands that make an element, one to a line. A line may fail to have the shape of a command,
or have it up to a number that cannot be read; the second tells more and is reported first.
-/

namespace Sketch

/-- A place in a line: the bytes before it and the characters after it. -/
structure Cursor where
  offset : Nat
  rest : List Char

inductive Mismatch
  | shape
  | number (span : Span)
  deriving DecidableEq, Repr

/-- The first mismatched number, if there is one. -/
def Mismatch.or : Mismatch → Mismatch → Mismatch
  | .shape, m => m
  | .number s, _ => .number s

namespace Command

/-- The lines that frame a picture and the axis block in it. -/
def pictureBegin : String := "\\begin\x7btikzpicture\x7d"

def pictureEnd : String := "\\end\x7btikzpicture\x7d"

def axisBegin : String := "\\begin\x7baxis\x7d"

def axisEnd : String := "\\end\x7baxis\x7d"

/-- Reads a part of a line. -/
abbrev Reader := StateT Cursor (Except Mismatch)

/-- The longest run of such characters, which may be empty. -/
def run (p : Char → Bool) : Reader (List Char) := fun c =>
  let taken := c.rest.takeWhile p
  .ok (taken, ⟨c.offset + Text.size taken, c.rest.dropWhile p⟩)

def spacing : Reader Unit := do
  let _ ← run Text.isSpacing

/-- Reads a word if it stands here. -/
def skips (word : String) : Reader Bool := fun c =>
  match Text.after? word.toList c.rest with
  | some rest => .ok (true, ⟨c.offset + Text.size word.toList, rest⟩)
  | none => .ok (false, c)

def literal (word : String) : Reader Unit := do
  unless ← skips word do throw .shape

/-- A word between optional spaces. -/
def keyword (word : String) : Reader Unit := do
  spacing
  literal word
  spacing

def isNumberChar (c : Char) : Bool :=
  c.isDigit || c == '.' || c == '-' || c == '+' || c == 'e' || c == 'E'

/-- A finite number. Any run of number characters has the shape of one. -/
def number : Reader Float := do
  let start := (← get).offset
  let digits ← run isNumberChar
  if digits.isEmpty then throw .shape
  match Number.readFinite? digits with
  | some x => return x
  | none => throw (.number (.ofBounds start (← get).offset))

/-- Two numbers in parentheses. -/
def point : Reader Point := do
  literal "("
  spacing
  let x ← number
  keyword ","
  let y ← number
  spacing
  literal ")"
  return ⟨x, y⟩

/-- An option list in brackets; without a closing bracket there is none. -/
def options : Reader Options := fun c =>
  match c.rest with
  | '[' :: cs =>
    match Braces.splitBefore? ']' 0 cs with
    | some (raw, _ :: rest) => .ok (.ofText raw, ⟨c.offset + Text.size raw + 2, rest⟩)
    | _ => .ok ({}, c)
  | _ => .ok ({}, c)

/-- The text in a pair of braces. -/
def braced : Reader (List Char) := fun c =>
  match c.rest with
  | '{' :: cs =>
    match Braces.splitBefore? '}' 0 cs with
    | some (inner, _ :: rest) => .ok (inner, ⟨c.offset + Text.size inner + 2, rest⟩)
    | _ => .error .shape
  | _ => .error .shape

/-- The name of a command and its options. -/
def head (name : String) : Reader Options := do
  literal name
  spacing
  let o ← options
  spacing
  return o

/-- A semicolon, and nothing after it. -/
def finish : Reader Unit := do
  keyword ";"
  unless (← get).rest.isEmpty do throw .shape

def drawn (o : Options) (s : Shape) : Element := ⟨.shape s, o.styleFor .shape⟩

def circle : Reader Element := do
  let o ← head "\\draw"
  let center ← point
  keyword "circle"
  literal "("
  spacing
  let radius ← number
  spacing
  let _ ← skips "cm"
  spacing
  literal ")"
  finish
  return drawn o (.circle center radius)

/-- The opposite corner is either relative, after two plus signs, or absolute. -/
def rectangle : Reader Element := do
  let o ← head "\\draw"
  let origin ← point
  keyword "rectangle"
  let relative ← skips "++"
  if relative then spacing
  let corner ← point
  finish
  let extent := if relative then corner else corner.sub origin
  return drawn o (.rectangle origin extent.x extent.y)

def line : Reader Element := do
  let o ← head "\\draw"
  let start ← point
  keyword "--"
  let stop ← point
  finish
  return drawn o (.line start stop)

/-- A grid looks the same whatever its options are. -/
def grid : Reader Element := do
  let _ ← head "\\draw"
  let corner ← point
  keyword "grid"
  let opposite ← point
  finish
  return ⟨.shape (.grid corner opposite), {}⟩

def node : Reader Element := do
  let o ← head "\\node"
  keyword "at"
  let position ← point
  spacing
  let text ← braced
  finish
  return ⟨.label ⟨position, .ofList text⟩, o.styleFor .text⟩

/-- A plot on an axis; its own options come before those of the axis. -/
def addplot (axis : Axis) : Reader Element := do
  literal "\\addplot"
  let _ ← skips "+"
  spacing
  let o ← options
  spacing
  let expression ← braced
  finish
  return ⟨.plot ⟨.ofList (Text.trim expression), o.sampling axis⟩, o.styleFor .plot⟩

/-- The commands by name, in the order in which they are tried. -/
def table (axis : Axis) : List (String × Reader Element) :=
  [("circle", circle), ("rectangle", rectangle), ("line", line), ("grid", grid), ("node", node),
    ("addplot", addplot axis)]

def names : List String := (table {}).map (·.1)

/-- Reads a whole line with one reader. -/
def readLine {α : Type} (r : Reader α) (line : List Char) : Except Mismatch α :=
  (r.run ⟨0, line⟩).map (·.1)

/-- The result of the first reader that reads the line, or the first mismatched number. -/
def firstOf {α : Type} (line : List Char) : List (Reader α) → Except Mismatch α
  | [] => .error .shape
  | r :: rs =>
    match readLine r line with
    | .ok a => .ok a
    | .error m => (firstOf line rs).mapError m.or

/-- The element of a trimmed line. -/
def ofLine (axis : Axis) (line : List Char) : Except Mismatch Element :=
  firstOf line ((table axis).map (·.2))

/-- The axis that a line opens. What follows its options does not matter. -/
def axis? (line : List Char) : Option Axis :=
  let opening : Reader Options := do
    literal axisBegin
    spacing
    options
  match readLine opening line with
  | .ok o =>
    let axis := o.sampling {}
    some { axis with visible := o.axis.getD axis.visible }
  | .error _ => none

end Command

/-- The warning about a line of so many bytes. -/
def Mismatch.diagnostic (length : Nat) : Mismatch → Diagnostic
  | .shape =>
    (Diagnostic.ofCode .warning .unrecognized "unrecognized construct" (.ofBounds 0 length)).advise
      ("supported commands: " ++ ", ".intercalate Command.names)
  | .number span =>
    { severity := .warning, message := "malformed numeric literal", code := some .malformedLiteral,
      marks := [⟨span, "this is not a number", true⟩],
      help := some "numbers look like `2`, `-0.5` or `1e-3`" }

end Sketch
