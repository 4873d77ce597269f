import Sketch.Code.Command
import Sketch.Scene

/-!
The reading of a whole text, line by line. Every line is read under the axis that the lines before
it have opened; one that cannot be read becomes a warning and is left as it is.
-/

namespace Sketch

/-- What a line turned out to be. -/
inductive Reading
  /-- A blank line, or one that frames the picture. -/
  | nothing
  /-- The start or the end of an axis block, and the axis from here on. -/
  | axis (axis : Axis)
  | element (e : Element)
  | skipped (d : Diagnostic)

namespace Reading

/-- Cuts a line off at the first percent sign that no backslash escapes. -/
def stripComment : (escaped : Bool) → List Char → List Char
  | _, [] => []
  | escaped, c :: cs =>
    if c = '\\' then c :: stripComment (!escaped) cs
    else if c = '%' ∧ !escaped then []
    else c :: stripComment false cs

/-- The part of a line that is read: no comment, and no blanks around it. -/
def significant (line : List Char) : List Char := Text.trim (stripComment false line)

/-- The bytes of a line before its significant part. -/
def indentation (line : List Char) : Nat :=
  Text.size ((stripComment false line).takeWhile Text.isBlank)

/-- The warning about a line at `offset`. -/
def warning (offset : Nat) (line : List Char) (m : Mismatch) : Diagnostic :=
  let length := Text.size (significant line)
  let start := offset + indentation line
  ((m.diagnostic length).shift start).context (.ofBounds start (start + length))
    "this line is left as written"

/-- Reads the line that starts at `offset`. -/
def ofLine (axis : Axis) (offset : Nat) (line : List Char) : Reading :=
  let code := significant line
  if code.isEmpty ∨ Command.pictureBegin.toList.isPrefixOf code ∨ code = Command.pictureEnd.toList then .nothing
  else if code = Command.axisEnd.toList then .axis {}
  else match Command.axis? code with
    | some axis => .axis axis
    | none =>
      match Command.ofLine axis code with
      | .ok e => .element e
      | .error m => .skipped (warning offset line m)

/-- The axis after a line, given the one before it. -/
def axisAfter (before : Axis) : Reading → Axis
  | .axis opened => opened
  | _ => before

def element? : Reading → Option Element
  | .element e => some e
  | _ => none

def diagnostic? : Reading → Option Diagnostic
  | .skipped d => some d
  | _ => none

/-- Reads lines from `offset` on. -/
def ofLines (axis : Axis) (offset : Nat) : List (List Char) → List Reading
  | [] => []
  | l :: ls =>
    let r := ofLine axis offset l
    r :: ofLines (r.axisAfter axis) (offset + Text.size l) ls

end Reading

/-- The readings of a text's lines. -/
structure Document where
  readings : List Reading

namespace Document

def ofText (text : String) : Document := ⟨Reading.ofLines {} 0 (Text.lines text.toList)⟩

/-- The elements, in the order of their lines. -/
def elements (d : Document) : List Element := d.readings.filterMap Reading.element?

def diagnostics (d : Document) : List Diagnostic := d.readings.filterMap Reading.diagnostic?

def recognized (d : Document) : Nat := d.elements.length

/-- How many lines could not be read. -/
def skipped (d : Document) : Nat := d.readings.countP (·.diagnostic?.isSome)

/-- Puts the elements in the place of those of a scene, unless there are none. -/
def applyTo (d : Document) (s : Scene) : Scene :=
  if d.elements.isEmpty then s else s.replaceAll d.elements

end Document

end Sketch
