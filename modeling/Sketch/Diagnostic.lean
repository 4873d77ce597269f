import Sketch.Span

/-!
Errors and warnings about a text, with marks on the places they speak of. A rejection holds the
diagnostics of a formula that has no meaning.
-/

namespace Sketch

inductive Severity
  | error
  | warning
  deriving DecidableEq, Repr

def Severity.name : Severity → String
  | .error => "error"
  | .warning => "warning"

/-- What a diagnostic is about. -/
inductive Code
  | unexpectedCharacter
  | malformedNumber
  | unexpectedToken
  | incomplete
  | unknownFunction
  | unknownName
  | argumentCount
  | tooComplex
  | unrecognized
  | malformedLiteral
  deriving DecidableEq, Repr

namespace Code

/-- Codes below 100 are about characters, below 200 about formulas, and the rest about lines. -/
def number : Code → String
  | .unexpectedCharacter => "E001"
  | .malformedNumber => "E002"
  | .unexpectedToken => "E100"
  | .incomplete => "E101"
  | .unknownFunction => "E102"
  | .unknownName => "E103"
  | .argumentCount => "E104"
  | .tooComplex => "E105"
  | .unrecognized => "E200"
  | .malformedLiteral => "E201"

def description : Code → String
  | .unexpectedCharacter => "unexpected character"
  | .malformedNumber => "malformed number"
  | .unexpectedToken => "unexpected token"
  | .incomplete => "incomplete expression"
  | .unknownFunction => "unknown function"
  | .unknownName => "unknown identifier"
  | .argumentCount => "wrong number of arguments"
  | .tooComplex => "expression too complex"
  | .unrecognized => "unrecognized construct"
  | .malformedLiteral => "malformed numeric literal"

def all : List Code :=
  [.unexpectedCharacter, .malformedNumber, .unexpectedToken, .incomplete, .unknownFunction,
    .unknownName, .argumentCount, .tooComplex, .unrecognized, .malformedLiteral]

end Code

/-- A marked place. The primary ones show where the trouble is, the others add context. -/
structure Mark where
  span : Span
  message : String
  primary : Bool
  deriving DecidableEq, Repr

def Mark.shift (m : Mark) (offset : Nat) : Mark := { m with span := m.span.shift offset }

structure Diagnostic where
  severity : Severity
  message : String
  code : Option Code := none
  marks : List Mark := []
  help : Option String := none
  deriving DecidableEq, Repr

namespace Diagnostic

/-- A diagnostic of a code, with the code's description at a primary mark. -/
def ofCode (severity : Severity) (code : Code) (message : String) (span : Span) : Diagnostic :=
  { severity, message, code := some code, marks := [⟨span, code.description, true⟩] }

def mark (d : Diagnostic) (span : Span) (message : String) : Diagnostic :=
  { d with marks := d.marks ++ [⟨span, message, true⟩] }

/-- Adds a secondary mark. -/
def context (d : Diagnostic) (span : Span) (message : String) : Diagnostic :=
  { d with marks := d.marks ++ [⟨span, message, false⟩] }

def advise (d : Diagnostic) (help : String) : Diagnostic := { d with help := some help }

def shift (d : Diagnostic) (offset : Nat) : Diagnostic :=
  { d with marks := d.marks.map (·.shift offset) }

def text (d : Diagnostic) : String :=
  let code := match d.code with
    | some c => "[" ++ c.number ++ "]"
    | none => ""
  d.severity.name ++ code ++ ": " ++ d.message

end Diagnostic

/-- The reasons why a formula was turned down. -/
structure Rejection where
  diagnostics : List Diagnostic
  deriving DecidableEq, Repr

namespace Rejection

def shift (r : Rejection) (offset : Nat) : Rejection := ⟨r.diagnostics.map (·.shift offset)⟩

/-- The first diagnostic, and how many more there are. -/
def text (r : Rejection) : String :=
  match r.diagnostics with
  | [] => ""
  | [d] => d.text
  | d :: ds => d.text ++ " (+" ++ toString ds.length ++ " more)"

end Rejection

end Sketch
