import Sketch.Number.Notation
import Sketch.Text.Blank
import Sketch.Text.Lines
import Sketch.Diagnostic

/-!
The tokens of an expression. A text is cut into pieces from left to right: tokens, characters that
belong to none, and numerals that name no number. All the bad pieces are reported together.
-/

namespace Sketch

inductive Token
  | number (value : Float)
  | name (text : String)
  | plus
  | minus
  | star
  | slash
  | caret
  | left
  | right
  | comma
  deriving DecidableEq

namespace Token

/-- A symbol of one character. -/
def ofSymbol? : Char → Option Token
  | '+' => some .plus
  | '-' => some .minus
  | '*' => some .star
  | '/' => some .slash
  | '^' => some .caret
  | '(' => some .left
  | ')' => some .right
  | ',' => some .comma
  | _ => none

def describe : Token → String
  | .number v => "number `" ++ Number.text v ++ "`"
  | .name n => "`" ++ n ++ "`"
  | .plus => "`+`"
  | .minus => "`-`"
  | .star => "`*`"
  | .slash => "`/`"
  | .caret => "`^`"
  | .left => "`(`"
  | .right => "`)`"
  | .comma => "`,`"

end Token

/-- A token and the bytes it was read from. -/
structure Lexeme where
  token : Token
  span : Span
  deriving DecidableEq

/-- A piece of an expression's text. -/
inductive Piece
  | lexeme (l : Lexeme)
  | stray (span : Span)
  | malformed (span : Span)
  deriving DecidableEq

namespace Piece

def isNumeralChar (c : Char) : Bool := c.isDigit || c == '.'

def isNameStart (c : Char) : Bool := c.isAlpha || c == '_'

def isNameChar (c : Char) : Bool := c.isAlphanum || c == '_'

/-- The exponent at the start of a text, which is none unless it has a digit. -/
def exponent : List Char → List Char
  | [] => []
  | c :: cs =>
    let sign := (cs.take 1).filter fun s => s == '+' || s == '-'
    let digits := (cs.drop sign.length).takeWhile Char.isDigit
    if (c = 'e' ∨ c = 'E') ∧ digits ≠ [] then c :: sign ++ digits else []

/-- The digits and points at the start of a text, with an exponent. -/
def numeral (cs : List Char) : List Char :=
  let digits := cs.takeWhile isNumeralChar
  digits ++ exponent (cs.drop digits.length)

/-- The piece that a numeral at `offset` makes. -/
def ofNumeral (offset : Nat) (run : List Char) : Piece :=
  let span := Span.ofBounds offset (offset + Text.size run)
  match Number.read? run with
  | some v => .lexeme ⟨.number v, span⟩
  | none => .malformed span

def ofName (offset : Nat) (run : List Char) : Piece :=
  .lexeme ⟨.name (.ofList run), Span.ofBounds offset (offset + Text.size run)⟩

/-- The piece that any other single character makes. -/
def ofChar (offset : Nat) (c : Char) : Piece :=
  let span := Span.ofBounds offset (offset + c.utf8Size)
  match Token.ofSymbol? c with
  | some t => .lexeme ⟨t, span⟩
  | none => .stray span

/-- The pieces of a text that starts at `offset`. -/
def scan (offset : Nat) : List Char → List Piece
  | [] => []
  | c :: cs =>
    if Text.isSpacing c then scan (offset + 1) cs
    else if isNumeralChar c then
      let run := numeral (c :: cs)
      ofNumeral offset run :: scan (offset + Text.size run) (cs.drop (run.length - 1))
    else if isNameStart c then
      let run := (c :: cs).takeWhile isNameChar
      ofName offset run :: scan (offset + Text.size run) (cs.drop (run.length - 1))
    else ofChar offset c :: scan (offset + c.utf8Size) cs
termination_by cs => cs.length
decreasing_by all_goals simp; try omega

def lexeme? : Piece → Option Lexeme
  | .lexeme l => some l
  | .stray _ | .malformed _ => none

def diagnostic? : Piece → Option Diagnostic
  | .lexeme _ => none
  | .stray span => some <|
      (Diagnostic.ofCode .error .unexpectedCharacter "unexpected character" span).advise
        "expressions may use numbers, `x`, `pi`, `e`, functions, `+ - * / ^`, parentheses and `,`"
  | .malformed span => some <|
      (Diagnostic.ofCode .error .malformedNumber "malformed number" span).advise
        "numbers look like `2`, `0.5`, `.5` or `1e-3`"

end Piece

/-- The tokens of an expression, or every bad piece of it. -/
def Lexeme.ofText (cs : List Char) : Except Rejection (List Lexeme) :=
  let pieces := Piece.scan 0 cs
  match pieces.filterMap Piece.diagnostic? with
  | [] => .ok (pieces.filterMap Piece.lexeme?)
  | ds => .error ⟨ds⟩

end Sketch
