import Sketch.Color.Named
import Sketch.Number.Notation
import Sketch.Number.Rounding
import Sketch.Text.Blank

/-!
Colors in a part of the notation of style sheets: three, four, six or eight hexadecimal digits, a name,
or the channels of `rgb` and `rgba`. Letters may be small or capital, and any opacity is dropped. Other
functions of colors are not read.
-/

namespace Sketch.Color

/-- The digits of a color with every channel written twice, and without its opacity. -/
def fullDigits? : List Nat → Option (List Nat)
  | [r, g, b] | [r, g, b, _] => some [r, r, g, g, b, b]
  | [r₁, r₀, g₁, g₀, b₁, b₀] | [r₁, r₀, g₁, g₀, b₁, b₀, _, _] => some [r₁, r₀, g₁, g₀, b₁, b₀]
  | _ => none

/-- Reads the digits after a number sign. -/
def readDigits? (cs : List Char) : Option Color := cs.mapM digit? >>= fullDigits? >>= ofDigits?

def isNameChar (c : Char) : Bool := c.isAlphanum || c == '_' || c == '-'

/-- Whether a name starts here: at a letter or an underscore, with at most one hyphen before it. -/
def startsName : List Char → Bool
  | '-' :: c :: _ | c :: _ => c.isAlpha || c == '_'
  | [] => false

/-- Skips blanks and comments. A comment without an end takes all that follows with it. -/
def skipBlanks : (comment : Bool) → List Char → List Char
  | _, [] => []
  | true, '*' :: '/' :: cs => skipBlanks false cs
  | true, _ :: cs => skipBlanks true cs
  | false, '/' :: '*' :: cs => skipBlanks true cs
  | false, c :: cs => if Text.isSpacing c then skipBlanks false cs else c :: cs

def skip (cs : List Char) : List Char := skipBlanks false cs

/-- The digits of a number and what follows them; a point or an exponent counts only with a digit. -/
def splitNumber? (cs : List Char) : Option (Float × List Char) :=
  let (negative, cs) := Decimal.readSign cs
  let (whole, cs) := cs.span Char.isDigit
  let (fraction, cs) := match cs with
    | '.' :: rest =>
      let (digits, after) := rest.span Char.isDigit
      if digits.isEmpty then ([], cs) else (digits, after)
    | _ => ([], cs)
  let (exponent, cs) : Int × List Char := match cs with
    | c :: rest =>
      let (negative, rest) := Decimal.readSign rest
      let (digits, after) := rest.span Char.isDigit
      if (c = 'e' ∨ c = 'E') ∧ digits ≠ [] then
        let n := Decimal.natOfDigits digits
        (if negative then -n else n, after)
      else (0, cs)
    | [] => (0, cs)
  if whole.isEmpty ∧ fraction.isEmpty then none
  else
    let d : Decimal := ⟨negative, Decimal.natOfDigits (whole ++ fraction), exponent - fraction.length⟩
    some (d.toFloat, cs)

/--
A channel as a part of one: a plain number counts units, and a percentage counts hundredths. The
word `none` is zero, and a number with a name for its unit is no channel.
-/
def readChannel? (unit : Float) (cs : List Char) : Option (Float × List Char) :=
  let cs := skip cs
  match splitNumber? cs with
  | some (x, '%' :: rest) => some (x * 0.01, rest)
  | some (x, rest) => if startsName rest then none else some (x * unit, rest)
  | none =>
    let (name, rest) := cs.span isNameChar
    if name.map Char.toLower = "none".toList then some (0, rest) else none

/-- A part of a channel, kept between zero and one, as eight bits; a half goes up. -/
def channel (x : Float) : UInt8 :=
  let part := Number.smaller (Number.larger x 0) 1
  (part.toFloat32 * 255 + 0.5).toUInt8

/-- The separator of a list of channels that uses commas, or nothing. -/
def separator? (commas : Bool) (cs : List Char) : Option (List Char) :=
  match commas, skip cs with
  | true, ',' :: rest => some rest
  | true, _ => none
  | false, rest => some rest

/-- An opacity after its mark, or nothing, up to the closing parenthesis. -/
def readClose? (commas : Bool) (cs : List Char) : Option (List Char) := do
  let mark := if commas then ',' else '/'
  let rest ← match skip cs with
    | c :: rest => if c = mark then (readChannel? 1 rest).map (·.2) else some (c :: rest)
    | [] => some []
  match skip rest with
  | ')' :: rest => some rest
  | _ => none

/-- Reads the channels in parentheses. Either commas stand after the first two, or nowhere. -/
def readChannels? (cs : List Char) : Option (Color × List Char) := do
  let (red, cs) ← readChannel? (1 / 255) (← Text.after? ['('] cs)
  let cs := skip cs
  let commas := cs.head? = some ','
  let (green, cs) ← readChannel? (1 / 255) (if commas then cs.drop 1 else cs)
  let (blue, cs) ← readChannel? (1 / 255) (← separator? commas cs)
  let cs ← readClose? commas cs
  some (⟨channel red, channel green, channel blue⟩, cs)

/-- Reads a color with blanks around it. -/
def readCss? (text : String) : Option Color :=
  match Text.trim text.toList with
  | '#' :: digits => readDigits? digits
  | cs =>
    let (name, rest) := cs.span isNameChar
    let name := name.map Char.toLower
    if name = "rgb".toList ∨ name = "rgba".toList then
      match readChannels? rest with
      | some (c, []) => some c
      | _ => none
    else if rest.isEmpty then named? name
    else none

end Sketch.Color
