import Sketch.Number.Decimal

/-!
How floats are written and read. The positional notation never has an exponent: `1e21` is written
with twenty-one zeros. The scientific notation shows a given number of digits. Reading takes digits
with an optional point and exponent, and the names of the infinities and of not-a-number.
-/

namespace Sketch

namespace Decimal

def sign (d : Decimal) : List Char := if d.negative then ['-'] else []

/-- Positional notation without superfluous zeros. -/
def positional (d : Decimal) : List Char :=
  let written := Nat.toDigits 10 d.digits
  let kept := (written.reverse.dropWhile (· = '0')).reverse
  let point := d.places
  if d.digits = 0 then d.sign ++ ['0']
  else if point ≤ 0 then d.sign ++ '0' :: '.' :: (List.replicate (-point).toNat '0' ++ kept)
  else if kept.length ≤ point.toNat then
    d.sign ++ kept ++ List.replicate (point.toNat - kept.length) '0'
  else d.sign ++ kept.take point.toNat ++ '.' :: kept.drop point.toNat

/-- One digit, the others after a point, and the exponent. -/
def scientific (d : Decimal) : List Char :=
  match Nat.toDigits 10 d.digits with
  | [] => d.sign
  | [c] => d.sign ++ c :: 'e' :: (toString (d.places - 1)).toList
  | c :: cs => d.sign ++ c :: '.' :: cs ++ 'e' :: (toString (d.places - 1)).toList

/-- A sign is optional wherever one may stand. -/
def readSign : List Char → Bool × List Char
  | '-' :: cs => (true, cs)
  | '+' :: cs => (false, cs)
  | cs => (false, cs)

def natOfDigits (cs : List Char) : Nat := cs.foldl (fun n c => 10 * n + (c.toNat - '0'.toNat)) 0

/-- The digits of a fraction after its point, if there is a point. -/
def splitFraction : List Char → List Char × List Char
  | '.' :: cs => cs.span Char.isDigit
  | cs => ([], cs)

/-- An exponent, or nothing at all; a mark needs at least one digit. -/
def readExponent? : List Char → Option Int
  | [] => some 0
  | c :: cs =>
    let (negative, digits) := readSign cs
    if (c = 'e' ∨ c = 'E') ∧ digits ≠ [] ∧ digits.all Char.isDigit then
      some (if negative then -(natOfDigits digits : Int) else natOfDigits digits)
    else none

/-- Reads digits around an optional point, with at least one digit on either side of it. -/
def read? (cs : List Char) : Option Decimal := do
  let (negative, cs) := readSign cs
  let (whole, cs) := cs.span Char.isDigit
  let (fraction, cs) := splitFraction cs
  let exponent ← readExponent? cs
  if whole = [] ∧ fraction = [] then none
  else some ⟨negative, natOfDigits (whole ++ fraction), exponent - fraction.length⟩

end Decimal

namespace Number

def infinity : Float := .ofBits (.ofNat infinityBits)

def nan : Float := 0 / 0

/-- The shortest positional notation of a float. -/
def write (x : Float) : List Char :=
  match Binary.ofFloat? x with
  | some b => (Decimal.shortest b).positional
  | none => if x.isNaN then "NaN".toList else if x < 0 then "-inf".toList else "inf".toList

def text (x : Float) : String := .ofList (write x)

/-- A float with `n` significant digits; zeros, infinities and not-a-number have none to count. -/
def scientific (n : Nat) (x : Float) : String :=
  match Binary.ofFloat? x with
  | some b =>
    if b.significand = 0 then
      let places := if n ≤ 1 then [] else '.' :: List.replicate (n - 1) '0'
      .ofList ((if b.negative then ['-'] else []) ++ '0' :: places ++ ['e', '0'])
    else .ofList { b.magnitude.significant n with negative := b.negative }.scientific
  | none => text x

/-- The names that stand for infinity and not-a-number, in small letters. -/
def named? (word : List Char) : Option Float :=
  if word = "inf".toList ∨ word = "infinity".toList then some infinity
  else if word = "nan".toList then some nan
  else none

/-- The float nearest to a decimal, or a named one with an optional sign. -/
def read? (cs : List Char) : Option Float :=
  let (negative, rest) := Decimal.readSign cs
  match named? (rest.map Char.toLower) with
  | some x => some (if negative then -x else x)
  | none => (Decimal.read? cs).map Decimal.toFloat

/-- Reads a number that is neither infinite nor undefined. -/
def readFinite? (cs : List Char) : Option Float := (read? cs).filter Float.isFinite

/-- Reads a natural below `2 ^ 32`, with an optional plus sign. -/
def readCount? (cs : List Char) : Option UInt32 :=
  let digits := match cs with
    | '+' :: r => r
    | r => r
  if digits ≠ [] ∧ digits.all Char.isDigit ∧ Decimal.natOfDigits digits < UInt32.size then
    some (.ofNat (Decimal.natOfDigits digits))
  else none

end Number

end Sketch
