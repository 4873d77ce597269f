import Sketch.Text.Lines

/-!
Opaque colors of three eight-bit channels. In code a color is six hexadecimal digits; in a picture
they follow a number sign.
-/

namespace Sketch

structure Color where
  red : UInt8
  green : UInt8
  blue : UInt8
  deriving DecidableEq, Repr

/-- Why a text is no color: not six hexadecimal digits, or not in the notation of style sheets. -/
inductive ColorError
  | digits (text : String)
  | css (text : String)
  deriving DecidableEq, Repr

def ColorError.message : ColorError → String
  | .digits text => "invalid hex color `" ++ text ++ "`, expected six hex digits"
  | .css text => "invalid color `" ++ text ++ "`"

namespace Color

def black : Color := ⟨0, 0, 0⟩

def white : Color := ⟨255, 255, 255⟩

/-- The color `0xRRGGBB`. -/
def ofNat (n : Nat) : Color := ⟨.ofNat (n / 0x10000), .ofNat (n / 0x100), .ofNat n⟩

/-- Two hexadecimal digits. -/
def channelDigits (n : UInt8) : List Char :=
  [Nat.digitChar (n.toNat / 16), Nat.digitChar (n.toNat % 16)]

def hexDigits (c : Color) : List Char :=
  channelDigits c.red ++ channelDigits c.green ++ channelDigits c.blue

/-- Six small hexadecimal digits. -/
def hex (c : Color) : String := .ofList c.hexDigits

def css (c : Color) : String := .ofList ('#' :: c.hexDigits)

/-- The value of a hexadecimal digit in either case. -/
def digit? (c : Char) : Option Nat :=
  if '0' ≤ c ∧ c ≤ '9' then some (c.toNat - '0'.toNat)
  else if 'a' ≤ c ∧ c ≤ 'f' then some (c.toNat - 'a'.toNat + 10)
  else if 'A' ≤ c ∧ c ≤ 'F' then some (c.toNat - 'A'.toNat + 10)
  else none

/-- The color of three pairs of digit values. -/
def ofDigits? : List Nat → Option Color
  | [r₁, r₀, g₁, g₀, b₁, b₀] =>
    some ⟨.ofNat (16 * r₁ + r₀), .ofNat (16 * g₁ + g₀), .ofNat (16 * b₁ + b₀)⟩
  | _ => none

/-- Reads exactly six hexadecimal digits. -/
def readHex? (cs : List Char) : Option Color := cs.mapM digit? >>= ofDigits?

/-- Reads six hexadecimal digits, with or without a number sign before them. -/
def ofHex (text : String) : Except ColorError Color :=
  let cs := text.toList
  match readHex? ((Text.after? ['#'] cs).getD cs) with
  | some c => .ok c
  | none => .error (.digits text)

end Color

end Sketch
