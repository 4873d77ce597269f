import Sketch.Number.Binary

/-!
Whole parts, remainders and choices between floats, exact on the integers and powers of two that
the floats stand for.
-/

namespace Sketch

namespace Binary

/-- The magnitude without what lies below one, and whether anything did. -/
def wholePart (b : Binary) : Nat := b.magnitude.floor

def isWhole (b : Binary) : Bool := b.magnitude.num % b.magnitude.den = 0

/-- The integer `± n`, with the sign of `b` even where it is zero. -/
def withWhole (b : Binary) (n : Nat) : Float := toFloat ⟨b.negative, n, 0⟩

end Binary

namespace Number

/-- Applies a choice of whole number to a finite float that is not one already. -/
def toWhole (choose : Binary → Nat) (x : Float) : Float :=
  match Binary.ofFloat? x with
  | some b => if b.isWhole then x else b.withWhole (choose b)
  | none => x

/-- The greatest whole number that is not above `x`. -/
def floor : Float → Float :=
  toWhole fun b => if b.negative then b.wholePart + 1 else b.wholePart

/-- The least whole number that is not below `x`. -/
def ceil : Float → Float :=
  toWhole fun b => if b.negative then b.wholePart else b.wholePart + 1

/-- The nearest whole number; a half goes away from zero. -/
def round : Float → Float :=
  toWhole fun b => if b.magnitude.compareHalf = .lt then b.wholePart else b.wholePart + 1

/-- What is left of `x` after taking away `y` as often as it goes, with the sign of `x`. -/
def remainder (x y : Float) : Float :=
  match Binary.ofFloat? x, Binary.ofFloat? y with
  | some a, some b =>
    if b.significand = 0 then 0 / 0
    else
      let low := min a.exponent b.exponent
      let scale (c : Binary) := c.significand * Nat.pow 2 (c.exponent - low).toNat
      Binary.toFloat ⟨a.negative, scale a % scale b, low⟩
  | some _, none => if y.isNaN then y else x
  | none, _ => 0 / 0

/-- The smaller of two floats, and `y` if they are equal, as the two zeros are. One that is not a
number gives way to the other. -/
def smaller (x y : Float) : Float := if y.isNaN ∨ x < y then x else y

/-- The larger of two floats, and `y` if they are equal, as the two zeros are. One that is not a
number gives way to the other. -/
def larger (x y : Float) : Float := if y.isNaN ∨ y < x then x else y

end Number

end Sketch
