import Sketch.Number.Binary

/-!
Decimal numbers beside floats. A float is written with the fewest digits that read back to it, and
a decimal is read as the float nearest to it.
-/

namespace Sketch

/-- The number `± digits * 10 ^ exponent`. -/
structure Decimal where
  negative : Bool
  digits : Nat
  exponent : Int
deriving DecidableEq, Repr

namespace Decimal

def magnitude (d : Decimal) : Fraction := (Fraction.ofNat d.digits).timesPow 10 d.exponent

/-- How many digits stand before the decimal point; `0.05` has minus one. -/
def places (d : Decimal) : Int := (Nat.toDigits 10 d.digits).length + d.exponent

/-- The nearest float. Sizes past either end of the floats are settled by the number of places, so
no power of ten is taken that a float cannot reach. -/
def toFloat (d : Decimal) : Float :=
  if d.digits = 0 ∨ d.places < -323 then (Fraction.ofNat 0).toFloat d.negative
  else if 309 < d.places then (Fraction.ofNat 1).timesPow 2 1024 |>.toFloat d.negative
  else d.magnitude.toFloat d.negative

end Decimal

namespace Fraction

/-- The least `p` with `r < 10 ^ p`, looked for around the estimate from the binary size. -/
def decimalPlaces (r : Fraction) : Int :=
  let estimate := ((r.num.log2 : Int) - r.den.log2 - 1) * 30103 / 100000
  if r.belowPow 10 (estimate - 1) then estimate - 1
  else if r.belowPow 10 estimate then estimate
  else if r.belowPow 10 (estimate + 1) then estimate + 1
  else estimate + 2

/-- The two neighbours of a quotient among the decimals of `n` digits, the nearer one first; of two
equally near ones the larger. -/
def neighbours (r : Fraction) (n : Nat) : List Decimal :=
  let unit := r.decimalPlaces - n
  let scaled := r.timesPow 10 (-unit)
  let low : Decimal := ⟨false, scaled.floor, unit⟩
  let high : Decimal := ⟨false, scaled.floor + 1, unit⟩
  if scaled.compareHalf = .lt then [low, high] else [high, low]

/-- The nearest decimal of `n` digits; a tie goes to the even digit. -/
def significant (r : Fraction) (n : Nat) : Decimal :=
  let unit := r.decimalPlaces - n
  let digits := (r.timesPow 10 (-unit)).nearest
  if digits = Nat.pow 10 n then ⟨false, Nat.pow 10 (n - 1), unit + 1⟩ else ⟨false, digits, unit⟩

end Fraction

namespace Decimal

/-- All the digits of a float: a power of two below one is a power of five over a power of ten. -/
def exact (b : Binary) : Decimal :=
  match b.exponent with
  | .ofNat e => ⟨b.negative, b.significand * Nat.pow 2 e, 0⟩
  | .negSucc e => ⟨b.negative, b.significand * Nat.pow 5 (e + 1), .negSucc e⟩

/-- The shortest decimal that reads back to the same float, and of those the nearest. Seventeen
digits tell any two floats apart. -/
def shortest (b : Binary) : Decimal :=
  let reads (d : Decimal) : Bool := d.magnitude.floatBits = b.magnitude.floatBits
  match (List.range' 1 17).findSome? fun n => (b.magnitude.neighbours n).find? reads with
  | some d => { d with negative := b.negative }
  | none => exact b

end Decimal

end Sketch
