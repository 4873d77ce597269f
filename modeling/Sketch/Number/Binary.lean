import Sketch.Number.Fraction

/-!
Finite floats as integers times powers of two. `Binary.ofFloat?` takes the bits apart, and
`Fraction.toFloat` finds the float nearest to a quotient, an exact tie going to the even significand.
-/

namespace Sketch

/-- The float `± significand * 2 ^ exponent`; both zeros keep their sign. -/
structure Binary where
  negative : Bool
  significand : Nat
  exponent : Int
deriving DecidableEq, Repr

/-- The bits of positive infinity, one past those of the largest finite float. -/
def infinityBits : Nat := 2047 * Nat.pow 2 52

/-- The bit that is set in negative floats. -/
def signBit : Nat := Nat.pow 2 63

/-- The exponent of the subnormal floats. -/
def leastExponent : Int := -1074

namespace Fraction

/-- The exponent at which the quotient has 53 binary digits, but never less than that of the
subnormal floats. -/
def binaryExponent (r : Fraction) : Int :=
  let low : Int := (r.num.log2 : Int) - r.den.log2 - 53
  let fits := (r.timesPow 2 (-low)).floor < Nat.pow 2 53
  max (if fits then low else low + 1) leastExponent

/-- The bits of the nearest float. The hidden bit of a full significand carries into the exponent
field, and so does a significand that rounds up to a power of two. -/
def floatBits (r : Fraction) : Nat :=
  if r.num = 0 then 0
  else
    let e := r.binaryExponent
    min ((e - leastExponent).toNat * Nat.pow 2 52 + (r.timesPow 2 (-e)).nearest) infinityBits

def toFloat (r : Fraction) (negative : Bool) : Float :=
  .ofBits (.ofNat (r.floatBits + if negative then signBit else 0))

end Fraction

namespace Binary

/-- An exponent field of all ones holds an infinity or no number at all. -/
def ofFloat? (x : Float) : Option Binary :=
  let bits := x.toBits.toNat
  let field : Nat := bits / Nat.pow 2 52 % 2048
  let fraction : Nat := bits % Nat.pow 2 52
  if field = 2047 then none
  else if field = 0 then some ⟨signBit ≤ bits, fraction, leastExponent⟩
  else some ⟨signBit ≤ bits, Nat.pow 2 52 + fraction, (field : Int) - 1 + leastExponent⟩

/-- The size, without the sign. -/
def magnitude (b : Binary) : Fraction := (Fraction.ofNat b.significand).timesPow 2 b.exponent

def toFloat (b : Binary) : Float := b.magnitude.toFloat b.negative

end Binary

end Sketch
