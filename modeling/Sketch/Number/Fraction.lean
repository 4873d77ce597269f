/-!
Non-negative quotients of naturals, kept unreduced: the exact values behind decimal and binary
notation. A quotient is scaled by powers of a base and then cut down or rounded to a natural.
-/

namespace Sketch

/-- The quotient `num / den`. -/
structure Fraction where
  num : Nat
  den : Nat
deriving DecidableEq, Repr

namespace Fraction

def ofNat (n : Nat) : Fraction := ⟨n, 1⟩

/-- The quotient times `base ^ exponent`. -/
def timesPow (r : Fraction) (base : Nat) : Int → Fraction
  | .ofNat e => ⟨r.num * base.pow e, r.den⟩
  | .negSucc e => ⟨r.num, r.den * base.pow (e + 1)⟩

def floor (r : Fraction) : Nat := r.num / r.den

/-- What lies above the floor is less than, equal to or more than one half. -/
def compareHalf (r : Fraction) : Ordering := compare (2 * (r.num % r.den)) r.den

/-- The nearest natural; a half goes to the even one. -/
def nearest (r : Fraction) : Nat :=
  match r.compareHalf with
  | .lt => r.floor
  | .eq => r.floor + r.floor % 2
  | .gt => r.floor + 1

/-- Whether `r < base ^ exponent`. -/
def belowPow (r : Fraction) (base : Nat) (exponent : Int) : Bool :=
  (r.timesPow base (-exponent)).floor = 0

end Fraction

end Sketch
