import Sketch.Number.Notation
import Sketch.Number.Rounding

/-!
Arithmetic expressions in one variable, and their values. Where a function has no value the result
is infinite or not a number.
-/

namespace Sketch

/-- The functions that an expression may call. -/
inductive Builtin
  | sin | cos | tan | asin | acos | atan | sinh | cosh | tanh | exp | ln | log | log10 | log2
  | sqrt | abs | floor | ceil | round | deg | rad | min | max | pow | atan2 | mod
  deriving DecidableEq, Repr

namespace Builtin

def name : Builtin → String
  | .sin => "sin"
  | .cos => "cos"
  | .tan => "tan"
  | .asin => "asin"
  | .acos => "acos"
  | .atan => "atan"
  | .sinh => "sinh"
  | .cosh => "cosh"
  | .tanh => "tanh"
  | .exp => "exp"
  | .ln => "ln"
  | .log => "log"
  | .log10 => "log10"
  | .log2 => "log2"
  | .sqrt => "sqrt"
  | .abs => "abs"
  | .floor => "floor"
  | .ceil => "ceil"
  | .round => "round"
  | .deg => "deg"
  | .rad => "rad"
  | .min => "min"
  | .max => "max"
  | .pow => "pow"
  | .atan2 => "atan2"
  | .mod => "mod"

def all : List Builtin :=
  [.sin, .cos, .tan, .asin, .acos, .atan, .sinh, .cosh, .tanh, .exp, .ln, .log, .log10, .log2,
    .sqrt, .abs, .floor, .ceil, .round, .deg, .rad, .min, .max, .pow, .atan2, .mod]

def ofName? (name : String) : Option Builtin := all.find? (·.name = name)

def arity : Builtin → Nat
  | .min | .max | .pow | .atan2 | .mod => 2
  | _ => 1

/-- Pi and Euler's number, rounded to floats. -/
def pi : Float := 3.141592653589793

def euler : Float := 2.718281828459045

/-- The value at one argument, of the functions that take one. -/
def apply₁ : Builtin → Float → Float
  | .sin, x => x.sin
  | .cos, x => x.cos
  | .tan, x => x.tan
  | .asin, x => x.asin
  | .acos, x => x.acos
  | .atan, x => x.atan
  | .sinh, x => x.sinh
  | .cosh, x => x.cosh
  | .tanh, x => x.tanh
  | .exp, x => x.exp
  | .ln, x | .log, x => x.log
  | .log10, x => x.log10
  | .log2, x => x.log2
  | .sqrt, x => x.sqrt
  | .abs, x => x.abs
  | .floor, x => Number.floor x
  | .ceil, x => Number.ceil x
  | .round, x => Number.round x
  | .deg, x => x * (180 / pi)
  | .rad, x => x * (pi / 180)
  | _, _ => Number.nan

/-- The value at two arguments, of the functions that take two. -/
def apply₂ : Builtin → Float → Float → Float
  | .min, x, y => Number.smaller x y
  | .max, x, y => Number.larger x y
  | .pow, x, y => x.pow y
  | .atan2, x, y => x.atan2 y
  | .mod, x, y => Number.remainder x y
  | _, _, _ => Number.nan

/-- The value at a list of arguments; with the wrong number of them it is not a number. -/
def apply (f : Builtin) : List Float → Float
  | [x] => f.apply₁ x
  | [x, y] => f.apply₂ x y
  | _ => Number.nan

end Builtin

inductive BinaryOp
  | add
  | sub
  | mul
  | div
  | pow
  deriving DecidableEq, Repr

namespace BinaryOp

def symbol : BinaryOp → String
  | .add => "+"
  | .sub => "-"
  | .mul => "*"
  | .div => "/"
  | .pow => "^"

def apply : BinaryOp → Float → Float → Float
  | .add, x, y => x + y
  | .sub, x, y => x - y
  | .mul, x, y => x * y
  | .div, x, y => x / y
  | .pow, x, y => x.pow y

end BinaryOp

inductive Expr
  | number (value : Float)
  | variable
  | neg (e : Expr)
  | binary (op : BinaryOp) (lhs rhs : Expr)
  | call (f : Builtin) (args : List Expr)

namespace Expr

/-- The names of constants. -/
def constant? (name : String) : Option Float :=
  if name = "pi" then some Builtin.pi
  else if name = "e" then some Builtin.euler
  else none

mutual

/-- The value at `x`. -/
def eval (x : Float) : Expr → Float
  | .number v => v
  | .variable => x
  | .neg e => -e.eval x
  | .binary op lhs rhs => op.apply (lhs.eval x) (rhs.eval x)
  | .call f args => f.apply (evalAll x args)

def evalAll (x : Float) : List Expr → List Float
  | [] => []
  | e :: es => e.eval x :: evalAll x es

end

mutual

/-- The tree in parentheses, each operator before its operands. -/
def text : Expr → String
  | .number v => Number.text v
  | .variable => "x"
  | .neg e => "(neg " ++ e.text ++ ")"
  | .binary op lhs rhs => "(" ++ op.symbol ++ " " ++ lhs.text ++ " " ++ rhs.text ++ ")"
  | .call f args => "(" ++ f.name ++ textAll args ++ ")"

def textAll : List Expr → String
  | [] => ""
  | e :: es => " " ++ e.text ++ textAll es

end

end Expr

end Sketch
